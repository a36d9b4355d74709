import Ecma.Proofs.Number.Unpacked
import Ecma.Eval.Operator

/-! The order of Numbers and BigInts. A value that is not NaN has a place on the extended real line,
and the operators that compare tell which of two places comes first. The machine orders two doubles
by their exponents and then by their significands; a BigInt is ordered against the floor of a
double. -/

namespace Ecma

open Float.Model Float.Model.UnpackedFloat

/-! ### Places -/

namespace Exact

/-- The rational number that a sign, a significand and an exponent write. -/
def dyadic (negative : Bool) (m : Nat) (e : Int) : ℚ :=
  (if negative then -(m : Int) else m : Int) * 2 ^ e

/-- The place of a value on the extended real line; NaN has none. -/
noncomputable def onLine : Exact → Option EReal
  | .nan => none
  | .infinite negative => some (if negative then ⊥ else ⊤)
  | .finite negative m e => some ((dyadic negative m e : ℝ) : EReal)

theorem dyadic_false (m : Nat) (e : Int) : dyadic false m e = m * 2 ^ e := by
  simp [dyadic]

theorem dyadic_true (m : Nat) (e : Int) : dyadic true m e = -dyadic false m e := by
  simp [dyadic]

theorem dyadic_pos {m : Nat} (hm : 0 < m) (e : Int) : 0 < dyadic false m e := by
  rw [dyadic_false]
  positivity

theorem dyadic_zero (negative : Bool) (e : Int) : dyadic negative 0 e = 0 := by
  cases negative <;> simp [dyadic]

/-- The order of two places. -/
noncomputable def order? : Option EReal → Option EReal → Option Ordering
  | some x, some y => some (compare x y)
  | _, _ => none

end Exact

theorem Exact.order?_swap (x y : Option EReal) :
    Exact.order? y x = (Exact.order? x y).map Ordering.swap := by
  rcases x with - | x <;> rcases y with - | y <;> try rfl
  refine congrArg some ?_
  rw [← cmp_eq_compare, ← cmp_eq_compare, cmp_swap]

theorem compare_map {α β : Type*} [LinearOrder α] [LinearOrder β] {f : α → β} (hf : StrictMono f)
    (x y : α) : compare (f x) (f y) = compare x y := by
  rw [← cmp_eq_compare, ← cmp_eq_compare, hf.cmp_map_eq]

theorem compare_neg (p q : ℚ) : compare (-p) (-q) = compare q p := by
  have hneg : StrictAnti fun q : ℚ => -q := fun _ _ h => neg_lt_neg h
  rw [← cmp_eq_compare, ← cmp_eq_compare]
  exact hneg.cmp_map_eq p q

theorem compare_rat (p q : ℚ) : compare ((p : ℝ) : EReal) ((q : ℝ) : EReal) = compare p q :=
  compare_map (EReal.coe_strictMono.comp Rat.cast_strictMono) p q

/-! ### Two doubles -/

namespace Exact

theorem dyadic_false_lt {m : Nat} {e f : Int} (hm : m < 0x20000000000000) (h : e < f) :
    dyadic false m e < 2 ^ 52 * 2 ^ f := by
  rw [dyadic_false]
  calc (m : ℚ) * 2 ^ e
      < 2 ^ 53 * 2 ^ e := by gcongr; exact_mod_cast hm
    _ = 2 ^ 52 * 2 ^ (e + 1) := by rw [zpow_add_one₀ two_ne_zero]; ring
    _ ≤ 2 ^ 52 * 2 ^ f := by gcongr <;> [norm_num; omega]

theorem le_dyadic_false {m : Nat} (hm : 0x10000000000000 ≤ m) (e : Int) :
    2 ^ 52 * 2 ^ e ≤ dyadic false m e := by
  rw [dyadic_false]
  gcongr
  exact_mod_cast hm

/-- Of two canonical magnitudes the one with the lower exponent is the smaller one. -/
theorem Canonical.dyadic_lt {m₁ m₂ : Nat} {e₁ e₂ : Int} (h₁ : Canonical m₁ e₁)
    (h₂ : Canonical m₂ e₂) (he : e₁ < e₂) : dyadic false m₁ e₁ < dyadic false m₂ e₂ :=
  (dyadic_false_lt h₁.lt he).trans_le (le_dyadic_false (h₂.normal (h₁.low.trans_lt he)) e₂)

theorem Canonical.compare_eq {m₁ m₂ : Nat} {e₁ e₂ : Int} (h₁ : Canonical m₁ e₁)
    (h₂ : Canonical m₂ e₂) :
    (compare e₁ e₂).then (compare m₁ m₂) = compare (dyadic false m₁ e₁) (dyadic false m₂ e₂) := by
  rcases lt_trichotomy e₁ e₂ with he | rfl | he
  · rw [compare_lt_iff_lt.mpr he, compare_lt_iff_lt.mpr (h₁.dyadic_lt h₂ he)]
    rfl
  · have hmono : StrictMono fun m : Nat => dyadic false m e₁ := by
      intro m n hmn
      simp only [dyadic_false]
      gcongr
    rw [compare_eq_iff_eq.mpr rfl, ← compare_map hmono]
    rfl
  · rw [compare_gt_iff_gt.mpr he, compare_gt_iff_gt.mpr (h₂.dyadic_lt h₁ he)]
    rfl

/-- A double taken apart whose significand and exponent are those of a double. -/
def UnpackedCanonical : UnpackedFloat → Prop
  | .finite _ m e _ => Canonical m e
  | _ => True

theorem compare_finite {m₁ m₂ : Nat} {e₁ e₂ : Int} (h₁ : Canonical m₁ e₁) (h₂ : Canonical m₂ e₂)
    (hm₁ : 0 < m₁) (hm₂ : 0 < m₂) (s t : Sign) :
    UnpackedFloat.compare (.finite s m₁ e₁ hm₁) (.finite t m₂ e₂ hm₂) =
      some (compare (dyadic (isMinus s) m₁ e₁) (dyadic (isMinus t) m₂ e₂)) := by
  have hpos₁ := dyadic_pos hm₁ e₁
  have hpos₂ := dyadic_pos hm₂ e₂
  cases s <;> cases t <;> refine congrArg some ?_ <;> simp only [isMinus, dyadic_true]
  · rw [compare_neg, h₁.compare_eq h₂, ← cmp_eq_compare, cmp_swap, cmp_eq_compare]
  · exact (compare_lt_iff_lt.mpr (by linarith)).symm
  · exact (compare_gt_iff_gt.mpr (by linarith)).symm
  · exact h₁.compare_eq h₂

theorem compare_zero_finite {m : Nat} (hm : 0 < m) (e : Int) (s t : Sign) :
    UnpackedFloat.compare (.zero s) (.finite t m e hm) =
      some (compare 0 (dyadic (isMinus t) m e)) := by
  have hpos := dyadic_pos hm e
  cases t <;> refine congrArg some (Eq.symm ?_) <;> simp only [isMinus, dyadic_true]
  · exact compare_gt_iff_gt.mpr (neg_lt_zero.mpr hpos)
  · exact compare_lt_iff_lt.mpr hpos

theorem compare_finite_zero {m : Nat} (hm : 0 < m) (e : Int) (s t : Sign) :
    UnpackedFloat.compare (.finite s m e hm) (.zero t) =
      some (compare (dyadic (isMinus s) m e) 0) := by
  have hpos := dyadic_pos hm e
  cases s <;> refine congrArg some (Eq.symm ?_) <;> simp only [isMinus, dyadic_true]
  · exact compare_lt_iff_lt.mpr (neg_lt_zero.mpr hpos)
  · exact compare_gt_iff_gt.mpr hpos

/-- The machine compares two doubles by their places. -/
theorem compare_unpacked {u v : UnpackedFloat} (hu : UnpackedCanonical u)
    (hv : UnpackedCanonical v) :
    UnpackedFloat.compare u v = order? (ofUnpacked u).onLine (ofUnpacked v).onLine := by
  rcases u with s | _ | s | ⟨s, m₁, e₁, hm₁⟩ <;> rcases v with t | _ | t | ⟨t, m₂, e₂, hm₂⟩
  case infinity.infinity =>
    cases s <;> cases t <;> refine congrArg some (Eq.symm ?_)
    · exact compare_eq_iff_eq.mpr rfl
    · exact compare_lt_iff_lt.mpr bot_lt_top
    · exact compare_gt_iff_gt.mpr bot_lt_top
    · exact compare_eq_iff_eq.mpr rfl
  case infinity.zero | infinity.finite =>
    cases s <;> refine congrArg some (Eq.symm ?_)
    · exact compare_lt_iff_lt.mpr (EReal.bot_lt_coe _)
    · exact compare_gt_iff_gt.mpr (EReal.coe_lt_top _)
  case zero.infinity =>
    cases t <;> refine congrArg some (Eq.symm ?_)
    · exact compare_gt_iff_gt.mpr (EReal.bot_lt_coe _)
    · exact compare_lt_iff_lt.mpr (EReal.coe_lt_top _)
  case finite.infinity =>
    cases t <;> cases s <;> refine congrArg some (Eq.symm ?_)
    · exact compare_gt_iff_gt.mpr (EReal.bot_lt_coe _)
    · exact compare_gt_iff_gt.mpr (EReal.bot_lt_coe _)
    · exact compare_lt_iff_lt.mpr (EReal.coe_lt_top _)
    · exact compare_lt_iff_lt.mpr (EReal.coe_lt_top _)
  case zero.zero =>
    simp only [ofUnpacked, onLine, order?, dyadic_zero]
    exact congrArg some (compare_eq_iff_eq.mpr rfl).symm
  case zero.finite =>
    simp only [compare_zero_finite, ofUnpacked, onLine, order?, dyadic_zero, compare_rat]
  case finite.zero =>
    simp only [compare_finite_zero, ofUnpacked, onLine, order?, dyadic_zero, compare_rat]
  case finite.finite =>
    simp only [compare_finite hu hv, ofUnpacked, onLine, order?, compare_rat]
  all_goals rfl

end Exact

namespace Number

theorem unpackedCanonical (x : Number) : Exact.UnpackedCanonical x.toModel.unpack := by
  cases h : x.toModel.unpack with
  | finite s m e hm => exact exact_canonical (by rw [exact_eq, h]; rfl)
  | infinity | notANumber | zero => trivial

/-- The order of two doubles is that of their places. -/
theorem compare_eq (x y : Number) :
    UnpackedFloat.compare x.toModel.unpack y.toModel.unpack =
      Exact.order? x.exact.onLine y.exact.onLine := by
  rw [exact_eq, exact_eq]
  exact Exact.compare_unpacked x.unpackedCanonical y.unpackedCanonical

theorem beq_eq (x y : Number) :
    (x == y) = (Exact.order? x.exact.onLine y.exact.onLine == some .eq) := by
  rw [← compare_eq]
  rfl

theorem lt_iff (x y : Number) :
    x < y ↔ Exact.order? x.exact.onLine y.exact.onLine = some .lt := by
  rw [← compare_eq]
  exact decide_eq_true_iff.trans beq_iff_eq

end Number

/-! ### A BigInt and a double -/

namespace Exact

theorem mul_zpow_ofNat (v : Int) (e : Nat) : (v : ℚ) * 2 ^ Int.ofNat e = (v * 2 ^ e : Int) := by
  push_cast
  rfl

theorem mul_zpow_negSucc (v : Int) (e : Nat) :
    (v : ℚ) * 2 ^ Int.negSucc e = v / (2 ^ (e + 1) : Nat) := by
  rw [zpow_negSucc, div_eq_mul_inv]
  push_cast
  rfl

/-- What is rounded down is the value itself. -/
theorem floorInt_eq (v e : Int) : floorInt v e = ⌊(v : ℚ) * 2 ^ e⌋ := by
  cases e with
  | ofNat e =>
    rw [mul_zpow_ofNat, Int.floor_intCast]
    rfl
  | negSucc e =>
    rw [mul_zpow_negSucc, Rat.floor_intCast_div_natCast]
    exact Int.fdiv_eq_ediv_of_nonneg v (Int.natCast_nonneg _)

/-- A value without a fraction is its own floor. -/
theorem isWhole_iff (negative : Bool) (m : Nat) (e : Int) :
    isWhole m e = true ↔ (⌊dyadic negative m e⌋ : ℚ) = dyadic negative m e := by
  unfold dyadic
  cases e with
  | ofNat e =>
    rw [mul_zpow_ofNat, Int.floor_intCast]
    exact iff_of_true rfl rfl
  | negSucc e =>
    have hpos : (0 : ℚ) < (2 ^ (e + 1) : Nat) := by positivity
    have hsign : ((2 ^ (e + 1) : Nat) : Int) ∣ (if negative then -(m : Int) else m) ↔
        2 ^ (e + 1) ∣ m := by
      cases negative
      · exact Int.natCast_dvd_natCast
      · exact Int.dvd_neg.trans Int.natCast_dvd_natCast
    have hwhole : isWhole m (.negSucc e) = true ↔ 2 ^ (e + 1) ∣ m :=
      beq_iff_eq.trans (Nat.dvd_iff_mod_eq_zero).symm
    rw [hwhole, ← hsign, mul_zpow_negSucc, Rat.floor_intCast_div_natCast, eq_div_iff hpos.ne']
    generalize (if negative then -(m : Int) else m) = v
    have hdvd : ((2 ^ (e + 1) : Nat) : Int) ∣ v ↔
        v / (2 ^ (e + 1) : Nat) * (2 ^ (e + 1) : Nat) = v :=
      ⟨Int.ediv_mul_cancel, fun h => ⟨_, ((Int.mul_comm _ _).trans h).symm⟩⟩
    rw [hdvd]
    exact_mod_cast Iff.rfl

/-- A BigInt and a value have the order of their places. -/
theorem compareInt_eq (i : Int) (x : Exact) :
    compareInt i x = order? (some ((i : ℝ) : EReal)) x.onLine := by
  cases x with
  | nan => rfl
  | infinite negative =>
    cases negative <;> refine congrArg some (Eq.symm ?_)
    · exact compare_lt_iff_lt.mpr (EReal.coe_lt_top _)
    · exact compare_gt_iff_gt.mpr (EReal.bot_lt_coe _)
  | finite negative m e =>
    have hplace : order? (some ((i : ℝ) : EReal)) (Exact.finite negative m e).onLine =
        some (compare (i : ℚ) (dyadic negative m e)) := by
      rw [← compare_rat]
      simp [order?, onLine]
    rw [hplace, compareInt, floorInt_eq, ← dyadic]
    have hfloor := Int.floor_le (dyadic negative m e)
    rcases lt_trichotomy i ⌊dyadic negative m e⌋ with h | h | h
    · have hlt : (i : ℚ) < ⌊dyadic negative m e⌋ := by exact_mod_cast h
      rw [compare_lt_iff_lt.mpr h, compare_lt_iff_lt.mpr (hlt.trans_le hfloor)]
    · rw [compare_eq_iff_eq.mpr h, h]
      simp only [isWhole_iff negative]
      split
      · next heq => rw [compare_eq_iff_eq.mpr heq]
      · next hne => rw [compare_lt_iff_lt.mpr (lt_of_le_of_ne hfloor hne)]
    · rw [compare_gt_iff_gt.mpr h, compare_gt_iff_gt.mpr (Int.floor_lt.mp h)]

end Exact

/-! ### The operators -/

namespace Numeric

/-- A Number or a BigInt as a primitive. -/
def toPrimitive : Numeric → Primitive
  | .number x => .number x
  | .bigInt i => .bigInt i

/-- A Number or a BigInt as a value. -/
def toValue (a : Numeric) : Value :=
  .primitive a.toPrimitive

/-- The value is the Number that is no number. -/
def isNaN : Numeric → Bool
  | .number x => x.isNaN
  | .bigInt _ => false

/-- The place of a Number or a BigInt on the extended real line. -/
noncomputable def onLine : Numeric → Option EReal
  | .number x => x.exact.onLine
  | .bigInt i => some ((i : ℝ) : EReal)

/-- Two values have places, and these are in a relation. -/
def Related (r : EReal → EReal → Prop) (a b : Numeric) : Prop :=
  ∃ x ∈ a.onLine, ∃ y ∈ b.onLine, r x y

theorem onLine_eq_none_iff (a : Numeric) : a.onLine = none ↔ a.isNaN = true := by
  cases a with
  | number x =>
    change x.exact.onLine = none ↔ x.isNaN = true
    rw [Number.isNaN_iff]
    cases x.exact <;> simp [Exact.onLine]
  | bigInt i => exact iff_of_false (Option.some_ne_none _) Bool.false_ne_true

end Numeric

theorem Number.lessThan_eq (x y : Number) :
    x.lessThan y = (Exact.order? x.exact.onLine y.exact.onLine).map (· == .lt) := by
  have hx : x.isNaN = true ↔ x.exact.onLine = none := (Numeric.onLine_eq_none_iff (.number x)).symm
  have hy : y.isNaN = true ↔ y.exact.onLine = none := (Numeric.onLine_eq_none_iff (.number y)).symm
  unfold lessThan
  split
  · next hnan =>
    rw [Bool.or_eq_true, hx, hy] at hnan
    rcases hnan with hnan | hnan
    · rw [hnan]; rfl
    · rw [hnan, Exact.order?_swap]; rfl
  · next hnan =>
    rw [Bool.or_eq_true, hx, hy, not_or] at hnan
    obtain ⟨p, hp⟩ := Option.ne_none_iff_exists'.mp hnan.1
    obtain ⟨q, hq⟩ := Option.ne_none_iff_exists'.mp hnan.2
    have hlt := x.lt_iff y
    rw [hp, hq] at hlt ⊢
    refine congrArg some ?_
    rw [Bool.eq_iff_iff, decide_eq_true_iff, hlt, beq_iff_eq]
    exact Option.some_inj

namespace Numeric

theorem order_bigInt (i j : Int) :
    Exact.order? (bigInt i).onLine (bigInt j).onLine = some (compare i j) := by
  have hmono : StrictMono fun n : Int => ((n : ℝ) : EReal) :=
    EReal.coe_strictMono.comp Int.cast_strictMono
  exact congrArg some (compare_map hmono i j)

theorem order_bigInt_number (i : Int) (x : Number) :
    Exact.order? (bigInt i).onLine (number x).onLine = Exact.compareInt i x.exact :=
  (Exact.compareInt_eq i x.exact).symm

theorem order_number_bigInt (x : Number) (i : Int) :
    Exact.order? (number x).onLine (bigInt i).onLine =
      (Exact.compareInt i x.exact).map Ordering.swap := by
  rw [Exact.order?_swap, order_bigInt_number]

/-- The first of two values is the smaller one if its place is. -/
theorem lessThan_eq (a b : Numeric) :
    a.lessThan b = (Exact.order? a.onLine b.onLine).map (· == .lt) := by
  cases a with
  | number x =>
    cases b with
    | number y => exact x.lessThan_eq y
    | bigInt j =>
      rw [order_number_bigInt, lessThan, Option.map_map]
      congr 1
      funext o
      cases o <;> rfl
  | bigInt i =>
    cases b with
    | number y => rw [order_bigInt_number, lessThan]
    | bigInt j =>
      rw [order_bigInt]
      refine congrArg some ?_
      rw [Bool.eq_iff_iff, decide_eq_true_iff, beq_iff_eq, compare_lt_iff_lt]

/-- Two values are equal if their places are. -/
theorem looselyEquals_eq (a b : Numeric) :
    a.toPrimitive.looselyEquals b.toPrimitive =
      (Exact.order? a.onLine b.onLine == some .eq) := by
  cases a with
  | number x =>
    cases b with
    | number y => exact x.beq_eq y
    | bigInt j =>
      rw [order_number_bigInt]
      change (Exact.compareInt j x.exact == some .eq) = _
      rcases Exact.compareInt j x.exact with - | - | - | - <;> rfl
  | bigInt i =>
    cases b with
    | number y => rw [order_bigInt_number]; rfl
    | bigInt j =>
      rw [order_bigInt]
      change (i == j) = (some (compare i j) == some .eq)
      rw [Bool.eq_iff_iff, beq_iff_eq, beq_iff_eq, Option.some.injEq, compare_eq_iff_eq]

end Numeric

namespace Engine

variable (eng : Engine)

/-- Numbers and BigInts are compared by their places on the extended real line. Each of the five
operators gives a boolean, without an effect, and it is true if the two operands have places and
these are in the relation of the operator. With a NaN all five are false; without one, exactly one
of `<`, `==` and `>` is true, and `<=` is what `>` is not. -/
theorem applyBinary_numeric_order (a b : Numeric) (s : State) :
    ∃ lt gt le ge eq : Bool,
      (eng.applyBinary .lt a.toValue b.toValue s = .ok (.boolean lt) s ∧
        eng.applyBinary .gt a.toValue b.toValue s = .ok (.boolean gt) s ∧
        eng.applyBinary .ltEq a.toValue b.toValue s = .ok (.boolean le) s ∧
        eng.applyBinary .gtEq a.toValue b.toValue s = .ok (.boolean ge) s ∧
        eng.applyBinary .eq a.toValue b.toValue s = .ok (.boolean eq) s) ∧
      ((lt = true ↔ Numeric.Related (· < ·) a b) ∧
        (gt = true ↔ Numeric.Related (· > ·) a b) ∧
        (le = true ↔ Numeric.Related (· ≤ ·) a b) ∧
        (ge = true ↔ Numeric.Related (· ≥ ·) a b) ∧
        (eq = true ↔ Numeric.Related (· = ·) a b)) ∧
      ((a.isNaN || b.isNaN) = true →
        lt = false ∧ gt = false ∧ le = false ∧ ge = false ∧ eq = false) ∧
      ((a.isNaN || b.isNaN) = false → lt.toNat + eq.toNat + gt.toNat = 1 ∧ le = !gt) := by
  refine ⟨a.lessThan b == some true, b.lessThan a == some true, b.lessThan a == some false,
    a.lessThan b == some false, a.toPrimitive.looselyEquals b.toPrimitive,
    ⟨?_, ?_, ?_, ?_, ?_⟩, ?_⟩
  · cases a <;> cases b <;> rfl
  · cases a <;> cases b <;> rfl
  · cases a <;> cases b <;> rfl
  · cases a <;> cases b <;> rfl
  · cases a <;> cases b <;> rfl
  · have hnan : (a.isNaN || b.isNaN) = true ↔ a.onLine = none ∨ b.onLine = none := by
      rw [Bool.or_eq_true, a.onLine_eq_none_iff, b.onLine_eq_none_iff]
    have hplaced : (a.isNaN || b.isNaN) = false ↔ ¬(a.onLine = none ∨ b.onLine = none) := by
      rw [← hnan, Bool.not_eq_true]
    rw [hnan, hplaced, Numeric.looselyEquals_eq, Numeric.lessThan_eq, Numeric.lessThan_eq,
      Exact.order?_swap a.onLine]
    unfold Numeric.Related
    rcases a.onLine with - | x
    · simp [Exact.order?]
    · rcases b.onLine with - | y
      · simp [Exact.order?]
      · rcases lt_trichotomy x y with h | h | h
        · simp [Exact.order?, compare_lt_iff_lt.mpr h, h, h.le, h.ne, h.not_gt, h.not_ge]
        · simp [Exact.order?, h]
        · simp [Exact.order?, compare_gt_iff_gt.mpr h, h, h.le, h.ne', h.not_gt, h.not_ge]

end Engine

end Ecma
