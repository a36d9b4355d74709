import Ecma.Proofs.Number.Nearest

/-! Integer parts of Numbers. A value is cut off towards zero by shifting its significand, and the
integer part of a Number is a Number. -/

namespace Ecma

/-! ### Cutting off -/

/-- The integer part of a rational number, towards zero. -/
def integerPart (q : ℚ) : ℤ :=
  if 0 ≤ q then ⌊q⌋ else ⌈q⌉

theorem integerPart_neg (q : ℚ) : integerPart (-q) = -integerPart q := by
  unfold integerPart
  rcases lt_trichotomy q 0 with h | rfl | h
  · rw [if_pos (by linarith), if_neg (by linarith), Int.floor_neg]
  · simp
  · rw [if_neg (by linarith), if_pos (by linarith), Int.ceil_neg]

theorem integerPart_intCast (i : ℤ) : integerPart i = i := by
  unfold integerPart
  split
  · exact Int.floor_intCast i
  · exact Int.ceil_intCast i

namespace Exact

theorem dyadic_nonneg (m : Nat) (e : Int) : 0 ≤ dyadic false m e := by
  rw [dyadic_false]
  positivity

theorem two_pow_le_limit {k : Nat} (hk : k ≤ 1024) : (2 : ℚ) ^ k ≤ limit := by
  rw [limit]
  exact pow_le_pow_right₀ one_le_two hk

/-- A canonical magnitude is below the power of two that stands for infinity. -/
theorem Canonical.dyadic_lt_limit {m : Nat} {e : Int} (h : Canonical m e) :
    dyadic false m e < limit := by
  have hlt := dyadic_false_lt h.lt (show e < 972 by have := h.high; omega)
  rw [limit_eq_succ]
  exact hlt

theorem floorOf_eq (m : Nat) (e : Int) : (floorOf m e : ℤ) = integerPart (dyadic false m e) := by
  have hfloor : (floorOf m e : ℤ) = floorInt m e := by
    cases e with
    | ofNat e => simp [floorOf, floorInt]
    | negSucc e =>
      change ((m / 2 ^ (e + 1) : Nat) : ℤ) = (m : ℤ).fdiv ((2 ^ (e + 1) : Nat) : ℤ)
      rw [Int.fdiv_eq_ediv_of_nonneg _ (Int.natCast_nonneg _), Int.natCast_div]
  rw [hfloor, floorInt_eq, integerPart, if_pos (dyadic_nonneg m e), dyadic_false]
  rfl

theorem floorOf_le (m : Nat) (e : Int) : (floorOf m e : ℚ) ≤ dyadic false m e := by
  have hfloor := floorOf_eq m e
  rw [integerPart, if_pos (dyadic_nonneg m e)] at hfloor
  calc (floorOf m e : ℚ) = ⌊dyadic false m e⌋ := by exact_mod_cast hfloor
    _ ≤ dyadic false m e := Int.floor_le _

theorem trunc?_finite (negative : Bool) (m : Nat) (e : Int) :
    (Exact.finite negative m e).trunc? = some (integerPart (dyadic negative m e)) := by
  rw [trunc?]
  cases negative with
  | false => rw [← floorOf_eq]; rfl
  | true => rw [dyadic_true, integerPart_neg, ← floorOf_eq]; rfl

/-- The value with the other sign. -/
def neg : Exact → Exact
  | .nan => .nan
  | .infinite negative => .infinite !negative
  | .finite negative m e => .finite (!negative) m e

theorem measure_neg (x : Exact) : x.neg.measure = -x.measure := by
  cases x with
  | nan => exact neg_zero.symm
  | infinite negative => cases negative <;> simp [neg, measure]
  | finite negative m e => cases negative <;> simp [neg, measure, dyadic_true]

end Exact

namespace Number

/-- The integer part of a finite Number; zero stands for that of NaN and the infinities. -/
def whole (x : Number) : ℤ :=
  match x.exact with
  | .finite negative m e => integerPart (Exact.dyadic negative m e)
  | _ => 0

/-! ### Places -/

/-- A finite Number is below the power of two that stands for infinity. -/
theorem abs_measure_lt {x : Number} {negative : Bool} {m : Nat} {e : Int}
    (hx : x.exact = .finite negative m e) : |x.measure| < Exact.limit := by
  have hnonneg := Exact.dyadic_nonneg m e
  have habs : |Exact.dyadic negative m e| = Exact.dyadic false m e := by
    cases negative with
    | false => exact abs_of_nonneg hnonneg
    | true => rw [Exact.dyadic_true, abs_neg, abs_of_nonneg hnonneg]
  rw [measure_finite hx, habs]
  exact (exact_canonical hx).dyadic_lt_limit

/-- A Number with a measure below that is finite. -/
theorem exists_finite {x : Number} (hnan : x.isNaN = false) (h : |x.measure| < Exact.limit) :
    ∃ negative m e, x.exact = .finite negative m e := by
  cases hx : x.exact with
  | nan =>
    rw [(isNaN_iff x).mpr hx] at hnan
    cases hnan
  | infinite negative =>
    have hlimit : |x.measure| = Exact.limit := by
      rw [measure, hx, Exact.measure]
      cases negative with
      | false => rw [if_neg Bool.false_ne_true, abs_of_nonneg Exact.limit_nonneg]
      | true => rw [if_pos rfl, abs_neg, abs_of_nonneg Exact.limit_nonneg]
    exact absurd hlimit h.ne
  | finite negative m e => exact ⟨negative, m, e, rfl⟩

/-- A finite Number has a smaller measure than a greater one. -/
theorem measure_lt_of_lt {x y : Number} {negative : Bool} {m : Nat} {e : Int}
    (hx : x.exact = .finite negative m e) (h : x < y) : x.measure < y.measure := by
  have hlimit := (le_abs_self x.measure).trans_lt (abs_measure_lt hx)
  rw [lt_iff, hx] at h
  cases hy : y.exact with
  | nan =>
    rw [hy] at h
    cases h
  | infinite negative' =>
    cases negative' with
    | false => rwa [measure_infinite hy]
    | true =>
      rw [hy] at h
      have hbot := compare_lt_iff_lt.mp (Option.some.inj h)
      exact absurd hbot not_lt_bot
  | finite negative' m' e' =>
    rw [hy] at h
    simp only [Exact.onLine, Exact.order?, compare_rat, Option.some.injEq, compare_lt_iff_lt] at h
    rwa [measure_finite hx, measure_finite hy]

/-! ### Signs -/

/-- Setting the sign bit turns a value to the other sign. -/
theorem exact_signed {b : Nat} (h : b < 0x7FF0000000000000) :
    Number.exact (Float.ofBits (UInt64.ofNat (b + 0x8000000000000000))) =
      (Number.exact (Float.ofBits (UInt64.ofNat b))).neg := by
  have hplain : (UInt64.ofNat b).toNat = b :=
    UInt64.toNat_ofNat_of_lt' (h.trans (by decide))
  have hsigned : (UInt64.ofNat (b + 0x8000000000000000)).toNat = b + 0x8000000000000000 :=
    UInt64.toNat_ofNat_of_lt' (show _ < 18446744073709551616 by omega)
  have hexponent : (b + 0x8000000000000000) / 0x10000000000000 % 0x800 =
      b / 0x10000000000000 % 0x800 := by omega
  have hfraction : (b + 0x8000000000000000) % 0x10000000000000 = b % 0x10000000000000 := by omega
  have hpositive : decide (0x8000000000000000 ≤ b) = false := decide_eq_false (by omega)
  have hnegative : decide (0x8000000000000000 ≤ b + 0x8000000000000000) = true :=
    decide_eq_true (by omega)
  rw [exact, toBits_ofBits (by rw [hsigned]; omega), exact, toBits_ofBits (by rw [hplain]; omega),
    hplain, hsigned, hexponent, hfraction, hpositive, hnegative]
  split_ifs <;> rfl

theorem exact_signed_or_infinite (b : Nat) :
    Number.exact (if 0x7FF0000000000000 ≤ b then infinity true
      else Float.ofBits (UInt64.ofNat (b + 0x8000000000000000))) =
      (Number.exact (if 0x7FF0000000000000 ≤ b then infinity false
        else Float.ofBits (UInt64.ofNat b))).neg := by
  by_cases hinfinite : 0x7FF0000000000000 ≤ b
  · rw [if_pos hinfinite, if_pos hinfinite]
    decide
  · rw [if_neg hinfinite, if_neg hinfinite]
    exact exact_signed (Nat.lt_of_not_le hinfinite)

theorem exact_ofRatio_true (num den : Nat) :
    (ofRatio true num den).exact = (ofRatio false num den).exact.neg := by
  by_cases hnum : num = 0
  · rw [ofRatio, ofRatio, if_pos hnum, if_pos hnum]
    decide
  · rw [ofRatio, ofRatio, if_neg hnum, if_neg hnum]
    simp only [if_true, Bool.false_eq_true, if_false, Nat.add_zero]
    exact exact_signed_or_infinite _

/-- A rounded quotient with a sign. -/
theorem measure_ofRatio (negative : Bool) (num den : Nat) :
    (ofRatio negative num den).measure =
      (if negative then -1 else 1) * (ofRatio false num den).measure := by
  cases negative with
  | false => rw [if_neg Bool.false_ne_true, one_mul]
  | true => rw [measure, exact_ofRatio_true, Exact.measure_neg, if_pos rfl, neg_one_mul]; rfl

/-- Integers of at most 53 bits are Numbers. -/
theorem measure_ofInt {i : ℤ} (h : i.natAbs < 0x20000000000000) : (ofInt i).measure = i := by
  have hmagnitude : (ofRatio false i.natAbs 1).measure = i.natAbs := by
    have hnat := exact_ofInt i.natAbs
    rw [ofInt, decide_eq_false (by omega), Int.natAbs_natCast] at hnat
    exact measure_nearest_of_lt hnat h
  rw [ofInt, measure_ofRatio, hmagnitude]
  rcases lt_or_ge i 0 with hneg | hpos
  · have hcast : (i : ℚ) = -(i.natAbs : ℤ) := by exact_mod_cast (by omega : i = -(i.natAbs : ℤ))
    rw [decide_eq_true hneg, if_pos rfl, neg_one_mul, hcast, Int.cast_natCast]
  · have hcast : (i : ℚ) = (i.natAbs : ℤ) := by exact_mod_cast (by omega : i = (i.natAbs : ℤ))
    rw [decide_eq_false (by omega), if_neg Bool.false_ne_true, one_mul, hcast, Int.cast_natCast]

/-- The integer part of a Number is a Number. -/
theorem measure_ofInt_floorOf {m : Nat} {e : Int} (h : Exact.Canonical m e) :
    (ofInt (Exact.floorOf m e)).measure = Exact.floorOf m e := by
  cases e with
  | ofNat k =>
    have hlow := h.low
    have hnearest : Exact.nearest (Exact.floorOf m (.ofNat k)) = .capped m (.ofNat k) := by
      refine Exact.nearest_eq (h.normal ?_) h.lt ?_
      · exact (by decide : (-1074 : ℤ) < 0).trans_le (Int.natCast_nonneg k)
      · rw [Exact.dyadic_false, Exact.floorOf]
        simp
    have hhigh := h.high
    rw [measure, exact_ofInt, hnearest, Exact.capped, if_pos hhigh, Exact.measure,
      Exact.dyadic_false, Exact.floorOf]
    simp
  | negSucc k =>
    have hlt : Exact.floorOf m (.negSucc k) < 0x20000000000000 :=
      (Nat.div_le_self m _).trans_lt h.lt
    exact_mod_cast measure_ofInt (i := (Exact.floorOf m (.negSucc k) : ℤ)) (by simpa using hlt)

/-- The integer part of a Number is a finite Number. -/
theorem exists_finite_ofInt_floorOf {m : Nat} {e : Int} (h : Exact.Canonical m e) :
    ∃ negative m' e', (ofInt (Exact.floorOf m e)).exact = .finite negative m' e' ∧
      Exact.dyadic negative m' e' = Exact.floorOf m e := by
  have hmeasure := measure_ofInt_floorOf h
  have hlt := (Exact.floorOf_le m e).trans_lt h.dyadic_lt_limit
  obtain ⟨negative, m', e', hx⟩ := exists_finite (isNearest (exact_ofInt (Exact.floorOf m e))).isNaN
    (by rwa [hmeasure, Nat.abs_cast])
  exact ⟨negative, m', e', hx, (measure_finite hx).symm.trans hmeasure⟩

end Number

end Ecma
