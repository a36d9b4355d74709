import Ecma.Number.Arithmetic
import Ecma.Number.Word
import Ecma.Proofs.Number.Machine
import Ecma.Proofs.Number.Whole

/-! Words by division. A Number is cut off towards zero, the remainder by `2 ^ 32` is made
nonnegative by adding the divisor, and what comes out is read as a word. All steps but the addition
are exact by their definition, and the addition is exact because its result has few bits. -/

namespace Ecma.Number

open Float.Model Float.Model.UnpackedFloat

/-! ### Scaled quotients -/

theorem ratioLog2_mul_two_pow {num den : Nat} (hnum : num ≠ 0) (hden : den ≠ 0) (k : Nat) :
    ratioLog2 (num * 2 ^ k) (den * 2 ^ k) = ratioLog2 num den := by
  have hdifference : ((num.log2 + k : Nat) : Int) - (den.log2 + k : Nat) = num.log2 - den.log2 := by
    omega
  unfold ratioLog2
  dsimp only
  rw [log2_mul_two_pow hnum, log2_mul_two_pow hden, hdifference]
  generalize (num.log2 : Int) - den.log2 = e
  cases e with
  | ofNat j =>
    have hscale : den * 2 ^ k * 2 ^ j = den * 2 ^ j * 2 ^ k := Nat.mul_right_comm _ _ _
    simp only [Nat.pow_eq, hscale, Nat.mul_le_mul_right_iff (Nat.two_pow_pos k)]
  | negSucc j =>
    have hscale : num * 2 ^ k * 2 ^ (j + 1) = num * 2 ^ (j + 1) * 2 ^ k := Nat.mul_right_comm _ _ _
    simp only [Nat.pow_eq, hscale, Nat.mul_le_mul_right_iff (Nat.two_pow_pos k)]

/-- The rounding of a quotient does not change if both sides are scaled. -/
theorem ofRatio_mul_two_pow (negative : Bool) (num : Nat) {den : Nat} (hden : den ≠ 0) (k : Nat) :
    ofRatio negative (num * 2 ^ k) (den * 2 ^ k) = ofRatio negative num den := by
  have hpos := Nat.two_pow_pos k
  by_cases hnum : num = 0
  · rw [hnum, Nat.zero_mul, ofRatio, ofRatio, if_pos rfl, if_pos rfl]
  · unfold ofRatio
    rw [if_neg hnum, if_neg (Nat.mul_ne_zero hnum hpos.ne'), ratioLog2_mul_two_pow hnum hden]
    generalize max (ratioLog2 num den - 52) (-1074) = q
    cases q with
    | ofNat j =>
      have hscale : den * 2 ^ k * 2 ^ j = den * 2 ^ j * 2 ^ k := Nat.mul_right_comm _ _ _
      simp only [Nat.pow_eq, hscale, roundDiv_mul_right _ _ hpos]
    | negSucc j =>
      have hscale : num * 2 ^ k * 2 ^ (j + 1) = num * 2 ^ (j + 1) * 2 ^ k :=
        Nat.mul_right_comm _ _ _
      simp only [Nat.pow_eq, hscale, roundDiv_mul_right _ _ hpos]

/-! ### The steps of the division -/

/-- The integer part as a Number, with the sign of the Number. -/
def truncate (x : Number) : Number :=
  match x.exact with
  | .finite negative m e => ofRatio negative (Exact.floorOf m e) 1
  | _ => x

/-- The nonnegative remainder, by way of the truncating one. -/
def remEuclid (x y : Number) : Number :=
  let r := x.remainder y
  if r < 0.0 then r + y.abs else r

/-- The word of a Number by floating-point division. -/
def dividedWord (x : Number) : UInt32 :=
  if !x.isFinite || x == 0.0 then 0 else (remEuclid x.truncate 4294967296.0).toUInt32

theorem exact_zeroLiteral : Number.exact 0.0 = .finite false 0 (-1074) := by
  decide

theorem exact_wordSize : Number.exact 4294967296.0 = .finite false 0x10000000000000 (-20) := by
  decide

theorem abs_wordSize : Float.abs 4294967296.0 = 4294967296.0 := by
  decide

/-- A rounded natural number is not below zero. -/
theorem exists_nearest (n : Nat) :
    Exact.nearest n = .infinite false ∨ ∃ m e, Exact.nearest n = .finite false m e := by
  unfold Exact.nearest Exact.carried Exact.capped
  split_ifs <;> simp

/-- The integer part of a finite Number is a finite Number with the same sign. -/
theorem exact_truncate {x : Number} {negative : Bool} {m : Nat} {e : Int}
    (hx : x.exact = .finite negative m e) : ∃ m' e', x.truncate.exact = .finite negative m' e' ∧
      Exact.dyadic false m' e' = Exact.floorOf m e := by
  obtain ⟨negative', m', e', hfinite, hvalue⟩ := exists_finite_ofInt_floorOf (exact_canonical hx)
  have hpositive : negative' = false := by
    rw [exact_ofInt] at hfinite
    obtain hinfinite | ⟨m, e, hpositive⟩ := exists_nearest (Exact.floorOf m e)
    · rw [hinfinite] at hfinite
      cases hfinite
    · rw [hpositive] at hfinite
      cases hfinite
      rfl
  subst hpositive
  rw [ofInt, decide_eq_false (by omega), Int.natAbs_natCast] at hfinite
  refine ⟨m', e', ?_, hvalue⟩
  rw [truncate, hx]
  cases negative with
  | false => exact hfinite
  | true =>
    change (ofRatio true (Exact.floorOf m e) 1).exact = _
    rw [exact_ofRatio_true, hfinite]
    rfl

/-- The remainder by `2 ^ 32` of an integer is exact. -/
theorem remainder_wordSize {x : Number} {negative : Bool} {m n : Nat} {e : Int}
    (hx : x.exact = .finite negative m e) (hn : Exact.dyadic false m e = n) :
    x.remainder 4294967296.0 = ofRatio negative (n % 0x100000000) 1 := by
  obtain ⟨k, g, hk, hg⟩ : ∃ k g : Nat, min e (-20) = .negSucc k ∧ k + 1 = g + 20 :=
    ⟨(-1 - min e (-20)).toNat, (-20 - min e (-20)).toNat, by omega, by omega⟩
  obtain ⟨a, ha⟩ : ∃ a : Nat, e = .negSucc k + a := ⟨(e - min e (-20)).toNat, by omega⟩
  have hdividend : m * 2 ^ a = n * 2 ^ (k + 1) := by
    rw [ha, Exact.dyadic_false, zpow_add₀ two_ne_zero, zpow_negSucc, zpow_natCast, mul_comm _⁻¹,
      ← mul_assoc, mul_inv_eq_iff_eq_mul₀ (by positivity)] at hn
    exact_mod_cast hn
  have hdivisor : 0x10000000000000 * 2 ^ g = 0x100000000 * 2 ^ (k + 1) := by
    rw [hg, Nat.pow_add]
    omega
  have hexponent : (e - .negSucc k).toNat = a := by omega
  have hexponent' : (-20 - Int.negSucc k).toNat = g := by omega
  rw [remainder, hx, exact_wordSize]
  dsimp only
  rw [if_neg (by decide), dyadicMod]
  dsimp only
  rw [hk, hexponent, hexponent', Nat.pow_eq, Nat.pow_eq, hdividend, hdivisor,
    Nat.mul_mod_mul_right, ofDyadic, Nat.pow_eq]
  have hscaled := ofRatio_mul_two_pow negative (n % 0x100000000) one_ne_zero (k + 1)
  rwa [Nat.one_mul] at hscaled

/-! ### Reading a word -/

/-- A double is read as an integer by cutting it off. -/
theorem roundToInt_eq (s : Sign) (m : Nat) (e : Int) :
    roundToInt s m e = s.apply (Exact.floorOf m e) := by
  rw [roundToInt, decreaseExponent]
  dsimp only
  rw [shiftToExponent]
  dsimp only
  rw [mantissa_shiftRight, Nat.shiftLeft_eq]
  cases e with
  | ofNat k =>
    have hleft : (Int.ofNat k - 0).toNat = k := by simp
    have hright : (0 - (Int.ofNat k - (k : Nat))).toNat = 0 := by simp
    rw [hleft, hright, Nat.pow_zero, Nat.div_one]
    rfl
  | negSucc k =>
    have hleft : (Int.negSucc k - 0).toNat = 0 := by omega
    have hright : (0 - (Int.negSucc k - (0 : Nat))).toNat = k + 1 := by omega
    rw [hleft, hright, Nat.pow_zero, Nat.mul_one]
    rfl

/-- A natural number of at most 53 bits is exact. -/
theorem exists_exact_ofInt {n : Nat} (h : n < 0x20000000000000) : ∃ m e,
    (ofInt n).exact = .finite false m e ∧ Exact.dyadic false m e = n ∧ (0 < n → 0 < m) := by
  by_cases hn : n = 0
  · rw [exact_ofInt, hn, Exact.nearest, if_pos rfl]
    exact ⟨0, -1074, rfl, Exact.dyadic_zero false _, id⟩
  · obtain ⟨m, e, hlow, -, -, he, hvalue, hself⟩ := Exact.exists_normal hn
    have hlog : n.log2 < 53 := (Nat.log2_lt hn).mpr h
    have hplain := hself 0
    rw [Nat.pow_zero, Nat.mul_one, Nat.cast_zero, Int.add_zero, Exact.capped,
      if_pos (by omega)] at hplain
    refine ⟨m, e, ?_, ?_, fun _ => by omega⟩
    · rw [exact_ofInt, hplain]
    · rw [hvalue, Exact.dyadic_inUnits hn h]

/-- A rounded natural number below `2 ^ 32` is read as it is. -/
theorem toUInt32_ofInt {n : Nat} (h : n < 0x100000000) :
    (ofInt n).toUInt32 = UInt32.ofNat n := by
  rcases Nat.eq_zero_or_pos n with rfl | hpos
  · decide
  · obtain ⟨m, e, hexact, hvalue, hm⟩ := exists_exact_ofInt (h.trans (by decide))
    have hfloor : (Exact.floorOf m e : ℤ) = n := by
      rw [Exact.floorOf_eq, hvalue]
      exact_mod_cast integerPart_intCast n
    have hread : (ofInt n).toUInt32 = UInt32.ofNatClamp n := by
      change UInt32.ofNatClamp (UnpackedFloat.toInt _ _ (ofInt n).toModel.unpack).toNat = _
      rw [unpack_finite (hm hpos) hexact, UnpackedFloat.toInt, roundToInt_eq, hfloor]
      rfl
    rw [hread, UInt32.ofNatClamp, dif_pos h, UInt32.ofNatLT_eq_ofNat]

theorem ofRatio_false_one (n : Nat) : ofRatio false n 1 = ofInt n := by
  rw [ofInt, decide_eq_false (by omega), Int.natAbs_natCast]

theorem exists_exact_ofRatio_true {n : Nat} (h : n < 0x20000000000000) : ∃ m e,
    (ofRatio true n 1).exact = .finite true m e ∧ Exact.dyadic true m e = -n ∧
      (0 < n → 0 < m) := by
  obtain ⟨m, e, hexact, hvalue, hm⟩ := exists_exact_ofInt h
  refine ⟨m, e, ?_, ?_, hm⟩
  · rw [exact_ofRatio_true, ofRatio_false_one, hexact]
    rfl
  · rw [Exact.dyadic_true, hvalue]

/-- The sum of a negative remainder and the divisor is exact. -/
theorem add_wordSize {n : Nat} (hpos : 0 < n) (h : n < 0x100000000) :
    ofRatio true n 1 + Float.abs 4294967296.0 = ofInt (0x100000000 - n : Nat) := by
  obtain ⟨m, e, hexact, hvalue, hm⟩ := exists_exact_ofRatio_true (h.trans (by decide))
  have hcanonical := exact_canonical hexact
  have hnegative : (ofRatio true n 1).toModel.unpack = .finite .negative m e (hm hpos) :=
    unpack_eq hexact
  have hvalues : Exact.dyadic (isMinus .negative) m e +
      Exact.dyadic (isMinus .positive) 0x10000000000000 (-20) = (0x100000000 - n : Nat) := by
    rw [isMinus, isMinus, hvalue, Exact.dyadic_false, Nat.cast_sub h.le]
    norm_num
    ring
  refine exact_inj ?_
  rw [exact_ofInt, abs_wordSize, add_eq, hnegative, unpack_finite (by decide) exact_wordSize]
  exact exact_packed_sum _ _ hcanonical.low (by decide) (by omega) hvalues

theorem lt_zero_iff {x : Number} {negative : Bool} {m : Nat} {e : Int}
    (hx : x.exact = .finite negative m e) : x < 0.0 ↔ Exact.dyadic negative m e < 0 := by
  rw [lt_iff, hx, exact_zeroLiteral]
  simp only [Exact.onLine, Exact.order?, compare_rat, Exact.dyadic_zero, Option.some.injEq,
    compare_lt_iff_lt]

theorem beq_zero_iff {x : Number} {negative : Bool} {m : Nat} {e : Int}
    (hx : x.exact = .finite negative m e) : (x == 0.0) = true ↔ Exact.dyadic negative m e = 0 := by
  rw [beq_eq, hx, exact_zeroLiteral]
  simp only [Exact.onLine, Exact.order?, compare_rat, Exact.dyadic_zero, beq_iff_eq,
    Option.some.injEq, compare_eq_iff_eq]

/-- The nonnegative remainder of an integer with a sign. -/
theorem remEuclid_wordSize {x : Number} {negative : Bool} {m n : Nat} {e : Int}
    (hx : x.exact = .finite negative m e) (hn : Exact.dyadic false m e = n) :
    (remEuclid x 4294967296.0).toUInt32 =
      UInt32.ofNat ((if negative then -(n : Int) else n) % 0x100000000).toNat := by
  have hlt : n % 0x100000000 < 0x100000000 := Nat.mod_lt n (by decide)
  unfold remEuclid
  dsimp only
  rw [remainder_wordSize hx hn]
  cases negative with
  | false =>
    obtain ⟨m', e', hexact, hvalue, -⟩ := exists_exact_ofInt (hlt.trans (by decide))
    have hnonneg : ¬ ofInt (n % 0x100000000 : Nat) < 0.0 := by
      rw [lt_zero_iff hexact, hvalue, not_lt]
      exact Nat.cast_nonneg _
    have hresidue : ((n : Int) % 0x100000000).toNat = n % 0x100000000 := by omega
    rw [ofRatio_false_one, if_neg hnonneg, toUInt32_ofInt hlt, if_neg Bool.false_ne_true, hresidue]
  | true =>
    rw [if_pos rfl]
    rcases Nat.eq_zero_or_pos (n % 0x100000000) with hzero | hpos
    · have hresidue : (-(n : Int) % 0x100000000).toNat = 0 := by omega
      rw [hzero, hresidue]
      decide
    · have hresidue : (-(n : Int) % 0x100000000).toNat = 0x100000000 - n % 0x100000000 := by omega
      obtain ⟨m', e', hexact, hvalue, -⟩ := exists_exact_ofRatio_true (hlt.trans (by decide))
      have hneg : ofRatio true (n % 0x100000000) 1 < 0.0 := by
        rw [lt_zero_iff hexact, hvalue, neg_lt_zero]
        exact_mod_cast hpos
      rw [if_pos hneg, add_wordSize hpos hlt, toUInt32_ofInt (by omega), hresidue]

/-- What is neither NaN nor infinite is finite. -/
theorem isFinite_eq (x : Number) :
    x.isFinite = match x.exact with | .finite .. => true | _ => false := by
  rw [exact_eq]
  change x.toModel.unpack.isFinite = _
  cases x.toModel.unpack <;> rfl

/-- The word of a Number by division is its residue. -/
theorem dividedWord_eq (x : Number) : x.dividedWord = x.toUint32 := by
  unfold dividedWord toUint32
  cases hx : x.exact with
  | nan | infinite =>
    have hfinite : x.isFinite = false := by
      rw [isFinite_eq, hx]
    rw [hfinite]
    rfl
  | finite negative m e =>
    rw [isFinite_eq, hx, Bool.not_true, Bool.false_or]
    split
    · next hzero =>
      rw [beq_zero_iff hx] at hzero
      rw [Exact.trunc?_finite, hzero]
      rfl
    · obtain ⟨m', e', hexact, hvalue⟩ := exact_truncate hx
      exact remEuclid_wordSize hexact hvalue

end Ecma.Number
