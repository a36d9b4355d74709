import Ecma.Proofs.Number.Rounding

/-! The operations of the machine. They compute a significand with all its bits and shift it to the
53 bits of a double; what is shifted out is kept in two bits, which tell on which side of the half
it is. The result is the double nearest to the exact one. -/

namespace Ecma

open Float.Model Float.Model.UnpackedFloat

/-! ### Shifts -/

/-- What is known of a rest that is less than the divisor. -/
def accuracyOf (rest divisor : Nat) : Accuracy :=
  if rest = 0 then .exact else .inexact (compare (2 * rest) divisor)

/-- The bit that a shift drops joins the rest. -/
theorem shiftRightOne_eq (m : Nat) {r d : Nat} (hr : r < d) :
    (ExtendedMantissa.ofMantissaAndAccuracy m (accuracyOf r d)).shiftRightOne =
      .ofMantissaAndAccuracy (m / 2) (accuracyOf (r + d * (m % 2)) (d * 2)) := by
  unfold accuracyOf
  rcases Nat.mod_two_eq_zero_or_one m with hbit | hbit
  · have hless : compare (2 * r) (d * 2) = .lt := compare_lt_iff_lt.mpr (by omega)
    rw [hbit, Nat.mul_zero, Nat.add_zero, hless]
    split
    · simp [ExtendedMantissa.ofMantissaAndAccuracy, ExtendedMantissa.shiftRightOne, hbit]
    · cases compare (2 * r) d <;>
        simp [ExtendedMantissa.ofMantissaAndAccuracy, ExtendedMantissa.shiftRightOne, hbit]
  · rw [hbit, Nat.mul_one, if_neg (show r + d ≠ 0 by omega)]
    split
    · next hzero =>
      have hhalf : compare (2 * (r + d)) (d * 2) = .eq := compare_eq_iff_eq.mpr (by omega)
      rw [hhalf]
      simp [ExtendedMantissa.ofMantissaAndAccuracy, ExtendedMantissa.shiftRightOne, hbit]
    · next hpos =>
      have hmore : compare (2 * (r + d)) (d * 2) = .gt := compare_gt_iff_gt.mpr (by omega)
      rw [hmore]
      cases compare (2 * r) d <;>
        simp [ExtendedMantissa.ofMantissaAndAccuracy, ExtendedMantissa.shiftRightOne, hbit]

/-- A shift divides, and keeps what is known of the rest. -/
theorem shiftRight_eq (m s : Nat) :
    ExtendedMantissa.ofMantissaAndAccuracy m .exact >>> s =
      .ofMantissaAndAccuracy (m / 2 ^ s) (accuracyOf (m % 2 ^ s) (2 ^ s)) := by
  induction s with
  | zero =>
    rw [Nat.pow_zero, Nat.div_one, Nat.mod_one]
    rfl
  | succ s ih =>
    have hstep : ExtendedMantissa.ofMantissaAndAccuracy m .exact >>> (s + 1) =
      (ExtendedMantissa.ofMantissaAndAccuracy m .exact >>> s).shiftRightOne := rfl
    rw [hstep, ih, shiftRightOne_eq _ (Nat.mod_lt _ (Nat.two_pow_pos s)), Nat.div_div_eq_div_mul,
      ← Nat.mod_pow_succ, ← Nat.pow_succ]

/-- The quotient is rounded by what is known of the rest. -/
theorem roundedMantissa_eq (n : Nat) {d : Nat} (hd : 0 < d) :
    (ExtendedMantissa.ofMantissaAndAccuracy (n / d) (accuracyOf (n % d) d)).roundedMantissa =
      roundDiv n d := by
  unfold accuracyOf roundDiv
  dsimp only
  split
  · next hzero =>
    have hless : compare (2 * (n % d)) d = .lt := compare_lt_iff_lt.mpr (by omega)
    rw [hless]
    rfl
  · cases compare (2 * (n % d)) d with
    | lt | gt => rfl
    | eq =>
      change n / d + n / d % 2 = if n / d % 2 = 0 then n / d else n / d + 1
      split <;> omega

/-! ### Rounding -/

theorem targetExponent_eq {m : Nat} {e : Int} (hm : 52 ≤ m.log2) (he : -1074 ≤ e) :
    Format.binary64.targetExponent (totalExponent m e) = e + (m.log2 - 52 : Nat) := by
  change max ((m.log2 : Int) + 1 + e - (1 + 52 : Nat)) (3 - 2 ^ (11 - 1) - (1 + 52 : Nat)) = _
  norm_num
  omega

theorem shiftToTargetExponent_eq {m : Nat} {e : Int} (hm : 52 ≤ m.log2) (he : -1074 ≤ e) :
    shiftToTargetExponent Format.binary64 m e .exact =
      (ExtendedMantissa.ofMantissaAndAccuracy m .exact >>> (m.log2 - 52), e + (m.log2 - 52 : Nat)) := by
  rw [shiftToTargetExponent, targetExponent_eq hm he, shiftToExponent,
    show (e + (m.log2 - 52 : Nat) - e).toNat = m.log2 - 52 by omega]

/-- The double that the machine makes of a value taken apart. -/
def packed (u : UnpackedFloat) : Number :=
  .ofModel (.pack u)

theorem exact_packed (u : UnpackedFloat) : (packed u).exact =
    .ofUnpacked (UnpackedFloat.unpack Format.binary64 (UnpackedFloat.pack Format.binary64 u)) :=
  Number.exact_eq _

/-- A significand of 53 bits is kept, if the exponent is not too large. -/
theorem exact_packed_finite {m : Nat} {e : Int} (hlow : 0x10000000000000 ≤ m)
    (hhigh : m < 0x20000000000000) (he : -1074 ≤ e) (hpos : 0 < m) :
    (packed (.finite .positive m e hpos)).exact = .capped m e := by
  rw [exact_packed, UnpackedFloat.pack, Exact.log2_eq hlow hhigh, Exact.capped]
  obtain ⟨k, rfl⟩ : ∃ k : Nat, e = k - 1074 := ⟨(e + 1074).toNat, by omega⟩
  have hbiased :
      ((k : Int) - 1074 + Format.binary64.exponentBias + (52 : Nat)).toNat = k + 1 := by
    change ((k : Int) - 1074 + (2 ^ (11 - 1) - 1 : Nat) + 52).toNat = k + 1
    omega
  dsimp only
  rw [hbiased]
  by_cases hcap : (k : Int) - 1074 ≤ 971
  · have hexponent : (BitVec.ofNat 11 (k + 1)).toNat = k + 1 := by
      rw [BitVec.toNat_ofNat, Nat.mod_eq_of_lt (by omega)]
    have hmantissa : (BitVec.ofNat 52 m).toNat = m - 0x10000000000000 := by
      rw [BitVec.toNat_ofNat]
      omega
    rw [if_pos hcap, if_neg (by omega), if_pos (show 52 + 1 = Format.binary64.mantissaBits from rfl),
      Exact.ofUnpacked_unpack, ← toNat_unpackExponent,
      ← toNat_unpackMantissa, ← isMinus_unpackSign, unpackExponent_packComponents,
      unpackMantissa_packComponents, unpackSign_packComponents, Sign.ofBitVec_toBitVec, hexponent,
      hmantissa, if_neg (by omega), if_neg (by omega), isMinus, Nat.add_sub_cancel' hlow,
      show ((k + 1 : Nat) : Int) - 1075 = k - 1074 by omega]
  · rw [if_neg hcap, if_pos (by omega)]
    decide

theorem mantissa_shiftRight (m s : Nat) :
    (ExtendedMantissa.ofMantissaAndAccuracy m .exact >>> s).mantissa = m / 2 ^ s := by
  rw [shiftRight_eq, accuracyOf]
  split
  · rfl
  · cases compare (2 * (m % 2 ^ s)) (2 ^ s) <;> rfl

theorem roundDiv_log2_bounds {m : Nat} (hm : 52 ≤ m.log2) :
    0x10000000000000 ≤ roundDiv m (2 ^ (m.log2 - 52)) ∧
      roundDiv m (2 ^ (m.log2 - 52)) ≤ 0x20000000000000 := by
  have hne : m ≠ 0 := by
    rintro rfl
    exact absurd hm (by decide)
  have hunit : (m.log2 - 52 : Int) = .ofNat (m.log2 - 52) := by
    rw [Int.ofNat_eq_natCast]
    omega
  have hbounds := inUnits_bounds hne
  rwa [hunit, inUnits] at hbounds

/-- A significand of at least 53 bits is rounded to them, and carried if it has one more. -/
theorem exact_packed_round {m : Nat} {e : Int} (hm : 52 ≤ m.log2) (he : -1074 ≤ e) :
    (packed (roundWithAccuracy Format.binary64 .positive m e .exact)).exact =
      .carried (roundDiv m (2 ^ (m.log2 - 52))) (e + (m.log2 - 52 : Nat)) := by
  obtain ⟨hlow, hhigh⟩ := roundDiv_log2_bounds hm
  rw [roundWithAccuracy, shiftToTargetExponent_eq hm he]
  dsimp only
  rw [shiftRight_eq, roundedMantissa_eq _ (Nat.two_pow_pos _), Exact.carried]
  have hf : -1074 ≤ e + (m.log2 - 52 : Nat) := by omega
  generalize e + (m.log2 - 52 : Nat) = f at hf
  generalize roundDiv m (2 ^ (m.log2 - 52)) = r at hlow hhigh
  by_cases hcarry : r = 0x20000000000000
  · have hlog : r.log2 = 53 := by rw [hcarry]; rfl
    have hhalf : r / 2 ^ (53 - 52) = 0x10000000000000 := by omega
    rw [if_pos hcarry, shiftToTargetExponent_eq (by omega) hf]
    simp only [mantissa_shiftRight, hlog, hhalf]
    exact exact_packed_finite le_rfl (by decide) (by omega) (by decide)
  · have hlog : r.log2 = 52 := Exact.log2_eq hlow (by omega)
    have hself : r / 2 ^ (52 - 52) = r := by omega
    rw [if_neg hcarry, shiftToTargetExponent_eq hlog.ge hf]
    simp only [mantissa_shiftRight, hlog, hself, Nat.sub_self, Int.add_zero, Nat.cast_zero]
    rw [dif_neg (by omega)]
    exact exact_packed_finite hlow (by omega) hf (by omega)

/-- What is rounded is a natural number: the result is the double nearest to it. -/
theorem exact_packed_natural {m n : Nat} {e : Int} (hm : 52 ≤ m.log2) (he : -1074 ≤ e)
    (h : Exact.dyadic false m e = n) :
    (packed (roundWithAccuracy Format.binary64 .positive m e .exact)).exact = .nearest n := by
  rw [exact_packed_round hm he, Exact.carried_eq_nearest hm h]

/-- A natural number that is rounded gives the double nearest to it, however few bits its
significand has. -/
theorem exact_round_natural {m n : Nat} {e : Int} (hm : 0 < m) (he : -1074 ≤ e)
    (h : Exact.dyadic false m e = n) :
    (packed (UnpackedFloat.round Format.binary64 .positive m e)).exact = .nearest n := by
  have hvalue := h
  rw [UnpackedFloat.round]
  rcases Nat.lt_or_ge m.log2 52 with hshort | hlong
  · -- The number is at least one, so that the exponent is not too low for all 53 bits.
    have hplace : 0 ≤ (m.log2 : Int) + e := by
      have hone : (1 : ℚ) ≤ n := by
        have hpositive : (0 : ℚ) < n := by
          rw [← h, Exact.dyadic_false]
          positivity
        exact_mod_cast hpositive
      have hbits : (m : ℚ) < 2 ^ ((m.log2 : ℤ) + 1) := by
        exact_mod_cast Nat.lt_log2_self (n := m)
      have hbound : (2 : ℚ) ^ (0 : ℤ) < 2 ^ ((m.log2 : ℤ) + 1 + e) := by
        rw [zpow_add₀ two_ne_zero, zpow_zero]
        rw [← h, Exact.dyadic_false] at hone
        exact hone.trans_lt (mul_lt_mul_of_pos_right hbits (by positivity))
      have hexponent := (zpow_lt_zpow_iff_right₀ one_lt_two).mp hbound
      omega
    have htarget : Format.binary64.targetExponent (totalExponent m e) =
        e - (52 - m.log2 : Nat) := by
      change max ((m.log2 : Int) + 1 + e - (1 + 52 : Nat)) (3 - 2 ^ (11 - 1) - (1 + 52 : Nat)) = _
      norm_num
      omega
    have hshift : (e - (e - (52 - m.log2 : Nat))).toNat = 52 - m.log2 := by omega
    rw [htarget, decreaseExponent, hshift]
    dsimp only
    rw [Nat.shiftLeft_eq]
    refine exact_packed_natural ?_ (by omega) ?_
    · rw [log2_mul_two_pow (by omega)]
      omega
    · rw [← hvalue, Exact.dyadic_false, Exact.dyadic_false, zpow_sub₀ two_ne_zero, zpow_natCast]
      push_cast
      field_simp
  · have hstay : (e - (e + (m.log2 - 52 : Nat))).toNat = 0 := by omega
    rw [targetExponent_eq hlong he, decreaseExponent, hstay]
    dsimp only
    rw [Nat.shiftLeft_zero, Nat.cast_zero, Int.sub_zero]
    exact exact_packed_natural hlong he hvalue

/-- A sum that is a positive natural number is rounded once. -/
theorem exact_packed_sum {s s' : Sign} {m m' n : Nat} {e e' : Int} (hm : 0 < m) (hm' : 0 < m')
    (he : -1074 ≤ e) (he' : -1074 ≤ e') (hn : 0 < n)
    (h : Exact.dyadic (isMinus s) m e + Exact.dyadic (isMinus s') m' e' = n) :
    (packed (UnpackedFloat.add Format.binary64 (.finite s m e hm) (.finite s' m' e' hm'))).exact =
      .nearest n := by
  obtain ⟨a, ha⟩ : ∃ a : Nat, e = min e e' + a := ⟨(e - min e e').toNat, by omega⟩
  obtain ⟨b, hb⟩ : ∃ b : Nat, e' = min e e' + b := ⟨(e' - min e e').toNat, by omega⟩
  have hlow : -1074 ≤ min e e' := by omega
  rw [UnpackedFloat.add]
  dsimp only
  generalize min e e' = f at ha hb hlow
  subst ha hb
  have hshift (c : Nat) : (f + c - f).toNat = c := by omega
  have hterm (s : Sign) (m c : Nat) :
      Exact.dyadic (isMinus s) m (f + c) = (s.apply (m <<< c : Nat) : ℤ) * 2 ^ f := by
    rw [Nat.shiftLeft_eq]
    cases s with
    | negative =>
      rw [isMinus, Exact.dyadic_true, Exact.dyadic_false, zpow_add₀ two_ne_zero, zpow_natCast,
        Sign.apply]
      push_cast
      ring
    | positive =>
      rw [isMinus, Exact.dyadic_false, zpow_add₀ two_ne_zero, zpow_natCast, Sign.apply]
      push_cast
      ring
  simp only [decreaseExponent, hshift]
  rw [hterm, hterm, ← add_mul, ← Int.cast_add] at h
  generalize s.apply (m <<< a : Nat) + s'.apply (m' <<< b : Nat) = t at h
  have hpos : 0 < t := by
    have hpositive : (0 : ℚ) < n := by exact_mod_cast hn
    rw [← h] at hpositive
    exact_mod_cast (mul_pos_iff_of_pos_right (zpow_pos two_pos f)).mp hpositive
  obtain ⟨k, rfl⟩ : ∃ k : Nat, t = k := ⟨t.toNat, by omega⟩
  rw [UnpackedFloat.normalize, compare_gt_iff_gt.mpr hpos]
  dsimp only
  rw [Int.toNat_natCast]
  refine exact_round_natural (by omega) hlow ?_
  rw [Exact.dyadic_false]
  exact_mod_cast h

/-! ### Products and sums -/

namespace Number

theorem mul_eq (x y : Number) :
    x * y = packed (UnpackedFloat.mul Format.binary64 x.toModel.unpack y.toModel.unpack) :=
  rfl

theorem add_eq (x y : Number) :
    x + y = packed (UnpackedFloat.add Format.binary64 x.toModel.unpack y.toModel.unpack) :=
  rfl

theorem unpack_eq {x : Number} {u : UnpackedFloat} (h : x.exact = .ofUnpacked u) :
    x.toModel.unpack = u :=
  Exact.ofUnpacked_inj (x.exact_eq.symm.trans h)

theorem unpack_finite {x : Number} {m : Nat} {e : Int} (hm : 0 < m)
    (h : x.exact = .finite false m e) : x.toModel.unpack = .finite .positive m e hm :=
  unpack_eq h

theorem unpack_infinite {x : Number} (h : x.exact = .infinite false) :
    x.toModel.unpack = .infinity .positive :=
  unpack_eq h

theorem exact_ofNat_two_pow : ∀ k : Nat, k ≤ 4 →
    Number.exact (Float.ofNat (2 ^ k)) = .finite false 0x10000000000000 ((k : Int) - 52) := by
  decide

/-- A power of two as a factor is exact, up to the largest exponent. -/
theorem exact_mul_two_pow {x : Number} {n k : Nat} (hx : x.exact = .nearest n) (hk : k ≤ 4) :
    Number.exact (x * Float.ofNat (2 ^ k)) = .nearest (n * 2 ^ k) := by
  by_cases hn : n = 0
  · have hzero : ∀ k ≤ 4, Number.exact (zero false * Float.ofNat (2 ^ k)) = .nearest 0 := by
      decide
    rw [hn] at hx
    rw [exact_inj (hx.trans exact_zero.symm), hn, Nat.zero_mul]
    exact hzero k hk
  · obtain ⟨m, e, hlow, hhigh, he, -, -, hscaled⟩ := Exact.exists_normal hn
    have hplain := hscaled 0
    have hy := unpack_finite (by decide) (exact_ofNat_two_pow k hk)
    rw [Nat.pow_zero, Nat.mul_one, ← hx, Nat.cast_zero, Int.add_zero, Exact.capped] at hplain
    rw [hscaled, mul_eq, hy]
    split at hplain
    · have hlog : (m * 0x10000000000000).log2 = 52 + 52 := by
        rw [show 0x10000000000000 = 2 ^ 52 from rfl, log2_mul_two_pow (by omega), Exact.log2_eq hlow hhigh]
      rw [unpack_finite (by omega) hplain, UnpackedFloat.mul]
      refine (exact_packed_round (by omega) (by omega)).trans ?_
      have hquotient : roundDiv (m * 2 ^ 52) (1 * 2 ^ 52) = m := by
        rw [roundDiv_mul_right _ _ (Nat.two_pow_pos 52), roundDiv_one]
      rw [hlog, show 2 ^ (52 + 52 - 52) = 1 * 2 ^ 52 from rfl,
        show 0x10000000000000 = 2 ^ 52 from rfl, hquotient, Exact.carried, if_neg (by omega),
        show e + ((k : Int) - 52) + (52 + 52 - 52 : Nat) = e + k by omega]
    · rw [unpack_infinite hplain, UnpackedFloat.mul, Exact.capped, if_neg (by omega)]
      decide

theorem exact_ofNat : ∀ d < 17, Number.exact (Float.ofNat d) = .nearest d := by
  decide

/-- The machine's sum of a double of at least one and a small number is rounded once. -/
theorem exact_add {x : Number} {m n d : Nat} {e : Int} (hx : x.exact = .finite false m e)
    (hlow : 0x10000000000000 ≤ m) (hvalue : Exact.dyadic false m e = n) (hd : d < 17) :
    Number.exact (x + Float.ofNat d) = .nearest (n + d) := by
  have hy := exact_ofNat d hd
  have hcanonical := exact_canonical hx
  have hx' := unpack_finite (by omega) hx
  by_cases hzero : d = 0
  · have hzero' : (Float.ofNat 0).toModel.unpack = .zero .positive := unpack_eq (by decide)
    have hsum : x + Float.ofNat 0 = x := by
      rw [add_eq, hzero', hx']
      exact (congrArg packed hx'.symm).trans (Float.ofBits_toBits x)
    rw [hzero, hsum, hx, Nat.add_zero, Exact.nearest_eq hlow hcanonical.lt hvalue, Exact.capped,
      if_pos hcanonical.high]
  · obtain ⟨m', e', hlow', -, he', -, hvalue', hself⟩ := Exact.exists_normal hzero
    have hplain := hself 0
    rw [Nat.pow_zero, Nat.mul_one, Nat.cast_zero, Int.add_zero, ← hy, Exact.capped] at hplain
    rw [Exact.dyadic_inUnits hzero (by omega)] at hvalue'
    split at hplain
    · rw [add_eq, hx', unpack_finite (by omega) hplain]
      refine exact_packed_sum (by omega) (by omega) hcanonical.low (by omega) (by omega) ?_
      rw [isMinus, hvalue, hvalue']
      push_cast
      rfl
    · have hfinite : ∀ d < 17, Number.exact (Float.ofNat d) ≠ .infinite false := by decide
      exact absurd hplain (hfinite d hd)

end Number

end Ecma
