import Ecma.Proofs.Number.Order
import Ecma.Number.Rounding

/-! Rounding of natural numbers. The double nearest to a natural number is given by a significand of
53 bits and an exponent, and what is computed by the tables of bits is compared with that. -/

namespace Ecma

open Float.Model Float.Model.UnpackedFloat

/-! ### Quotients -/

section

variable {n d : Nat}

theorem roundDiv_one (n : Nat) : roundDiv n 1 = n := by
  have hlt : compare (2 * (n % 1)) 1 = .lt := by rw [Nat.mod_one]; rfl
  simp only [roundDiv, hlt, Nat.div_one]

theorem roundDiv_mul_right (n d : Nat) {c : Nat} (hc : 0 < c) :
    roundDiv (n * c) (d * c) = roundDiv n d := by
  have hmono : StrictMono fun a => a * c := fun _ _ h => Nat.mul_lt_mul_of_pos_right h hc
  simp only [roundDiv, Nat.mul_div_mul_right _ _ hc, Nat.mul_mod_mul_right, ← Nat.mul_assoc]
  rw [compare_map hmono (2 * (n % d)) d]

/-- No integer is nearer to a quotient than the rounded one, and a tie is even. -/
theorem roundDiv_spec (n : Nat) (hd : 0 < d) :
    2 * (roundDiv n d * d) ≤ 2 * n + d ∧ 2 * n ≤ 2 * (roundDiv n d * d) + d ∧
      (2 * (roundDiv n d * d) = 2 * n + d ∨ 2 * n = 2 * (roundDiv n d * d) + d →
        roundDiv n d % 2 = 0) := by
  have hdiv := Nat.div_add_mod' n d
  have hmod := Nat.mod_lt n hd
  generalize hq : n / d * d = p at hdiv
  have hsucc : (n / d + 1) * d = p + d := by rw [Nat.add_mul, hq, Nat.one_mul]
  unfold roundDiv
  dsimp only
  split
  · next h =>
    rw [compare_lt_iff_lt] at h
    rw [hq]
    omega
  · next h =>
    rw [compare_gt_iff_gt] at h
    rw [hsucc]
    omega
  · next h =>
    rw [compare_eq_iff_eq] at h
    split
    · rw [hq]
      omega
    · rw [hsucc]
      omega

/-- The rounded quotient is the only integer that is nearer than half a unit. -/
theorem roundDiv_eq {s : Nat} (hlow : 2 * (s * d) < 2 * n + d) (hhigh : 2 * n < 2 * (s * d) + d) :
    roundDiv n d = s := by
  have hd : 0 < d := by omega
  obtain ⟨hle, hge, -⟩ := roundDiv_spec n hd
  have h₁ : roundDiv n d * d < (s + 1) * d := by rw [Nat.add_mul]; omega
  have h₂ : s * d < (roundDiv n d + 1) * d := by rw [Nat.add_mul]; omega
  have := Nat.lt_of_mul_lt_mul_right h₁
  have := Nat.lt_of_mul_lt_mul_right h₂
  omega

end

/-! ### The nearest double -/

/-- A natural number in units of a power of two, rounded. -/
def inUnits (n : Nat) : Int → Nat
  | .ofNat k => roundDiv n (2 ^ k)
  | .negSucc k => n * 2 ^ (k + 1)

namespace Exact

/-- A value that is infinite if its exponent is too large. -/
def capped (m : Nat) (e : Int) : Exact :=
  if e ≤ 971 then .finite false m e else .infinite false

/-- A value whose significand is carried into the exponent if it has 54 bits. -/
def carried (m : Nat) (e : Int) : Exact :=
  if m = 0x20000000000000 then capped 0x10000000000000 (e + 1) else capped m e

/-- The value of the double nearest to a natural number. -/
def nearest (n : Nat) : Exact :=
  if n = 0 then .finite false 0 (-1074)
  else carried (inUnits n (n.log2 - 52)) (n.log2 - 52)

end Exact

/-- The exponent of the unit of a number, when it has fewer than 53 bits and when it has them. -/
theorem unit_cases (n : Nat) :
    (∃ k, n.log2 + (k + 1) = 52 ∧ (n.log2 - 52 : Int) = .negSucc k) ∨
      ∃ k, n.log2 = k + 52 ∧ (n.log2 - 52 : Int) = .ofNat k := by
  rcases Nat.lt_or_ge n.log2 52 with h | h
  · exact .inl ⟨51 - n.log2, by omega, by omega⟩
  · exact .inr ⟨n.log2 - 52, by omega, by rw [Int.ofNat_eq_natCast]; omega⟩

theorem inUnits_bounds {n : Nat} (hn : n ≠ 0) :
    0x10000000000000 ≤ inUnits n (n.log2 - 52) ∧ inUnits n (n.log2 - 52) ≤ 0x20000000000000 := by
  have hlow := Nat.log2_self_le hn
  have hhigh : n < 2 ^ (n.log2 + 1) := Nat.lt_log2_self
  obtain ⟨k, hk, hunit⟩ | ⟨k, hk, hunit⟩ := unit_cases n
  · rw [hunit, inUnits]
    constructor
    · calc 0x10000000000000 = 2 ^ n.log2 * 2 ^ (k + 1) := by rw [← Nat.pow_add, hk]
        _ ≤ n * 2 ^ (k + 1) := Nat.mul_le_mul_right _ hlow
    · calc n * 2 ^ (k + 1) ≤ 2 ^ (n.log2 + 1) * 2 ^ (k + 1) := Nat.mul_le_mul_right _ hhigh.le
        _ = 0x20000000000000 := by rw [← Nat.pow_add, Nat.add_right_comm, hk]
  · rw [hk, Nat.add_comm k, Nat.pow_add] at hlow
    rw [hk, show k + 52 + 1 = 53 + k by omega, Nat.pow_add] at hhigh
    obtain ⟨hle, hge, -⟩ := roundDiv_spec n (Nat.two_pow_pos k)
    rw [hunit, inUnits]
    constructor
    · by_contra hlt
      have := Nat.mul_le_mul_right (2 ^ k) (show roundDiv n (2 ^ k) ≤ 2 ^ 52 - 1 by omega)
      rw [Nat.sub_mul] at this
      omega
    · by_contra hgt
      have := Nat.mul_le_mul_right (2 ^ k) (show 2 ^ 53 + 1 ≤ roundDiv n (2 ^ k) by omega)
      rw [Nat.add_mul] at this
      omega

/-- The number of units does not change if the number and the unit are scaled. -/
theorem inUnits_mul_two_pow (n k : Nat) (e : Int) : inUnits (n * 2 ^ k) (e + k) = inUnits n e := by
  cases e with
  | ofNat j =>
    rw [show Int.ofNat j + k = .ofNat (j + k) from rfl, inUnits, inUnits, Nat.pow_add,
      roundDiv_mul_right _ _ (Nat.two_pow_pos k)]
  | negSucc j =>
    rcases Nat.lt_or_ge j k with h | h
    · obtain ⟨i, rfl⟩ := Nat.exists_eq_add_of_lt h
      rw [show Int.negSucc j + (j + i + 1 : Nat) = .ofNat i by rw [Int.ofNat_eq_natCast]; omega,
        inUnits, inUnits, show j + i + 1 = j + 1 + i by omega, Nat.pow_add, ← Nat.mul_assoc]
      have hscaled := roundDiv_mul_right (n * 2 ^ (j + 1)) 1 (Nat.two_pow_pos i)
      rwa [Nat.one_mul, roundDiv_one] at hscaled
    · obtain ⟨i, rfl⟩ := Nat.exists_eq_add_of_le h
      rw [show Int.negSucc (k + i) + k = .negSucc i by omega, inUnits, inUnits, Nat.mul_assoc,
        ← Nat.pow_add, Nat.add_assoc]

/-- Bits below those of a number do not change where its first one is. -/
theorem log2_add_rest {n k t : Nat} (hn : n ≠ 0) (ht : t < 2 ^ k) :
    (n * 2 ^ k + t).log2 = n.log2 + k := by
  have hlow := Nat.mul_le_mul_right (2 ^ k) (Nat.log2_self_le hn)
  have hhigh : (n + 1) * 2 ^ k ≤ 2 ^ (n.log2 + 1) * 2 ^ k :=
    Nat.mul_le_mul_right _ Nat.lt_log2_self
  have hpos : 0 < n * 2 ^ k := Nat.mul_pos (Nat.pos_of_ne_zero hn) (Nat.two_pow_pos k)
  rw [Nat.add_mul] at hhigh
  rw [Nat.log2_eq_iff (by omega), Nat.pow_add, Nat.add_right_comm, Nat.pow_add _ (n.log2 + 1)]
  omega

theorem log2_mul_two_pow {n : Nat} (hn : n ≠ 0) (k : Nat) : (n * 2 ^ k).log2 = n.log2 + k :=
  log2_add_rest hn (Nat.two_pow_pos k)

namespace Exact

/-- A scaled number has the nearest double in scaled units. -/
theorem nearest_mul_two_pow {n : Nat} (hn : n ≠ 0) (k : Nat) :
    nearest (n * 2 ^ k) = carried (inUnits n (n.log2 - 52)) (n.log2 - 52 + k) := by
  have hunit : ((n.log2 + k : Nat) : Int) - 52 = n.log2 - 52 + k := by omega
  rw [nearest, if_neg (Nat.mul_ne_zero hn (Nat.two_pow_pos k).ne'), log2_mul_two_pow hn, hunit,
    inUnits_mul_two_pow]

/-- The significand and the exponent of the nearest double, and of those of its multiples by powers
of two. -/
theorem exists_normal {n : Nat} (hn : n ≠ 0) : ∃ m : Nat, ∃ e : Int,
    0x10000000000000 ≤ m ∧ m < 0x20000000000000 ∧
      (n.log2 : Int) - 52 ≤ e ∧ e ≤ n.log2 - 51 ∧
      dyadic false m e = dyadic false (inUnits n (n.log2 - 52)) (n.log2 - 52) ∧
      ∀ k : Nat, nearest (n * 2 ^ k) = capped m (e + k) := by
  obtain ⟨hlow, hhigh⟩ := inUnits_bounds hn
  simp only [nearest_mul_two_pow hn, carried]
  generalize inUnits n (n.log2 - 52) = s at hlow hhigh
  obtain ⟨q, hq⟩ : ∃ q : Int, q = n.log2 - 52 := ⟨_, rfl⟩
  rw [← hq]
  by_cases hcarry : s = 0x20000000000000
  · refine ⟨0x10000000000000, q + 1, le_rfl, by decide, by omega, by omega, ?_, fun k => ?_⟩
    · rw [hcarry, dyadic_false, dyadic_false, zpow_add_one₀ two_ne_zero]
      push_cast
      ring
    · rw [if_pos hcarry, Int.add_right_comm]
  · exact ⟨s, q, hlow, by omega, le_rfl, by omega, rfl, fun k => by rw [if_neg hcarry]⟩

/-- A number of at most 53 bits is the value of the nearest double. -/
theorem dyadic_inUnits {n : Nat} (hn : n ≠ 0) (h : n < 0x20000000000000) :
    dyadic false (inUnits n (n.log2 - 52)) (n.log2 - 52) = n := by
  rw [dyadic_false]
  obtain ⟨k, -, hk⟩ | ⟨k, hlog, hk⟩ := unit_cases n
  · rw [hk, inUnits, zpow_negSucc]
    push_cast
    field_simp
  · have hlt : n.log2 < 53 := (Nat.log2_lt hn).mpr h
    obtain rfl : k = 0 := by omega
    rw [hk, inUnits, Nat.pow_zero, roundDiv_one]
    simp

/-- A significand with at least 53 bits is rounded to the double nearest to its value. -/
theorem carried_eq_nearest {m n : Nat} {e : Int} (hm : 52 ≤ m.log2) (h : dyadic false m e = n) :
    carried (roundDiv m (2 ^ (m.log2 - 52))) (e + (m.log2 - 52 : Nat)) = nearest n := by
  have hne : m ≠ 0 := by
    rintro rfl
    exact absurd hm (by decide)
  have hunits : roundDiv m (2 ^ (m.log2 - 52)) = inUnits m (m.log2 - 52) := by
    rw [show (m.log2 - 52 : Int) = .ofNat (m.log2 - 52) by rw [Int.ofNat_eq_natCast]; omega, inUnits]
  rw [hunits]
  rw [dyadic_false] at h
  cases e with
  | ofNat i =>
    have hn : n = m * 2 ^ i := by
      rw [Int.ofNat_eq_natCast, zpow_natCast] at h
      exact_mod_cast h.symm
    rw [hn, nearest_mul_two_pow hne, Int.ofNat_eq_natCast,
      show (i : Int) + (m.log2 - 52 : Nat) = m.log2 - 52 + i by omega]
  | negSucc i =>
    have hmn : m = n * 2 ^ (i + 1) := by
      rw [zpow_negSucc, mul_inv_eq_iff_eq_mul₀ (by positivity)] at h
      exact_mod_cast h
    have hn : n ≠ 0 := by
      rintro rfl
      exact hne (by rw [hmn, Nat.zero_mul])
    have hlog : m.log2 = n.log2 + (i + 1) := by rw [hmn, log2_mul_two_pow hn]
    have hunit : (m.log2 - 52 : Int) = n.log2 - 52 + (i + 1 : Nat) := by omega
    have hexponent : Int.negSucc i + (m.log2 - 52 : Nat) = n.log2 - 52 := by omega
    rw [hexponent, hunit, hmn, inUnits_mul_two_pow, nearest, if_neg hn]

theorem log2_eq {m : Nat} (hlow : 0x10000000000000 ≤ m) (hhigh : m < 0x20000000000000) :
    m.log2 = 52 :=
  (Nat.log2_eq_iff (by omega)).mpr ⟨hlow, hhigh⟩

/-- A natural number that is the value of a double is the nearest to itself. -/
theorem nearest_eq {m n : Nat} {e : Int} (hlow : 0x10000000000000 ≤ m)
    (hhigh : m < 0x20000000000000) (h : dyadic false m e = n) : nearest n = capped m e := by
  have hlog := log2_eq hlow hhigh
  rw [← carried_eq_nearest hlog.ge h, hlog, Nat.sub_self, Nat.pow_zero, roundDiv_one,
    Nat.cast_zero, Int.add_zero, carried, if_neg (by omega)]

/-- What is less than half a unit is lost. -/
theorem nearest_add {m d j : Nat} (hlow : 0x10000000000000 ≤ m) (hhigh : m < 0x20000000000000)
    (hd : 2 * d < 2 ^ j) : nearest (m * 2 ^ j + d) = capped m j := by
  have hlog : (m * 2 ^ j + d).log2 = 52 + j := by
    rw [log2_add_rest (by omega) (by omega), log2_eq hlow hhigh]
  have hpos : 0 < m * 2 ^ j := Nat.mul_pos (by omega) (Nat.two_pow_pos j)
  have hunit : ((52 + j : Nat) : Int) - 52 = .ofNat j := by rw [Int.ofNat_eq_natCast]; omega
  have hunits : roundDiv (m * 2 ^ j + d) (2 ^ j) = m := roundDiv_eq (by omega) (by omega)
  rw [nearest, if_neg (by omega), hlog, hunit, inUnits, hunits, carried, if_neg (by omega),
    Int.ofNat_eq_natCast]

end Exact

/-! ### The tables of bits -/

namespace Number

/-- The bits of a value or infinity are kept. -/
theorem toBits_ofBits {b : UInt64} (h : b.toNat % 0x8000000000000000 ≤ 0x7FF0000000000000) :
    (Float.ofBits b).toBits = b := by
  rw [← UInt64.toBitVec_inj]
  refine (@pack_unpack Format.binary64 b.toBitVec (by decide)).trans (if_neg ?_)
  rw [isNaNBits, decide_eq_true_eq]
  rintro ⟨hexponent, hmantissa⟩
  refine hmantissa ?_
  rw [← BitVec.toNat_inj] at hexponent ⊢
  rw [toNat_unpackExponent] at hexponent
  rw [toNat_unpackMantissa]
  change b.toNat / 0x10000000000000 % 0x800 = 2047 at hexponent
  change b.toNat % 0x10000000000000 = 0
  omega

theorem exact_bits {b : Nat} (h : b < 0x7FF0000000000000) (hnormal : 0x10000000000000 ≤ b) :
    Number.exact (Float.ofBits (UInt64.ofNat b)) =
      .finite false (0x10000000000000 + b % 0x10000000000000)
        ((b / 0x10000000000000 : Nat) - 1075) := by
  have hsize : b < UInt64.size := h.trans (by decide)
  have hnat : (UInt64.ofNat b).toNat = b := UInt64.toNat_ofNat_of_lt' hsize
  rw [exact, toBits_ofBits (by omega), hnat, if_neg (by omega), if_neg (by omega),
    decide_eq_false (by omega), Nat.mod_eq_of_lt (by omega : b / 0x10000000000000 < 0x800)]

theorem exact_infinity : (infinity false).exact = .infinite false := rfl

theorem exact_zero : (zero false).exact = .nearest 0 := rfl

/-- A significand above its exponent in the bits. -/
theorem exact_assembled {m : Nat} {e : Int} (hlow : 0x10000000000000 ≤ m)
    (hhigh : m ≤ 0x20000000000000) (he : -1074 ≤ e) :
    Number.exact (if 0x7FF0000000000000 ≤ (e + 1074).toNat * 0x10000000000000 + m then
        infinity false
      else Float.ofBits (UInt64.ofNat ((e + 1074).toNat * 0x10000000000000 + m))) =
      Exact.carried m e := by
  obtain ⟨k, rfl⟩ : ∃ k : Nat, e = k - 1074 := ⟨(e + 1074).toNat, by omega⟩
  rw [show ((k : Int) - 1074 + 1074).toNat = k by omega, Exact.carried, Exact.capped, Exact.capped]
  by_cases hcarry : m = 0x20000000000000
  · rw [if_pos hcarry]
    by_cases hcap : (k : Int) - 1074 + 1 ≤ 971
    · rw [if_neg (by omega), if_pos hcap, exact_bits (by omega) (by omega)]
      congr 1 <;> omega
    · rw [if_pos (by omega), if_neg hcap, exact_infinity]
  · rw [if_neg hcarry]
    by_cases hcap : (k : Int) - 1074 ≤ 971
    · rw [if_neg (by omega), if_pos hcap, exact_bits (by omega) (by omega)]
      congr 1 <;> omega
    · rw [if_pos (by omega), if_neg hcap, exact_infinity]

theorem ratioLog2_one {n : Nat} (hn : n ≠ 0) : ratioLog2 n 1 = n.log2 := by
  have hlog : (n.log2 : Int) - (1 : Nat).log2 = .ofNat n.log2 := by
    rw [show (1 : Nat).log2 = 0 from rfl]
    simp
  rw [ratioLog2, hlog]
  simp [Nat.log2_self_le hn]

/-- The rounding of a natural number is the nearest double. -/
theorem exact_ofInt (n : Nat) : (ofInt n).exact = .nearest n := by
  rw [ofInt, decide_eq_false (by omega), Int.natAbs_natCast, ofRatio, Exact.nearest]
  split
  · decide
  · next hn =>
    obtain ⟨hlow, hhigh⟩ := inUnits_bounds hn
    have hunit : max ((n.log2 : Int) - 52) (-1074) = n.log2 - 52 := by omega
    rw [ratioLog2_one hn, hunit, ← exact_assembled hlow hhigh (by omega)]
    obtain ⟨k, -, hk⟩ | ⟨k, -, hk⟩ := unit_cases n
    · simp only [hk, inUnits, roundDiv_one, Nat.pow_eq, Bool.false_eq_true, if_false, Nat.add_zero]
    · simp only [hk, inUnits, Nat.one_mul, Nat.pow_eq, Bool.false_eq_true, if_false, Nat.add_zero]

end Number

end Ecma
