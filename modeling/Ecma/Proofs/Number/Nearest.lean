import Ecma.Proofs.Number.Rounding

/-! What it means to be the Number nearest to a rational number. An infinity stands for the power of
two behind the largest finite Number, so that a value which is rounded past that one is nearest to an
infinity. -/

namespace Ecma

/-! ### Measures -/

/-- The power of two behind the largest finite value. -/
def Exact.limit : ℚ :=
  2 ^ 1024

/-- A value as a rational number. -/
def Exact.measure : Exact → ℚ
  | .nan => 0
  | .infinite negative => if negative then -limit else limit
  | .finite negative m e => dyadic negative m e

/-- A Number as a rational number. -/
def Number.measure (x : Number) : ℚ :=
  x.exact.measure

/-- A Number is nearest to a rational number: no other Number is nearer, and if another one is as
near, the last bit of the first is zero. -/
structure Number.IsNearest (x : Number) (q : ℚ) : Prop where
  isNaN : x.isNaN = false
  le : ∀ y : Number, y.isNaN = false → |x.measure - q| ≤ |y.measure - q|
  even : ∀ y : Number, y.isNaN = false → |y.measure - q| = |x.measure - q| →
    y.measure ≠ x.measure → x.toBits.toNat % 2 = 0

namespace Exact

theorem le_dyadic_false_of_lt {m : Nat} {e f : Int} (hm : 0x10000000000000 ≤ m) (h : f < e) :
    2 ^ 53 * 2 ^ f ≤ dyadic false m e := by
  refine le_trans ?_ (le_dyadic_false hm e)
  calc (2 ^ 53 * 2 ^ f : ℚ)
      = 2 ^ 52 * 2 ^ (f + 1) := by rw [zpow_add_one₀ two_ne_zero]; ring
    _ ≤ 2 ^ 52 * 2 ^ e := by gcongr <;> [norm_num; omega]

theorem dyadic_true_nonpos (m : Nat) (e : Int) : dyadic true m e ≤ 0 := by
  rw [dyadic_true, dyadic_false, neg_nonpos]
  positivity

theorem limit_nonneg : 0 ≤ limit :=
  pow_nonneg zero_le_two _

theorem limit_eq : limit = 2 ^ 53 * 2 ^ (971 : Int) := by
  rw [limit, show (971 : Int) = (971 : Nat) from rfl, zpow_natCast, ← pow_add]

theorem limit_eq_succ : limit = 2 ^ 52 * 2 ^ (972 : Int) := by
  rw [limit, show (972 : Int) = (972 : Nat) from rfl, zpow_natCast, ← pow_add]

end Exact

namespace Number

theorem measure_finite {x : Number} {negative : Bool} {m : Nat} {e : Int}
    (h : x.exact = .finite negative m e) : x.measure = Exact.dyadic negative m e := by
  rw [measure, h, Exact.measure]

theorem measure_infinite {x : Number} (h : x.exact = .infinite false) : x.measure = Exact.limit := by
  rw [measure, h, Exact.measure, if_neg Bool.false_ne_true]

/-- A Number without a place above zero, an infinity, or a finite positive one. -/
theorem measure_nonpos_or (x : Number) : x.measure ≤ 0 ∨ x.exact = .infinite false ∨
    ∃ m e, x.exact = .finite false m e ∧ Exact.Canonical m e := by
  cases hx : x.exact with
  | nan => exact .inl (by rw [measure, hx, Exact.measure])
  | infinite negative =>
    cases negative with
    | false => exact .inr (.inl rfl)
    | true => exact .inl (by rw [measure, hx, Exact.measure, if_pos rfl, neg_nonpos]; exact Exact.limit_nonneg)
  | finite negative m e =>
    cases negative with
    | false => exact .inr (.inr ⟨m, e, rfl, exact_canonical hx⟩)
    | true => exact .inl ((measure_finite hx).trans_le (Exact.dyadic_true_nonpos m e))

theorem measure_le (x : Number) : x.measure ≤ Exact.limit := by
  obtain hx | hx | ⟨m, e, hx, hcanonical⟩ := x.measure_nonpos_or
  · exact hx.trans Exact.limit_nonneg
  · exact (measure_infinite hx).le
  · have hlt := Exact.dyadic_false_lt hcanonical.lt (show e < 972 by have := hcanonical.high; omega)
    rw [measure_finite hx, Exact.limit_eq_succ]
    exact hlt.le

/-- Between `2 ^ 52` and `2 ^ 53` units there are only whole units. -/
theorem measure_cases (x : Number) (j : Nat) : x.measure ≤ 2 ^ 52 * 2 ^ j ∨
    2 ^ 53 * 2 ^ j ≤ x.measure ∨ ∃ t : Nat, x.measure = t * 2 ^ j := by
  simp only [← zpow_natCast (2 : ℚ) j]
  obtain hx | hx | ⟨m, e, hx, hcanonical⟩ := x.measure_nonpos_or
  · exact .inl (hx.trans (by positivity))
  · rw [measure_infinite hx]
    rcases Nat.lt_or_ge 971 j with hj | hj
    · refine .inl ?_
      rw [Exact.limit_eq_succ]
      gcongr <;> [norm_num; omega]
    · refine .inr (.inl ?_)
      rw [Exact.limit_eq]
      gcongr <;> [norm_num; omega]
  · have hlow := hcanonical.low
    rw [measure_finite hx]
    rcases lt_trichotomy e j with he | he | he
    · exact .inl (Exact.dyadic_false_lt hcanonical.lt he).le
    · exact .inr (.inr ⟨m, by rw [he, Exact.dyadic_false]⟩)
    · exact .inr (.inl (Exact.le_dyadic_false_of_lt (hcanonical.normal (by omega)) he))

theorem even_of_finite {x : Number} {negative : Bool} {m : Nat} {e : Int}
    (h : x.exact = .finite negative m e) : x.toBits.toNat % 2 = m % 2 := by
  rw [exact] at h
  split_ifs at h with h1 h2 h3
  · cases h
    omega
  · cases h
    omega

theorem even_of_infinite {x : Number} {negative : Bool} (h : x.exact = .infinite negative) :
    x.toBits.toNat % 2 = 0 := by
  rw [exact] at h
  split_ifs at h with h1 h2 h3
  omega

end Number

/-! ### The nearest Number -/

theorem unit_bounds {n j : Nat} (hn : n ≠ 0) (hj : n.log2 = j + 52) :
    (2 ^ 52 * 2 ^ j : ℚ) ≤ n ∧ (n : ℚ) < 2 ^ 53 * 2 ^ j := by
  have hlow := Nat.log2_self_le hn
  have hhigh : n < 2 ^ (n.log2 + 1) := Nat.lt_log2_self
  rw [hj, Nat.add_comm, Nat.pow_add] at hlow
  rw [hj, show j + 52 + 1 = 53 + j by omega, Nat.pow_add] at hhigh
  exact ⟨by exact_mod_cast hlow, by exact_mod_cast hhigh⟩

/-- What is within half a unit is nearer than what is a unit further on. -/
theorem abs_le_of_unit {p q n d : ℚ} (h : |p - n| ≤ d / 2) (hunit : d ≤ |q - p|) :
    |p - n| ≤ |q - n| ∧ (|q - n| = |p - n| → |p - n| = d / 2) := by
  have htriangle := abs_sub_le q n p
  rw [abs_sub_comm n p] at htriangle
  exact ⟨by linarith, fun heq => by linarith⟩

/-- No multiple of the divisor is nearer than the rounded quotient. -/
theorem roundDiv_nearest {n d : Nat} (hd : 0 < d) (t : Nat) :
    |(roundDiv n d * d - n : ℚ)| ≤ |(t * d - n : ℚ)| ∧
      (|(t * d - n : ℚ)| = |(roundDiv n d * d - n : ℚ)| → t ≠ roundDiv n d →
        roundDiv n d % 2 = 0) := by
  obtain ⟨hlow, hhigh, htie⟩ := roundDiv_spec n hd
  generalize roundDiv n d = s at hlow hhigh htie
  rcases eq_or_ne t s with rfl | hne
  · exact ⟨le_rfl, fun _ hne => absurd rfl hne⟩
  rw [← @Nat.cast_le ℚ] at hlow hhigh
  simp only [← @Nat.cast_inj ℚ (m := 2 * (s * d)), ← @Nat.cast_inj ℚ (m := 2 * n)] at htie
  push_cast at hlow hhigh htie
  have hhalf : |(s * d - n : ℚ)| ≤ d / 2 := abs_le.mpr ⟨by linarith, by linarith⟩
  have hunit : (d : ℚ) ≤ |(t * d - s * d : ℚ)| := by
    have hdiff : (1 : ℚ) ≤ |(t - s : ℚ)| := by
      have : (t : Int) - s ≠ 0 := by omega
      exact_mod_cast Int.one_le_abs this
    rw [← sub_mul, abs_mul, Nat.abs_cast]
    exact le_mul_of_one_le_left (Nat.cast_nonneg d) hdiff
  obtain ⟨hle, heq⟩ := abs_le_of_unit hhalf hunit
  refine ⟨hle, fun h _ => htie ?_⟩
  rcases abs_cases (s * d - n : ℚ) with ⟨habs, -⟩ | ⟨habs, -⟩
  · exact .inl (by linarith [heq h])
  · exact .inr (by linarith [heq h])

namespace Number

/-- From `2 ^ 52` on the nearest Number is a whole number of units, or infinite. -/
theorem measure_nearest {x : Number} {n j : Nat} (hx : x.exact = .nearest n)
    (hj : n.log2 = j + 52) :
    x.measure = min ((roundDiv n (2 ^ j) : ℚ) * 2 ^ j) Exact.limit ∧
      (roundDiv n (2 ^ j) % 2 = 0 → x.toBits.toNat % 2 = 0) := by
  have hn : n ≠ 0 := by
    rintro rfl
    exact absurd hj (by rw [Nat.log2_zero]; omega)
  obtain ⟨-, hhigh'⟩ := inUnits_bounds hn
  obtain ⟨m, e, hlow, hhigh, hle, hge, hvalue, hscaled⟩ := Exact.exists_normal hn
  have hunit : (n.log2 - 52 : Int) = .ofNat j := by rw [Int.ofNat_eq_natCast]; omega
  have hplain := hscaled 0
  rw [Nat.pow_zero, Nat.mul_one, ← hx, Nat.cast_zero, Int.add_zero, Exact.capped] at hplain
  rw [hunit, inUnits] at hhigh' hvalue
  rw [Exact.dyadic_false _ (.ofNat j), Int.ofNat_eq_natCast, zpow_natCast] at hvalue
  split at hplain
  · next hcap =>
    have hmeasure := (measure_finite hplain).trans hvalue
    have hle' := x.measure_le
    rw [hmeasure] at hle'
    refine ⟨by rw [min_eq_left hle', hmeasure], fun heven => ?_⟩
    have hpos : (0 : ℚ) < 2 ^ j := by positivity
    rw [even_of_finite hplain]
    rw [Exact.dyadic_false] at hvalue
    obtain rfl | rfl : e = j ∨ e = j + 1 := by omega
    · rw [zpow_natCast, mul_left_inj' hpos.ne'] at hvalue
      rw [Nat.cast_inj.mp hvalue, heven]
    · rw [zpow_add_one₀ two_ne_zero, zpow_natCast, mul_comm (2 ^ j : ℚ), ← mul_assoc,
        mul_left_inj' hpos.ne'] at hvalue
      have hdouble : m * 2 = roundDiv n (2 ^ j) := by exact_mod_cast hvalue
      omega
  · next hcap =>
    have hlarge := Exact.le_dyadic_false_of_lt hlow (show 971 < e by omega)
    rw [← Exact.limit_eq, hvalue] at hlarge
    exact ⟨by rw [measure_infinite hplain, min_eq_right hlarge], fun _ => even_of_infinite hplain⟩

/-- A natural number of at most 53 bits is a Number. -/
theorem measure_nearest_of_lt {x : Number} {n : Nat} (hx : x.exact = .nearest n)
    (h : n < 0x20000000000000) : x.measure = n := by
  by_cases hn : n = 0
  · rw [Exact.nearest, if_pos hn] at hx
    rw [measure_finite hx, Exact.dyadic_zero, hn, Nat.cast_zero]
  · obtain ⟨m, e, -, -, -, hge, hvalue, hscaled⟩ := Exact.exists_normal hn
    have hlog : n.log2 < 53 := (Nat.log2_lt hn).mpr h
    have hplain := hscaled 0
    rw [Nat.pow_zero, Nat.mul_one, ← hx, Nat.cast_zero, Int.add_zero, Exact.capped,
      if_pos (by omega)] at hplain
    rw [measure_finite hplain, hvalue, Exact.dyadic_inUnits hn h]

/-- For every Number there is a whole number of units that is at least as near. -/
theorem exists_multiple (y : Number) {q : ℚ} {j : Nat} (hlow : 2 ^ 52 * 2 ^ j ≤ q)
    (hhigh : q ≤ 2 ^ 53 * 2 ^ j) : ∃ t : Nat, |(t * 2 ^ j - q : ℚ)| ≤ |y.measure - q| ∧
      (|y.measure - q| = |(t * 2 ^ j - q : ℚ)| → y.measure = t * 2 ^ j) := by
  obtain hy | hy | ⟨t, hy⟩ := y.measure_cases j
  · refine ⟨2 ^ 52, ?_, fun heq => ?_⟩
    all_goals push_cast at *
    · rw [abs_of_nonpos (by linarith), abs_of_nonpos (by linarith)]
      linarith
    · rw [abs_of_nonpos (by linarith), abs_of_nonpos (by linarith)] at heq
      linarith
  · refine ⟨2 ^ 53, ?_, fun heq => ?_⟩
    all_goals push_cast at *
    · rw [abs_of_nonneg (by linarith), abs_of_nonneg (by linarith)]
      linarith
    · rw [abs_of_nonneg (by linarith), abs_of_nonneg (by linarith)] at heq
      linarith
  · exact ⟨t, by rw [hy], fun _ => hy⟩

/-- No Number is nearer to what is beyond the largest one. -/
theorem isNearest_of_limit {x : Number} {q : ℚ} (hnan : x.isNaN = false)
    (hx : x.measure = Exact.limit) (hq : Exact.limit ≤ q) : x.IsNearest q := by
  have hdistance (y : Number) : |y.measure - q| = q - y.measure := by
    rw [abs_of_nonpos (by linarith [y.measure_le]), neg_sub]
  refine ⟨hnan, fun y _ => ?_, fun y _ heq hne => ?_⟩
  · rw [hdistance, hdistance, hx]
    linarith [y.measure_le]
  · rw [hdistance, hdistance] at heq
    exact absurd (by linarith) hne

/-- The Number that is nearest by its significand is nearest. -/
theorem isNearest {x : Number} {n : Nat} (hx : x.exact = .nearest n) : x.IsNearest n := by
  have hnan : x.isNaN = false := by
    rw [← Bool.not_eq_true, isNaN_iff, hx, Exact.nearest, Exact.carried, Exact.capped, Exact.capped]
    split_ifs <;> simp
  rcases Nat.lt_or_ge n 0x20000000000000 with hsmall | hlarge
  · have hmeasure := measure_nearest_of_lt hx hsmall
    refine ⟨hnan, fun y _ => ?_, fun y _ heq hne => ?_⟩
    · rw [hmeasure, sub_self, abs_zero]
      exact abs_nonneg _
    · rw [hmeasure, sub_self, abs_zero, abs_eq_zero, sub_eq_zero] at heq
      exact absurd (heq.trans hmeasure.symm) hne
  · have hn : n ≠ 0 := by omega
    have hlog : 53 ≤ n.log2 := (Nat.le_log2 hn).mpr hlarge
    obtain ⟨j, hj⟩ : ∃ j, n.log2 = j + 52 := ⟨n.log2 - 52, by omega⟩
    obtain ⟨hmeasure, heven⟩ := measure_nearest hx hj
    obtain ⟨hlow, hhigh⟩ := unit_bounds hn hj
    have hmultiple := roundDiv_nearest (n := n) (Nat.two_pow_pos j)
    push_cast at hmultiple
    rcases le_or_gt ((roundDiv n (2 ^ j) : ℚ) * 2 ^ j) Exact.limit with hcap | hcap
    · rw [min_eq_left hcap] at hmeasure
      refine ⟨hnan, fun y _ => ?_, fun y _ heq hne => ?_⟩
      all_goals obtain ⟨t, hle, hself⟩ := y.exists_multiple hlow hhigh.le
      · rw [hmeasure]
        exact (hmultiple t).1.trans hle
      · rw [hmeasure] at heq hne
        have htie := le_antisymm (hle.trans heq.le) (hmultiple t).1
        rw [hself (heq.trans htie.symm)] at hne
        exact heven ((hmultiple t).2 htie fun h => hne (by rw [h]))
    · rw [min_eq_right hcap.le] at hmeasure
      have hceiling := (abs_le.mp ((hmultiple (2 ^ 53)).1.trans_eq
        (abs_of_nonneg (by push_cast; linarith)))).2
      have hexponent : (971 : Int) < j := by
        have hlt : Exact.limit < 2 ^ 53 * 2 ^ j := by
          push_cast at hceiling
          linarith
        rw [Exact.limit_eq, ← zpow_natCast (2 : ℚ) j] at hlt
        exact (zpow_lt_zpow_iff_right₀ one_lt_two).mp (lt_of_mul_lt_mul_left hlt (by positivity))
      have hinfinite : Exact.limit ≤ n := by
        refine le_trans ?_ hlow
        rw [Exact.limit_eq_succ, ← zpow_natCast (2 : ℚ) j]
        exact mul_le_mul_of_nonneg_left (zpow_le_zpow_right₀ one_le_two (by omega)) (by positivity)
      exact isNearest_of_limit hnan hmeasure hinfinite

end Number

end Ecma
