import Ecma.Proofs.Number.Machine
import Ecma.Proofs.Number.Nearest
import Ecma.Proofs.Value.Integer

/-! Numbers that are computed digit by digit. In a radix that is a power of two the products are
exact, and a sum is rounded when it passes 53 bits. From then on a digit is less than half a unit of
the value before it, so the digits that follow count as zeros. -/

namespace Ecma

/-! ### The digits that count -/

/-- The value of digits continued from `n`: a digit that follows `2 ^ 53` counts as zero. -/
def countedFrom (radix n : Nat) : List Char → Nat
  | [] => n
  | c :: rest =>
    countedFrom radix
      (n * radix + if n < 0x20000000000000 then (digitValue c).getD 0 else 0) rest

/-- The value of the digits that count. -/
def countedValue (radix : Nat) (digits : List Char) : Nat :=
  countedFrom radix 0 digits

namespace Number

/-- One turn of the loop. -/
theorem exact_turn {x : Number} {n d k : Nat} (hx : x.exact = .nearest n) (hk : k ≤ 4)
    (hd : d < 2 ^ k) :
    Number.exact (x * Float.ofNat (2 ^ k) + Float.ofNat d) =
      .nearest (n * 2 ^ k + if n < 0x20000000000000 then d else 0) := by
  have hd' : d < 17 := lt_of_lt_of_le hd ((Nat.pow_le_pow_right (by decide) hk).trans (by decide))
  have hproduct := exact_mul_two_pow hx hk
  generalize x * Float.ofNat (2 ^ k) = y at hproduct
  by_cases hn : n = 0
  · have hzero : ∀ d < 17, Number.exact (zero false + Float.ofNat d) = .nearest d := by
      decide
    subst hn
    rw [Nat.zero_mul, ← exact_zero] at hproduct
    rw [exact_inj hproduct, Nat.zero_mul, Nat.zero_add]
    exact hzero d hd'
  · obtain ⟨m, e, hlow, hhigh, hle, hge, hvalue, hscaled⟩ := Exact.exists_normal hn
    rw [hscaled, Exact.capped] at hproduct
    split
    · next hsmall =>
      have hlog : n.log2 < 53 := (Nat.log2_lt hn).mpr hsmall
      rw [if_pos (by omega)] at hproduct
      refine exact_add hproduct hlow ?_ hd'
      rw [Exact.dyadic_inUnits hn hsmall, Exact.dyadic_false] at hvalue
      rw [Exact.dyadic_false, zpow_add₀ two_ne_zero, ← mul_assoc, hvalue, zpow_natCast]
      push_cast
      rfl
    · next hlarge =>
      have hlog : 53 ≤ n.log2 := (Nat.le_log2 hn).mpr (by omega)
      rw [Nat.add_zero, hscaled, Exact.capped]
      split at hproduct
      · next hcap =>
        obtain ⟨j, hj⟩ : ∃ j : Nat, e + k = j := ⟨(e + k).toNat, by omega⟩
        have hhalf : 2 * d < 2 ^ j := by
          calc 2 * d < 2 ^ k * 2 := by omega
            _ = 2 ^ (k + 1) := (Nat.pow_succ ..).symm
            _ ≤ 2 ^ j := Nat.pow_le_pow_right (by decide) (by omega)
        rw [hj] at hproduct hcap ⊢
        have hvalue' : Exact.dyadic false m j = (m * 2 ^ j : Nat) := by
          rw [Exact.dyadic_false, zpow_natCast]
          push_cast
          rfl
        rw [exact_add hproduct hlow hvalue' hd', Exact.nearest_add hlow hhigh hhalf, Exact.capped]
      · next hcap =>
        have hsum : ∀ d < 17, Number.exact (infinity false + Float.ofNat d) = .infinite false := by
          decide
        rw [exact_inj (hproduct.trans exact_infinity.symm), hsum d hd', if_neg hcap]

/-- The loop over digits. -/
theorem exact_accumulate {x : Number} {n k : Nat} {digits : List Char} (hk : k ≤ 4)
    (hx : x.exact = .nearest n) (hdigits : ∀ d ∈ digits, isDigitIn (2 ^ k) d = true) :
    (accumulate (2 ^ k) x digits).exact = .nearest (countedFrom (2 ^ k) n digits) := by
  induction digits generalizing x n with
  | nil => exact hx
  | cons c digits ih =>
    obtain ⟨hc, hdigits⟩ := List.forall_mem_cons.1 hdigits
    obtain ⟨d, hd⟩ := Option.isSome_iff_exists.1 hc
    obtain ⟨hvalue, hlt⟩ := Option.filter_eq_some_iff.1 hd
    rw [accumulate, hd, countedFrom, hvalue]
    exact ih (exact_turn hx hk (by simpa using hlt)) hdigits

end Number

/-! ### What does not count -/

theorem placeValue_lt {radix : Nat} {digits : List Char} (hradix : 1 < radix)
    (h : ∀ d ∈ digits, isDigitIn radix d = true) : placeValue radix digits < radix ^ digits.length := by
  have hlt := Nat.ofDigits_lt_base_pow_length hradix
    (l := (digits.map fun d => (digitValue d).getD 0).reverse) fun x hx => by
      rw [List.mem_reverse, List.mem_map] at hx
      obtain ⟨d, hd, rfl⟩ := hx
      obtain ⟨n, hn⟩ := Option.isSome_iff_exists.1 (h d hd)
      obtain ⟨hvalue, hlt⟩ := Option.filter_eq_some_iff.1 hn
      rw [hvalue]
      simpa using hlt
  rwa [List.length_reverse, List.length_map] at hlt

theorem countedFrom_of_large {radix n : Nat} (hradix : 0 < radix) (hn : 0x20000000000000 ≤ n)
    (digits : List Char) : countedFrom radix n digits = n * radix ^ digits.length := by
  induction digits generalizing n with
  | nil => rw [countedFrom, List.length_nil, Nat.pow_zero, Nat.mul_one]
  | cons c digits ih =>
    rw [countedFrom, if_neg (by omega), Nat.add_zero, ih (hn.trans (Nat.le_mul_of_pos_right n hradix)),
      List.length_cons, Nat.pow_succ, Nat.mul_assoc, Nat.mul_comm radix]

/-- The digits that count, and the value of those that do not. -/
theorem exists_countedFrom {radix : Nat} {digits : List Char} (hradix : 1 < radix)
    (h : ∀ d ∈ digits, isDigitIn radix d = true) (n : Nat) : ∃ c j t,
      countedFrom radix n digits = c * radix ^ j ∧
        n * radix ^ digits.length + placeValue radix digits = c * radix ^ j + t ∧
        t < radix ^ j ∧ (0x20000000000000 ≤ c ∨ t = 0) := by
  induction digits generalizing n with
  | nil => exact ⟨n, 0, 0, by simp [countedFrom], by simp, by simp, .inr rfl⟩
  | cons c digits ih =>
    rcases Nat.lt_or_ge n 0x20000000000000 with hsmall | hlarge
    · obtain ⟨c', j, t, hcounted, hplace, ht⟩ :=
        ih (List.forall_mem_cons.1 h).2 (n * radix + (digitValue c).getD 0)
      refine ⟨c', j, t, by rw [countedFrom, if_pos hsmall, hcounted], ?_, ht⟩
      rw [← hplace, placeValue_cons, List.length_cons]
      ring
    · exact ⟨n, (c :: digits).length, placeValue radix (c :: digits),
        countedFrom_of_large (by omega) hlarge _, rfl, placeValue_lt hradix h, .inl hlarge⟩

/-- A rest that is less than any bit of a number changes how it is rounded just if the number is half
way between two units and rounded down. -/
theorem roundDiv_add {c t r u : Nat} (hu : r < u) (hpos : 0 < t) (ht : t < 2 ^ r) :
    (2 * (c * 2 ^ r) = 2 * (roundDiv (c * 2 ^ r) (2 ^ u) * 2 ^ u) + 2 ^ u ∧
        roundDiv (c * 2 ^ r + t) (2 ^ u) = roundDiv (c * 2 ^ r) (2 ^ u) + 1) ∨
      (2 * (c * 2 ^ r) < 2 * (roundDiv (c * 2 ^ r) (2 ^ u) * 2 ^ u) + 2 ^ u ∧
        roundDiv (c * 2 ^ r + t) (2 ^ u) = roundDiv (c * 2 ^ r) (2 ^ u)) := by
  obtain ⟨hlow, hhigh, -⟩ := roundDiv_spec (c * 2 ^ r) (Nat.two_pow_pos u)
  generalize roundDiv (c * 2 ^ r) (2 ^ u) = s at hlow hhigh
  obtain ⟨v, rfl⟩ := Nat.exists_eq_add_of_lt hu
  have hunit : 2 ^ (r + v + 1) = 2 * 2 ^ r * 2 ^ v := by ring
  have hpow : 2 ^ r ≤ 2 ^ (r + v + 1) := Nat.pow_le_pow_right (by decide) (by omega)
  rcases hhigh.eq_or_lt with heq | hlt
  · refine .inl ⟨heq, roundDiv_eq ?_ ?_⟩ <;> rw [Nat.add_mul] <;> omega
  · refine .inr ⟨hlt, roundDiv_eq (by omega) ?_⟩
    -- both sides are multiples of twice the unit of the number
    have hmultiple : 2 * (c * 2 ^ r) = 2 * 2 ^ r * c := by ring
    have hmultiple' : 2 * (s * 2 ^ (r + v + 1)) + 2 ^ (r + v + 1) =
        2 * 2 ^ r * ((2 * s + 1) * 2 ^ v) := by rw [hunit]; ring
    have hstep : 2 * 2 ^ r * (c + 1) ≤ 2 * 2 ^ r * ((2 * s + 1) * 2 ^ v) :=
      Nat.mul_le_mul_left _ (Nat.lt_of_mul_lt_mul_left (hmultiple ▸ hmultiple' ▸ hlt))
    rw [Nat.mul_add, Nat.mul_one] at hstep
    omega

namespace Number

/-- A Number that measures as much as an infinity is one. -/
theorem eq_infinity {x : Number} (hx : x.measure = Exact.limit) : x = infinity false := by
  have hlimit : 0 < Exact.limit := pow_pos zero_lt_two _
  obtain h | h | ⟨m, e, h, hcanonical⟩ := x.measure_nonpos_or
  · exact absurd h (by rw [hx, not_le]; exact hlimit)
  · exact exact_inj (h.trans exact_infinity.symm)
  · have hlt := Exact.dyadic_false_lt hcanonical.lt (show e < 972 by have := hcanonical.high; omega)
    rw [← measure_finite h, ← Exact.limit_eq_succ, hx] at hlt
    exact absurd hlt (lt_irrefl _)

/-- No Number is between two units that follow each other. -/
theorem measure_gap (z : Number) {s u : Nat} (hlow : 2 ^ 52 ≤ s) (hhigh : s < 2 ^ 53) :
    z.measure ≤ s * 2 ^ u ∨ (s + 1) * 2 ^ u ≤ z.measure := by
  have hs : (2 ^ 52 : ℚ) ≤ s := by exact_mod_cast hlow
  have hs' : (s + 1 : ℚ) ≤ 2 ^ 53 := by exact_mod_cast hhigh
  obtain hz | hz | ⟨t, hz⟩ := z.measure_cases u
  · exact .inl (hz.trans (by gcongr))
  · exact .inr (le_trans (by gcongr) hz)
  · rw [hz]
    rcases Nat.lt_or_ge s t with h | h
    · refine .inr ?_
      gcongr
      exact_mod_cast h
    · exact .inl (by gcongr)

/-- A number and the same with a rest that is less than any of its bits are rounded to different
Numbers just if the first is half way between two Numbers and rounded down. -/
theorem nearest_ne_iff {x y : Number} {c t r : Nat} (hx : x.exact = .nearest (c * 2 ^ r + t))
    (hy : y.exact = .nearest (c * 2 ^ r)) (ht : t < 2 ^ r) (hc : 0x20000000000000 ≤ c ∨ t = 0) :
    x ≠ y ↔ t ≠ 0 ∧ y.measure < (c * 2 ^ r : Nat) ∧
      ∃ z : Number, z.isNaN = false ∧ z.measure - (c * 2 ^ r : Nat) = (c * 2 ^ r : Nat) - y.measure := by
  by_cases hzero : t = 0
  · rw [hzero, Nat.add_zero, ← hy] at hx
    exact iff_of_false (fun hne => hne (exact_inj hx)) fun h => h.1 hzero
  have hlarge := hc.resolve_right hzero
  have hne : c ≠ 0 := by omega
  have hlog : 53 ≤ c.log2 := (Nat.le_log2 hne).mpr hlarge
  obtain ⟨u, hu⟩ : ∃ u, c.log2 + r = u + 52 := ⟨c.log2 + r - 52, by omega⟩
  have hn : c * 2 ^ r ≠ 0 := Nat.mul_ne_zero hne (Nat.two_pow_pos r).ne'
  have hlogn : (c * 2 ^ r).log2 = u + 52 := by rw [log2_mul_two_pow hne, hu]
  have hlogx : (c * 2 ^ r + t).log2 = u + 52 := by rw [log2_add_rest hne ht, hu]
  obtain ⟨hlow, hhigh⟩ := unit_bounds hn hlogn
  obtain ⟨hmx, -⟩ := measure_nearest hx hlogx
  obtain ⟨hmy, -⟩ := measure_nearest hy hlogn
  have hstep := roundDiv_add (c := c) (u := u) (by omega) (Nat.pos_of_ne_zero hzero) ht
  obtain ⟨-, hhalf, -⟩ := roundDiv_spec (c * 2 ^ r) (Nat.two_pow_pos u)
  generalize c * 2 ^ r = n at *
  generalize hs : roundDiv n (2 ^ u) = s at *
  have hpos : (0 : ℚ) < 2 ^ u := by positivity
  rw [← @Nat.cast_le ℚ] at hhalf
  rw [← @Nat.cast_inj ℚ, ← @Nat.cast_lt ℚ] at hstep
  push_cast at hstep hhalf
  rcases le_or_gt Exact.limit (s * 2 ^ u : ℚ) with hover | hunder
  · rw [min_eq_right hover] at hmy
    rw [min_eq_right (hover.trans ?_)] at hmx
    · rw [eq_infinity hmx, eq_infinity hmy]
      refine iff_of_false (fun h => h rfl) ?_
      rintro ⟨-, hlt, z, -, hz⟩
      rw [← eq_infinity hmy, hmy] at hlt hz
      linarith [z.measure_le]
    · obtain ⟨-, h⟩ | ⟨-, h⟩ := hstep
      · rw [h]
        push_cast
        linarith
      · rw [h]
  · rw [min_eq_left hunder.le] at hmy
    have hfirst : 2 ^ 52 ≤ s := by
      have hlt : (2 * 2 ^ 52 : ℚ) < 2 * (s + 1) := by nlinarith
      have hlt' : 2 ^ 52 < s + 1 := by
        rw [← @Nat.cast_lt ℚ]
        push_cast
        linarith
      omega
    have hlast (h : (s * 2 ^ u : ℚ) < n) : s < 2 ^ 53 := by
      have hlt : (s : ℚ) < 2 ^ 53 := lt_of_mul_lt_mul_right (h.trans hhigh) hpos.le
      exact_mod_cast hlt
    obtain ⟨htie, hsucc⟩ | ⟨hless, hself⟩ := hstep
    · have hbelow : (s * 2 ^ u : ℚ) < n := by linarith
      have hnext : ((s + 1) * 2 ^ u : ℚ) ≤ Exact.limit := by
        have hgap := (infinity false).measure_gap (u := u) hfirst (hlast hbelow)
        rw [measure_infinite exact_infinity] at hgap
        exact hgap.resolve_left (not_le.mpr hunder)
      rw [hsucc] at hmx
      push_cast at hmx
      rw [min_eq_left hnext] at hmx
      refine iff_of_true ?_ ⟨hzero, by rw [hmy]; exact hbelow, x, (isNearest hx).isNaN, ?_⟩
      · rintro rfl
        linarith
      · rw [hmx, hmy]
        linarith
    · have hunit : ((u + 52 : Nat) - 52 : Int) = .ofNat u := by rw [Int.ofNat_eq_natCast]; omega
      have hsame : x = y := by
        refine exact_inj (hx.trans (Eq.trans ?_ hy.symm))
        rw [Exact.nearest, Exact.nearest, if_neg (by omega), if_neg hn, hlogx, hlogn, hunit, inUnits,
          inUnits, hself, hs]
      refine iff_of_false (fun h => h hsame) ?_
      rintro ⟨-, hlt, z, -, hz⟩
      rw [hmy] at hlt hz
      have hgap := z.measure_gap (u := u) hfirst (hlast hlt)
      rcases hgap with hgap | hgap <;> linarith

end Number

/-! ### Texts with a radix mark -/

section

variable {mark : Char} {radix : Nat} {digits : List Char}

theorem exists_two_pow (hmark : (mark, radix) ∈ radixMarks) : ∃ k ≤ 4, 0 < k ∧ radix = 2 ^ k := by
  have hall : ∀ m ∈ radixMarks, ∃ k ≤ 4, 0 < k ∧ m.2 = 2 ^ k := by decide
  exact hall _ hmark

/-- The value of a literal is the integer that its digits write, rounded. -/
theorem NumericLiteral.value_radix (hmark : (mark, radix) ∈ radixMarks) (h : IsRun radix digits) :
    NumericLiteral.value (String.ofList ('0' :: mark :: digits)) =
      .number (Number.ofInt (placeValue radix digits)) := by
  have hmarks : ∀ m ∈ radixMarks, m.1 ≠ '_' ∧ m.2 ≠ 10 ∧ isDigitIn m.2 '_' = false ∧
      isDigitIn m.2 'n' = false := by decide
  obtain ⟨hmark', hten, hline, hbig⟩ := hmarks _ hmark
  have hlast : (('0' :: mark :: digits).getLast? == some 'n') = false := by
    obtain ⟨d, rest, rfl⟩ := List.exists_cons_of_ne_nil h.ne_nil
    rw [List.getLast?_cons_cons, List.getLast?_cons_cons, beq_eq_false_iff_ne]
    intro hn
    rw [h.all _ (List.mem_of_getLast? hn)] at hbig
    cases hbig
  have hfilter : ('0' :: mark :: digits).filter (· != '_') = '0' :: mark :: digits := by
    refine List.filter_eq_self.2 ?_
    simp only [List.forall_mem_cons, bne_iff_ne]
    refine ⟨by decide, hmark', fun d hd heq => ?_⟩
    rw [← heq, h.all d hd] at hline
    cases hline
  obtain ⟨hlow, hhigh⟩ := radixMark_range hmark
  have hread := read?_run hlow hhigh h.ne_nil h.all
  simp only [value, String.toList_ofList, hlast, Bool.false_eq_true, if_false, hfilter, radixAndDigits,
    splitRadix?_eq_some_iff.2 ⟨mark, hmark, rfl⟩, Option.getD_some, hread, hten, ne_eq,
    not_false_eq_true, if_true]

/-- A string is read digit by digit. -/
theorem Number.ofUnits_radix (hmark : (mark, radix) ∈ radixMarks) (h : IsRun radix digits) :
    Number.ofUnits (Units.ofChars ('0' :: mark :: digits)) =
      accumulate radix (zero false) digits := by
  have hplain := (WritesInt.marked hmark h).plain
  have htrim : trimBoth isBlank ('0' :: mark :: digits) = '0' :: mark :: digits := by
    have htrim := @trimBoth_eq isBlank [] ('0' :: mark :: digits) [] (by simp)
      (fun c hc => (hplain c hc).1) (by simp)
    rwa [List.nil_append, List.append_nil] at htrim
  obtain ⟨d, rest, rfl⟩ := List.exists_cons_of_ne_nil h.ne_nil
  rw [ofUnits, Units.chars_ofChars]
  simp only [htrim, splitRadix?_eq_some_iff.2 ⟨mark, hmark, rfl⟩, List.isEmpty_cons,
    Bool.false_eq_true, if_false]

/-- An integer with a radix mark as a literal and as a string. The literal is the Number nearest to
the integer that the digits write. The string is the Number nearest to the value of the digits that
count: when a prefix has reached `2 ^ 53`, the digits behind it count as zeros. The two differ just if
the digits that do not count are not all zeros and the value of those that do is half way between
two Numbers and rounded down. -/
theorem radix_texts (hmark : (mark, radix) ∈ radixMarks) (h : IsRun radix digits) :
    ∃ x y : Number,
      NumericLiteral.value (String.ofList ('0' :: mark :: digits)) = .number x ∧
      Number.ofUnits (Units.ofChars ('0' :: mark :: digits)) = y ∧
      x.IsNearest (placeValue radix digits) ∧ y.IsNearest (countedValue radix digits) ∧
      (x ≠ y ↔ countedValue radix digits < placeValue radix digits ∧
        y.measure < countedValue radix digits ∧
        ∃ z : Number, z.isNaN = false ∧
          z.measure - countedValue radix digits = countedValue radix digits - y.measure) := by
  obtain ⟨k, hk, hpos, rfl⟩ := exists_two_pow hmark
  have hx := Number.exact_ofInt (placeValue (2 ^ k) digits)
  have hy := Number.exact_accumulate hk Number.exact_zero h.all
  refine ⟨_, _, NumericLiteral.value_radix hmark h, Number.ofUnits_radix hmark h,
    Number.isNearest hx, Number.isNearest hy, ?_⟩
  obtain ⟨c, j, t, hcounted, hplace, ht, hc⟩ :=
    exists_countedFrom (Nat.one_lt_two_pow hpos.ne') h.all 0
  rw [Nat.zero_mul, Nat.zero_add] at hplace
  rw [← Nat.pow_mul] at hcounted hplace ht
  rw [Number.nearest_ne_iff (hx.trans (congrArg _ hplace)) (hy.trans (congrArg _ hcounted)) ht hc,
    hplace, countedValue, hcounted, Nat.lt_add_right_iff_pos, Nat.pos_iff_ne_zero]

/-- A literal of three bits. -/
theorem radix_texts_binary : ('b', 2) ∈ radixMarks ∧ IsRun 2 ['1', '0', '1'] ∧
    ∃ x y : Number, NumericLiteral.value "0b101" = .number x ∧
      Number.ofUnits (Units.ofString "0b101") = y ∧
      x.IsNearest (placeValue 2 ['1', '0', '1']) ∧ y.IsNearest (countedValue 2 ['1', '0', '1']) := by
  have htext : "0b101" = String.ofList ('0' :: 'b' :: ['1', '0', '1']) := by decide
  have hunits : Units.ofString "0b101" = Units.ofChars ('0' :: 'b' :: ['1', '0', '1']) := rfl
  have hmark : ('b', 2) ∈ radixMarks := by decide
  have hrun : IsRun 2 ['1', '0', '1'] := ⟨by decide, List.all_eq_true.mp (by decide)⟩
  obtain ⟨x, y, hx, hy, hplace, hcounted, -⟩ := radix_texts hmark hrun
  rw [htext, hunits]
  exact ⟨hmark, hrun, x, y, hx, hy, hplace, hcounted⟩

/-- A literal and a string that differ: the digits up to the last one are half way between two
Numbers. -/
theorem radix_texts_differ : ∃ x : Number,
    NumericLiteral.value "0x200000000000011" = .number x ∧
      Number.ofUnits (Units.ofString "0x200000000000011") ≠ x := by
  have htext : "0x200000000000011" =
      String.ofList ('0' :: 'x' :: "200000000000011".toList) := by decide
  have hplace : placeValue 16 "200000000000011".toList = 0x200000000000011 := by decide
  have hmark : ('x', 16) ∈ radixMarks := by decide
  have hrun : IsRun 16 "200000000000011".toList := ⟨by decide, List.all_eq_true.mp (by decide)⟩
  have hvalue := NumericLiteral.value_radix hmark hrun
  rw [← htext, hplace] at hvalue
  exact ⟨_, hvalue, by decide +kernel⟩

end

end Ecma
