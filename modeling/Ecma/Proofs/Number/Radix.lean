import Ecma.Number.Text
import Ecma.Proofs.Number.Whole
import Ecma.Proofs.Text.Digit

/-! Integers in a radix. An integer part below some limit may be written digit by digit in words of
64 bits, and a larger one from its decimal text; each way gives the numeral without leading zeros, so
that the limit cannot be seen in the text. -/

namespace Ecma

/-! ### Numerals -/

/-- The digits of a radix in ascending order; letters are lower case. -/
def digitsOf (radix : Nat) : List Char :=
  "0123456789abcdefghijklmnopqrstuvwxyz".toList.take radix

/-- A text is the numeral of a number: digits that write it, with a zero in front only if that is all
of it. -/
structure IsNumeral (radix n : Nat) (text : List Char) : Prop where
  ne_nil : text ≠ []
  digit : ∀ c ∈ text, c ∈ digitsOf radix
  zero : text.head? = some '0' → text = ['0']
  value : placeValue radix text = n

section

variable {radix : Nat} {text : List Char}

theorem mem_digitsOf (hradix : radix ≤ 36) {c : Char} :
    c ∈ digitsOf radix ↔ ∃ d < radix, c = digitChar d := by
  have hall : "0123456789abcdefghijklmnopqrstuvwxyz".toList = (List.range 36).map digitChar := by
    decide
  rw [digitsOf, hall, ← List.map_take, List.take_range, min_eq_left hradix, List.mem_map]
  constructor
  · rintro ⟨d, hd, rfl⟩
    exact ⟨d, List.mem_range.mp hd, rfl⟩
  · rintro ⟨d, hd, rfl⟩
    exact ⟨d, List.mem_range.mpr hd, rfl⟩

theorem digitValue_digitChar {d : Nat} (h : d < 36) : digitValue (digitChar d) = some d := by
  revert d
  decide

theorem digitChar_eq_zero_iff {d : Nat} (h : d < 36) : digitChar d = '0' ↔ d = 0 := by
  revert d
  decide

/-- Digits of a radix are those of a list of digit values. -/
theorem exists_map_digitChar (hradix : radix ≤ 36) (h : ∀ c ∈ text, c ∈ digitsOf radix) :
    ∃ ds : List Nat, text = ds.map digitChar ∧ ∀ d ∈ ds, d < radix := by
  induction text with
  | nil => exact ⟨[], rfl, by simp⟩
  | cons c text ih =>
    rw [List.forall_mem_cons] at h
    obtain ⟨d, hd, rfl⟩ := (mem_digitsOf hradix).mp h.1
    obtain ⟨ds, rfl, hds⟩ := ih h.2
    exact ⟨d :: ds, rfl, List.forall_mem_cons.mpr ⟨hd, hds⟩⟩

theorem placeValue_map_digitChar {ds : List Nat} (h : ∀ d ∈ ds, d < 36) :
    placeValue radix (ds.map digitChar) = Nat.ofDigits radix ds.reverse := by
  have hvalues : (ds.map digitChar).map (fun c => (digitValue c).getD 0) = ds := by
    rw [List.map_map]
    refine (List.map_congr_left fun d hd => ?_).trans ds.map_id
    simp [digitValue_digitChar (h d hd)]
  rw [placeValue, hvalues]

/-- The numeral of a positive number is made of its digits. -/
theorem numeralBefore_eq (hradix : 2 ≤ radix) {n : Nat} (hn : 0 < n) (tail : List Char) :
    numeralBefore radix n tail = (Nat.digits radix n).reverse.map digitChar ++ tail := by
  induction n using Nat.strongRecOn generalizing tail with
  | _ n ih =>
    rw [numeralBefore, Nat.digits_def' (by omega) hn]
    by_cases h : radix ≤ n
    · rw [dif_pos ⟨hradix, h⟩, ih _ (Nat.div_lt_self hn (by omega)) (Nat.div_pos h (by omega))]
      simp
    · rw [dif_neg (by omega), Nat.div_eq_of_lt (by omega), Nat.mod_eq_of_lt (by omega)]
      simp

theorem numeralBefore_zero (radix : Nat) : numeralBefore radix 0 [] = ['0'] := by
  rw [numeralBefore, dif_neg (by omega)]
  rfl

/-- A number has one numeral. -/
theorem IsNumeral.eq {n : Nat} (h : IsNumeral radix n text) (hlow : 2 ≤ radix)
    (hhigh : radix ≤ 36) : text = numeralBefore radix n [] := by
  obtain ⟨ds, rfl, hds⟩ := exists_map_digitChar hhigh h.digit
  have hsmall : ∀ d ∈ ds, d < 36 := fun d hd => (hds d hd).trans_le hhigh
  have hvalue := h.value
  rw [placeValue_map_digitChar hsmall] at hvalue
  cases ds with
  | nil => exact absurd rfl h.ne_nil
  | cons d rest =>
    by_cases hd : d = 0
    · have hzero := h.zero (by rw [hd]; rfl)
      obtain rfl : rest = [] := (List.map_eq_nil_iff).mp (List.cons.inj hzero).2
      subst hd
      obtain rfl : n = 0 := by rw [← hvalue]; simp
      rw [numeralBefore_zero]
      rfl
    · have hdigits : Nat.digits radix n = (d :: rest).reverse := by
        rw [← hvalue]
        refine Nat.digits_ofDigits radix (by omega) _ (fun e he => hds e (List.mem_reverse.mp he)) ?_
        intro _
        simpa using hd
      have hn : 0 < n := by
        rw [Nat.pos_iff_ne_zero]
        rintro rfl
        simp at hdigits
      rw [numeralBefore_eq hlow hn, hdigits, List.reverse_reverse, List.append_nil]

theorem isNumeral_numeralBefore (hlow : 2 ≤ radix) (hhigh : radix ≤ 36) (n : Nat) :
    IsNumeral radix n (numeralBefore radix n []) := by
  rcases Nat.eq_zero_or_pos n with rfl | hn
  · rw [numeralBefore_zero]
    refine ⟨by simp, ?_, fun _ => rfl, ?_⟩
    · intro c hc
      rw [List.mem_singleton.mp hc]
      exact (mem_digitsOf hhigh).mpr ⟨0, by omega, rfl⟩
    · rfl
  · have hlt : ∀ d ∈ (Nat.digits radix n).reverse, d < radix := fun d hd =>
      Nat.digits_lt_base (by omega) (List.mem_reverse.mp hd)
    have hne : (Nat.digits radix n).reverse ≠ [] := by
      simpa [Nat.digits_eq_nil_iff_eq_zero] using hn.ne'
    rw [numeralBefore_eq hlow hn, List.append_nil]
    refine ⟨by simpa using hne, ?_, ?_, ?_⟩
    · intro c hc
      obtain ⟨d, hd, rfl⟩ := List.mem_map.mp hc
      exact (mem_digitsOf hhigh).mpr ⟨d, hlt d hd, rfl⟩
    · intro hzero
      have hlast := Nat.getLast_digit_ne_zero radix hn.ne'
      rw [List.head?_map, List.head?_reverse, List.getLast?_eq_getLast_of_ne_nil (by simpa using hne),
        Option.map_some, Option.some.injEq, digitChar_eq_zero_iff] at hzero
      · exact absurd hzero hlast
      · exact (Nat.digits_lt_base (by omega) (List.getLast_mem _)).trans_le hhigh
    · rw [placeValue_map_digitChar fun d hd => (hlt d hd).trans_le hhigh, List.reverse_reverse,
        Nat.ofDigits_digits]

end

/-! ### Words -/

theorem toInt_div_of_pos {n : Int64} (hn : 0 < n) (d : Int64) :
    (n / d).toInt = n.toInt / d.toInt := by
  have hpos : 0 < n.toInt := Int64.lt_iff_toInt_lt.mp hn
  have hne : n ≠ Int64.minValue := by
    rintro rfl
    exact absurd hpos (by decide)
  rw [Int64.toInt_div_of_ne_left _ _ hne, Int.tdiv_eq_ediv_of_nonneg hpos.le]

/-- The digits of a positive word, last one first: each turn takes one off. -/
def wordDigits (radix n : Int64) : List Char :=
  if _h : 2 ≤ radix ∧ 0 < n then
    let d := (n % radix).toInt.toNat
    (if d < radix.toInt.toNat then digitChar d else '?') :: wordDigits radix (n / radix)
  else []
termination_by n.toInt.toNat
decreasing_by
  have hradix : (2 : ℤ) ≤ radix.toInt := Int64.le_iff_toInt_le.mp _h.1
  have hpos : 0 < n.toInt := Int64.lt_iff_toInt_lt.mp _h.2
  rw [toInt_div_of_pos _h.2]
  have hlt : n.toInt / radix.toInt < n.toInt := Int.ediv_lt_self_of_pos_of_ne_one hpos (by omega)
  omega

/-- The text of a word in a radix from 2 to 36, and in decimal if the radix is none of these. -/
def wordNumeral (radix : Nat) (n : Int64) : String :=
  if ¬(2 ≤ radix ∧ radix ≤ 36) then toString n.toInt
  else if n = 0 then "0"
  else
    let digits := wordDigits (Int64.ofNat radix) (if n < 0 then -n else n)
    String.ofList (if n < 0 then digits ++ ['-'] else digits).reverse

/-- The text of a Number without a fraction in a radix, by way of its decimal text. -/
def decimalNumeral [IntegerFormat] (radix : Nat) (x : Number) : String :=
  match x.exact.toInt?.bind fun i => IntegerFormat.read? 10 (intNumeral 10 i).toList with
  | some i => IntegerFormat.write radix i
  | none => "NaN"

namespace Number

/-- The text of a Number in a radix, where the integer parts below a limit are written in words. -/
def splitRadixText [IntegerFormat] (limit : Number) (radix : Nat) (x : Number) : String :=
  match x.exact with
  | .nan => "NaN"
  | .infinite negative => if negative then "-Infinity" else "Infinity"
  | .finite negative significand exponent =>
    let part := ofInt (Exact.floorOf significand exponent)
    let whole :=
      if part < limit then wordNumeral radix (Int64.ofInt (part.exact.trunc?.getD 0))
      else decimalNumeral radix part
    let fraction := x.abs - part
    let digits :=
      if fraction > 0.0 then '.' :: fractionDigits radix fraction 52 else []
    (if negative && significand ≠ 0 then "-" else "") ++ whole ++ String.ofList digits

end Number

section

variable {radix : Nat} {n : Nat}

theorem ofNat_div (hn : 0 < Int64.ofNat n) (hsize : n < 2 ^ 63) (hradix : radix < 2 ^ 63) :
    Int64.ofNat n / Int64.ofNat radix = Int64.ofNat (n / radix) := by
  have hdiv : n / radix < 2 ^ 63 := (Nat.div_le_self n radix).trans_lt hsize
  rw [← Int64.toInt_inj, toInt_div_of_pos hn, Int64.toInt_ofNat_of_lt hsize,
    Int64.toInt_ofNat_of_lt hradix, Int64.toInt_ofNat_of_lt hdiv, Int.natCast_div]

/-- The loop takes off the digits of the number. -/
theorem wordDigits_ofNat (hlow : 2 ≤ radix) (hhigh : radix ≤ 36) (hn : n < 2 ^ 63) :
    wordDigits (Int64.ofNat radix) (Int64.ofNat n) = (Nat.digits radix n).map digitChar := by
  induction n using Nat.strongRecOn with
  | _ n ih =>
    have hradix : (Int64.ofNat radix).toInt = radix := Int64.toInt_ofNat_of_lt (by omega)
    have hword : (Int64.ofNat n).toInt = n := Int64.toInt_ofNat_of_lt hn
    have htwo : 2 ≤ Int64.ofNat radix := by
      rw [Int64.le_iff_toInt_le, hradix]
      exact Int.ofNat_le.mpr hlow
    have hword_pos : 0 < Int64.ofNat n ↔ 0 < n := by
      rw [Int64.lt_iff_toInt_lt, hword]
      exact Int.natCast_pos
    rw [wordDigits]
    by_cases hpos : 0 < n
    · have hmod : (Int64.ofNat n % Int64.ofNat radix).toInt.toNat = n % radix := by
        rw [Int64.toInt_mod, hradix, hword, ← Int.ofNat_tmod, Int.toNat_natCast]
      have hlt : n % radix < radix := Nat.mod_lt n (by omega)
      rw [dif_pos ⟨htwo, hword_pos.mpr hpos⟩]
      dsimp only
      rw [hmod, hradix, Int.toNat_natCast, if_pos hlt,
        ofNat_div (hword_pos.mpr hpos) hn (by omega), ih _ (Nat.div_lt_self hpos hlow)
          ((Nat.div_le_self n radix).trans_lt hn), Nat.digits_def' (by omega) hpos, List.map_cons]
    · rw [dif_neg fun h => hpos (hword_pos.mp h.2)]
      obtain rfl : n = 0 := by omega
      rw [Nat.digits_zero, List.map_nil]

/-- A word that is not negative has the numeral of its number. -/
theorem wordNumeral_ofNat (hlow : 2 ≤ radix) (hhigh : radix ≤ 36) (hn : n < 2 ^ 63) :
    wordNumeral radix (Int64.ofNat n) = numeral radix n := by
  have hword : (Int64.ofNat n).toInt = n := Int64.toInt_ofNat_of_lt hn
  have hsign : ¬Int64.ofNat n < 0 := by
    rw [Int64.lt_iff_toInt_lt, hword]
    exact Int.not_lt.mpr (Int.natCast_nonneg n)
  rw [wordNumeral, if_neg (not_not.mpr ⟨hlow, hhigh⟩), numeral]
  rcases Nat.eq_zero_or_pos n with rfl | hpos
  · have hzero : Int64.ofNat 0 = 0 := rfl
    rw [if_pos hzero, numeralBefore_zero]
  · have hzero : Int64.ofNat n ≠ 0 := by
      rw [ne_eq, ← Int64.toInt_inj, hword]
      exact Int.natCast_ne_zero.mpr hpos.ne'
    rw [if_neg hzero, if_neg hsign]
    dsimp only
    rw [if_neg hsign, wordDigits_ofNat hlow hhigh hn, numeralBefore_eq hlow hpos, List.map_reverse,
      List.append_nil]

/-- A negative word has a minus sign in front of the numeral of its magnitude. -/
theorem wordNumeral_neg (hlow : 2 ≤ radix) (hhigh : radix ≤ 36) (hpos : 0 < n) (hn : n < 2 ^ 63) :
    wordNumeral radix (-Int64.ofNat n) = "-" ++ numeral radix n := by
  have hword : (-Int64.ofNat n).toInt = -n := by
    rw [Int64.toInt_neg, Int64.toInt_ofNat_of_lt hn, Int.bmod_eq_of_le] <;> omega
  have hsign : -Int64.ofNat n < 0 := by
    rw [Int64.lt_iff_toInt_lt, hword]
    exact Int.neg_neg_of_pos (Int.natCast_pos.mpr hpos)
  have hzero : -Int64.ofNat n ≠ 0 := by
    rw [ne_eq, ← Int64.toInt_inj, hword]
    exact Int.neg_ne_zero.mpr (Int.natCast_ne_zero.mpr hpos.ne')
  rw [wordNumeral, if_neg (not_not.mpr ⟨hlow, hhigh⟩), if_neg hzero, if_pos hsign]
  dsimp only
  rw [if_pos hsign, Int64.neg_neg, wordDigits_ofNat hlow hhigh hn, numeral,
    numeralBefore_eq hlow hpos, List.map_reverse, List.append_nil, List.reverse_append,
    List.reverse_singleton, String.ofList_append]

/-! ### Large integers -/

/-- A numeral is read back. -/
theorem runValue?_numeralBefore (hlow : 2 ≤ radix) (hhigh : radix ≤ 36) (n : Nat) :
    runValue? radix (numeralBefore radix n []) = some n := by
  rw [runValue?_eq (isNumeral_numeralBefore hlow hhigh n).ne_nil,
    readDigitsFrom_numeralBefore hlow hhigh, readDigitsFrom]

theorem intNumeral_natCast (radix n : Nat) : intNumeral radix n = numeral radix n := by
  rw [intNumeral, if_neg (Int.not_lt.mpr (Int.natCast_nonneg n)), Int.natAbs_natCast]

/-- The decimal text of a natural number is read back as an integer. -/
theorem read?_intNumeral [IntegerFormat] (n : Nat) :
    IntegerFormat.read? 10 (intNumeral 10 n).toList = some (n : ℤ) := by
  rw [intNumeral_natCast, numeral, String.toList_ofList]
  refine IntegerFormat.read?_digits (by decide) (by decide)
    (isNumeral_numeralBefore (by decide) (by decide) n).ne_nil ?_
  rw [readDigitsFrom_numeralBefore (by decide) (by decide), readDigitsFrom]

theorem Exact.toInt?_finite {negative : Bool} {m : Nat} {e : Int} {i : ℤ}
    (h : dyadic negative m e = i) : (Exact.finite negative m e).toInt? = some i := by
  have hwhole : isWhole m e = true := by
    rw [isWhole_iff negative, h, Int.floor_intCast]
  have htrunc := trunc?_finite negative m e
  rw [h, integerPart_intCast, trunc?] at htrunc
  rw [toInt?, if_pos hwhole]
  exact htrunc

/-- The decimal text of a Number without a fraction leads to the numeral of its value. -/
theorem decimalNumeral_eq [IntegerFormat] (hlow : 2 ≤ radix) (hhigh : radix ≤ 36) {x : Number}
    {negative : Bool} {m : Nat} {e : Int} (hx : x.exact = .finite negative m e)
    (hvalue : Exact.dyadic negative m e = n) :
    decimalNumeral radix x = numeral radix n := by
  have htoInt : x.exact.toInt? = some (n : ℤ) := by
    rw [hx]
    exact Exact.toInt?_finite (by exact_mod_cast hvalue)
  rw [decimalNumeral, htoInt, Option.bind_some, read?_intNumeral]
  exact (IntegerFormat.write_eq hlow hhigh n).trans (intNumeral_natCast radix n)

end

/-! ### The limit -/

namespace Number

/-- A limit up to `2 ^ 63` lets only words through. -/
theorem lt_two_pow_of_lt {x limit : Number} {negative : Bool} {m n : Nat} {e : Int}
    (hx : x.exact = .finite negative m e) (hvalue : Exact.dyadic negative m e = n)
    (hlimit : limit.measure ≤ 2 ^ 63) (h : x < limit) : n < 2 ^ 63 := by
  have hlt := measure_lt_of_lt hx h
  rw [measure_finite hx, hvalue] at hlt
  exact_mod_cast hlt.trans_le hlimit

/-- The text of a Number in a radix does not tell where the limit is. -/
theorem splitRadixText_eq [IntegerFormat] {limit : Number} {radix : Nat} (hlimit : limit.measure ≤ 2 ^ 63)
    (hlow : 2 ≤ radix) (hhigh : radix ≤ 36) (x : Number) :
    splitRadixText limit radix x = radixText radix x := by
  unfold splitRadixText radixText
  cases hx : x.exact with
  | nan => rfl
  | infinite negative => rfl
  | finite negative m e =>
    dsimp only
    obtain ⟨negative', m', e', hexact, hpart⟩ :=
      exists_finite_ofInt_floorOf (exact_canonical hx)
    generalize Exact.floorOf m e = n at hpart hexact
    by_cases hword : ofInt n < limit
    · have hsize := lt_two_pow_of_lt hexact hpart hlimit hword
      have htrunc : (ofInt n).exact.trunc? = some (n : ℤ) := by
        rw [hexact, Exact.trunc?_finite, hpart]
        exact congrArg some (integerPart_intCast n)
      rw [if_pos hword, htrunc, Option.getD_some, Int64.ofInt_eq_ofNat,
        wordNumeral_ofNat hlow hhigh hsize]
    · rw [if_neg hword, decimalNumeral_eq hlow hhigh hexact hpart]

end Number

/-- An integer below `2 ^ 63` has one numeral in each radix from 2 to 36, and it is what the digits of
a word give, is read back as the integer, and is the same by way of the decimal text of the Number
with that value; a negative word has a minus sign in front. So the limit below which an integer part
is written in words, such as `9.0e15`, cannot be seen in the text of a Number. -/
theorem radix_numerals [IntegerFormat] :
    (∀ radix n : Nat, 2 ≤ radix → radix ≤ 36 → n < 2 ^ 63 →
      (∀ text : List Char,
        text = (wordNumeral radix (Int64.ofNat n)).toList ↔ IsNumeral radix n text) ∧
      runValue? radix (wordNumeral radix (Int64.ofNat n)).toList = some n ∧
      (∀ x : Number, x.isNaN = false → x.measure = n →
        decimalNumeral radix x = wordNumeral radix (Int64.ofNat n)) ∧
      (0 < n → wordNumeral radix (-Int64.ofNat n) =
        "-" ++ wordNumeral radix (Int64.ofNat n))) ∧
    ∀ (limit : Number) (radix : Nat) (x : Number), limit.measure ≤ 2 ^ 63 → 2 ≤ radix →
      radix ≤ 36 → Number.splitRadixText limit radix x = Number.radixText radix x := by
  refine ⟨fun radix n hlow hhigh hn => ?_, fun limit radix x hlimit hlow hhigh =>
    Number.splitRadixText_eq hlimit hlow hhigh x⟩
  have hword := wordNumeral_ofNat hlow hhigh hn
  have htext : (numeral radix n).toList = numeralBefore radix n [] := String.toList_ofList
  rw [hword, htext]
  refine ⟨fun text => ⟨?_, ?_⟩, runValue?_numeralBefore hlow hhigh n, ?_, ?_⟩
  · rintro rfl
    exact isNumeral_numeralBefore hlow hhigh n
  · intro h
    exact h.eq hlow hhigh
  · intro x hnan hvalue
    have hsmall : (n : ℚ) < 2 ^ 63 := by exact_mod_cast hn
    have hlimit : |x.measure| < Exact.limit := by
      rw [hvalue, Nat.abs_cast]
      exact hsmall.trans_le (Exact.two_pow_le_limit (by decide))
    obtain ⟨negative, m, e, hx⟩ := Number.exists_finite hnan hlimit
    exact decimalNumeral_eq hlow hhigh hx ((Number.measure_finite hx).symm.trans hvalue)
  · intro hpos
    exact wordNumeral_neg hlow hhigh hpos hn

/-- The limit itself, which is the first integer part that is written from its decimal text. -/
theorem radix_numerals_limit :
    (9.0e15 : Number).isNaN = false ∧ Number.measure 9.0e15 = (9000000000000000 : Nat) ∧
      (wordNumeral 36 (Int64.ofNat 9000000000000000)).toList = "2gm8ex6vwg0".toList ∧
      decimalNumeral 36 9.0e15 = wordNumeral 36 (Int64.ofNat 9000000000000000) ∧
      wordNumeral 36 (-Int64.ofNat 9000000000000000) =
        "-" ++ wordNumeral 36 (Int64.ofNat 9000000000000000) ∧
      Number.splitRadixText 9.0e15 36 9.0e15 = Number.radixText 36 9.0e15 := by
  have hexact : Number.exact 9.0e15 = .finite false 9000000000000000 0 := by decide
  have hnan : (9.0e15 : Number).isNaN = false := by
    rw [← Bool.not_eq_true, Number.isNaN_iff, hexact]
    exact Exact.noConfusion
  have hvalue : Number.measure 9.0e15 = (9000000000000000 : Nat) := by
    rw [Number.measure_finite hexact, Exact.dyadic_false]
    norm_num
  have hlimit : Number.measure 9.0e15 ≤ 2 ^ 63 := by
    rw [hvalue]
    norm_num
  obtain ⟨htext, -, hlarge, hsigned⟩ :=
    radix_numerals.1 36 9000000000000000 (by decide) (by decide) (by decide)
  have hnumeral : IsNumeral 36 9000000000000000 "2gm8ex6vwg0".toList :=
    ⟨by decide, by simp [digitsOf], by decide, by decide⟩
  exact ⟨hnan, hvalue, ((htext _).mpr hnumeral).symm, hlarge 9.0e15 hnan hvalue,
    hsigned (by decide), radix_numerals.2 9.0e15 36 9.0e15 hlimit (by decide) (by decide)⟩

end Ecma
