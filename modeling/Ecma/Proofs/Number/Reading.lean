import Ecma.Proofs.Number.Accumulation

/-! The strings that write a Number: a text of a grammar, with white space and line terminators around
it. All other strings are read as NaN. -/

namespace Ecma

/-! ### The grammar -/

/-- The signs that may stand before digits. -/
def signs : List (List Char) :=
  [[], ['+'], ['-']]

/-- The digits of a decimal numeral, and its point: at least one digit. -/
inductive WritesMantissa : List Char → Prop
  | whole {whole : List Char} (h : IsRun 10 whole) : WritesMantissa whole
  | pointed {whole fraction : List Char} (hwhole : ∀ d ∈ whole, isDigitIn 10 d = true)
    (hfraction : ∀ d ∈ fraction, isDigitIn 10 d = true) (h : whole ≠ [] ∨ fraction ≠ []) :
    WritesMantissa (whole ++ '.' :: fraction)

/-- The power of ten behind the digits: nothing, or a mark, a sign and at least one digit. -/
inductive WritesExponent : List Char → Prop
  | absent : WritesExponent []
  | raised {mark : Char} {sign digits : List Char} (hmark : mark = 'e' ∨ mark = 'E')
    (hsign : sign ∈ signs) (h : IsRun 10 digits) : WritesExponent (mark :: (sign ++ digits))

/-- A Number that may have a sign in front of it. -/
inductive WritesUnsigned : List Char → Prop
  | infinity : WritesUnsigned "Infinity".toList
  | decimal {mantissa exponent : List Char} (hmantissa : WritesMantissa mantissa)
    (hexponent : WritesExponent exponent) : WritesUnsigned (mantissa ++ exponent)

/-- A text writes a Number: the empty one, digits in a radix behind its mark, or a decimal or the word
for infinity with an optional sign. -/
inductive WritesNumber : List Char → Prop
  | empty : WritesNumber []
  | marked {mark : Char} {radix : Nat} {digits : List Char} (hmark : (mark, radix) ∈ radixMarks)
    (h : IsRun radix digits) : WritesNumber ('0' :: mark :: digits)
  | signed {sign text : List Char} (hsign : sign ∈ signs) (h : WritesUnsigned text) :
    WritesNumber (sign ++ text)

/-! ### Signs -/

theorem exists_sign (text : List Char) : ∃ sign ∈ signs, text = sign ++ (splitSign text).2 := by
  unfold splitSign
  split
  · exact ⟨['-'], by decide, rfl⟩
  · exact ⟨['+'], by decide, rfl⟩
  · exact ⟨[], by decide, rfl⟩

theorem splitSign_append {sign text : List Char} (hsign : sign ∈ signs)
    (h : ∀ c ∈ text.head?, c ≠ '-' ∧ c ≠ '+') : (splitSign (sign ++ text)).2 = text := by
  simp only [signs, List.mem_cons, List.not_mem_nil, or_false] at hsign
  rcases hsign with rfl | rfl | rfl
  · rw [List.nil_append, splitSign_eq h]
  · rfl
  · rfl

theorem head_of_digits {radix : Nat} {digits : List Char}
    (h : ∀ d ∈ digits, isDigitIn radix d = true) : ∀ c ∈ digits.head?, c ≠ '-' ∧ c ≠ '+' := by
  intro c hc
  have hdigit := h c (List.mem_of_mem_head? hc)
  constructor
  · rintro rfl
    cases hdigit
  · rintro rfl
    cases hdigit

/-! ### Decimals -/

namespace DecimalNumeral

theorem isSome_readExponentFrom_iff {digits : List Char} (acc : Nat) :
    (readExponentFrom acc digits).isSome = true ↔ ∀ d ∈ digits, isDigitIn 10 d = true := by
  induction digits generalizing acc with
  | nil => simp [readExponentFrom]
  | cons c digits ih =>
    rw [readExponentFrom, List.forall_mem_cons, isDigitIn]
    cases hc : digitIn 10 c with
    | none => simp
    | some d => simp [ih]

theorem isSome_readExponent?_iff {text : List Char} : (readExponent? text).isSome = true ↔
    ∃ sign ∈ signs, ∃ digits, text = sign ++ digits ∧ IsRun 10 digits := by
  have hread : (readExponent? text).isSome = true ↔ IsRun 10 (splitSign text).2 := by
    rw [readExponent?]
    obtain ⟨negative, digits⟩ := splitSign text
    dsimp only
    split
    · next hempty =>
      obtain rfl := List.isEmpty_iff.1 hempty
      exact iff_of_false Bool.false_ne_true fun h => h.ne_nil rfl
    · next hne =>
      have hlift (x : Option Nat) : (do let n ← x; pure (n : Int) : Option Int).isSome = x.isSome := by
        cases x <;> rfl
      rw [Option.isSome_map, hlift, isSome_readExponentFrom_iff]
      exact ⟨fun h => ⟨fun hnil => hne (List.isEmpty_iff.2 hnil), h⟩, fun h => h.all⟩
  rw [hread]
  constructor
  · intro h
    obtain ⟨sign, hsign, htext⟩ := exists_sign text
    exact ⟨sign, hsign, _, htext, h⟩
  · rintro ⟨sign, hsign, digits, rfl, h⟩
    rwa [splitSign_append hsign (head_of_digits h.all)]

theorem isSome_readTail?_iff {text : List Char} :
    (readTail? text).isSome = true ↔ WritesExponent text := by
  constructor
  · intro h
    cases text with
    | nil => exact .absent
    | cons mark rest =>
      rw [readTail?] at h
      split at h
      · next hmark =>
        obtain ⟨sign, hsign, digits, rfl, hdigits⟩ := isSome_readExponent?_iff.1 h
        exact .raised hmark hsign hdigits
      · cases h
  · intro h
    cases h with
    | absent => rfl
    | raised hmark hsign h =>
      rw [readTail?, if_pos hmark]
      exact isSome_readExponent?_iff.2 ⟨_, hsign, _, rfl, h⟩

/-- A numeral is read if it has a digit before its exponent, and then its parts are those of the
grammar. -/
theorem isSome_read?_iff {text : List Char} : (read? text).isSome = true ↔
    ∃ mantissa exponent, text = mantissa ++ exponent ∧ WritesMantissa mantissa ∧
      WritesExponent exponent := by
  constructor
  · intro h
    have hwhole : ∀ d ∈ text.takeWhile (isDigitIn 10), isDigitIn 10 d = true :=
      fun d hd => List.mem_takeWhile_imp hd
    have hsplit : text.takeWhile (isDigitIn 10) ++ text.dropWhile (isDigitIn 10) = text :=
      List.takeWhile_append_dropWhile
    rw [read?] at h
    generalize text.takeWhile (isDigitIn 10) = whole at h hwhole hsplit
    generalize text.dropWhile (isDigitIn 10) = afterWhole at h hsplit
    subst hsplit
    split at h
    · next rest =>
      dsimp only [Option.getD_some] at h
      split at h
      · cases h
      next hdigits =>
      rw [Option.isSome_map, isSome_readTail?_iff] at h
      rw [Bool.and_eq_true, List.isEmpty_iff, List.isEmpty_iff] at hdigits
      have hfraction : ∀ d ∈ rest.takeWhile (isDigitIn 10), isDigitIn 10 d = true :=
        fun d hd => List.mem_takeWhile_imp hd
      have hrest : rest.takeWhile (isDigitIn 10) ++ rest.dropWhile (isDigitIn 10) = rest :=
        List.takeWhile_append_dropWhile
      refine ⟨whole ++ '.' :: rest.takeWhile (isDigitIn 10), rest.dropWhile (isDigitIn 10), ?_,
        .pointed hwhole hfraction (not_and_or.1 hdigits), h⟩
      rw [List.append_assoc, List.cons_append, hrest]
    · dsimp only [Option.getD_none] at h
      split at h
      · cases h
      next hdigits =>
      rw [Option.isSome_map, isSome_readTail?_iff] at h
      refine ⟨whole, afterWhole, rfl, .whole ⟨?_, hwhole⟩, h⟩
      rintro rfl
      exact hdigits rfl
  · rintro ⟨mantissa, exponent, rfl, hmantissa, hexponent⟩
    have hend : ∀ c ∈ exponent.head?, c = 'e' ∨ c = 'E' := by
      cases hexponent with
      | absent => simp
      | raised hmark => simpa using hmark
    have hdigit : ∀ c ∈ exponent.head?, isDigitIn 10 c = false := by
      intro c hc
      obtain rfl | rfl := hend c hc <;> rfl
    have hpoint : exponent.head? ≠ some '.' := fun h => absurd (hend '.' h) (by decide)
    have htail := isSome_readTail?_iff.2 hexponent
    cases hmantissa with
    | whole h => rw [read?_whole h.all hdigit h.ne_nil hpoint, Option.isSome_map, htail]
    | pointed hwhole hfraction h =>
      rw [List.append_assoc, List.cons_append, read?_pointed hwhole hdigit hfraction h,
        Option.isSome_map, htail]

end DecimalNumeral

/-! ### Rounded values -/

namespace Number

open Float.Model Float.Model.UnpackedFloat

theorem isNaN_zero (negative : Bool) : (zero negative).isNaN = false := by
  cases negative <;> decide

theorem isNaN_infinity (negative : Bool) : (infinity negative).isNaN = false := by
  cases negative <;> decide

/-- The bits of a finite value are kept. -/
theorem toBits_ofBits_finite {b : UInt64} (h : b.toNat / 0x10000000000000 % 0x800 ≠ 2047) :
    (Float.ofBits b).toBits = b := by
  rw [← UInt64.toBitVec_inj]
  refine (@pack_unpack Format.binary64 b.toBitVec (by decide)).trans (if_neg ?_)
  rw [isNaNBits, decide_eq_true_eq]
  rintro ⟨hexponent, -⟩
  rw [← BitVec.toNat_inj, toNat_unpackExponent] at hexponent
  exact h hexponent

/-- Bits below those of infinity, but for the sign, are those of a finite value. -/
theorem isNaN_ofBits {b : Nat} (h : b < 0x7FF0000000000000) (negative : Bool) :
    (Float.ofBits (UInt64.ofNat (b + if negative then 0x8000000000000000 else 0))).isNaN = false := by
  have hsize : b + (if negative then 0x8000000000000000 else 0) < UInt64.size := by
    split <;> (change _ < 2 ^ 64; omega)
  generalize hbits : b + (if negative then 0x8000000000000000 else 0) = bits at hsize
  have hexponent : bits / 0x10000000000000 % 0x800 ≠ 2047 := by
    split at hbits <;> omega
  rw [← UInt64.toNat_ofNat_of_lt' hsize] at hexponent
  rw [← Bool.not_eq_true, isNaN_iff, exact, toBits_ofBits_finite hexponent, if_neg hexponent]
  split <;> exact Exact.noConfusion

theorem isNaN_ofRatio (negative : Bool) (num den : Nat) :
    (ofRatio negative num den).isNaN = false := by
  unfold ofRatio
  split
  · exact isNaN_zero negative
  · extract_lets q significand magnitude
    by_cases hlarge : 0x7FF0000000000000 ≤ magnitude
    · rw [if_pos hlarge]
      exact isNaN_infinity negative
    · rw [if_neg hlarge]
      exact isNaN_ofBits (Nat.lt_of_not_le hlarge) negative

theorem isNaN_ofDecimal (negative : Bool) (digits count : Nat) (exponent : Int) :
    (ofDecimal negative digits count exponent).isNaN = false := by
  unfold ofDecimal
  split_ifs
  · exact isNaN_zero negative
  · exact isNaN_infinity negative
  · exact isNaN_zero negative
  · split <;> exact isNaN_ofRatio negative _ _

theorem isNaN_toNumber (negative : Bool) (n : DecimalNumeral) :
    (n.toNumber negative).isNaN = false := by
  unfold DecimalNumeral.toNumber
  dsimp only
  split <;> exact isNaN_ofDecimal negative _ _ _

end Number

/-! ### Characters -/

namespace Number

theorem isDecimalChar_digit {c : Char} (h : isDigitIn 10 c = true) : isDecimalChar c = true := by
  rw [isDigitIn_ten] at h
  simp [isDecimalChar, h]

end Number

open Number

theorem isDecimalChar_sign {sign : List Char} (h : sign ∈ signs) :
    ∀ c ∈ sign, isDecimalChar c = true := by
  simp only [signs, List.mem_cons, List.not_mem_nil, or_false] at h
  rcases h with rfl | rfl | rfl <;> simp [isDecimalChar]

theorem WritesMantissa.all {text : List Char} (h : WritesMantissa text) :
    (∀ c ∈ text, isDecimalChar c = true) ∧ startsDecimal text = true := by
  cases h with
  | whole h =>
    refine ⟨fun c hc => isDecimalChar_digit (h.all c hc), ?_⟩
    obtain ⟨d, rest, rfl⟩ := List.exists_cons_of_ne_nil h.ne_nil
    have hdigit := h.all d List.mem_cons_self
    rw [isDigitIn_ten] at hdigit
    rw [startsDecimal, hdigit, Bool.true_or]
  | @pointed whole fraction hwhole hfraction h =>
    constructor
    · intro c hc
      rcases List.mem_append.1 hc with hc | hc
      · exact isDecimalChar_digit (hwhole c hc)
      rcases List.mem_cons.1 hc with rfl | hc
      · rfl
      · exact isDecimalChar_digit (hfraction c hc)
    · cases whole with
      | nil => rfl
      | cons d rest =>
        have hdigit := hwhole d List.mem_cons_self
        rw [isDigitIn_ten] at hdigit
        rw [List.cons_append, startsDecimal, hdigit, Bool.true_or]

theorem WritesExponent.all {text : List Char} (h : WritesExponent text) :
    ∀ c ∈ text, isDecimalChar c = true := by
  cases h with
  | absent => simp
  | raised hmark hsign h =>
    refine List.forall_mem_cons.2 ⟨by rcases hmark with rfl | rfl <;> simp [isDecimalChar], ?_⟩
    exact List.forall_mem_append.2
      ⟨isDecimalChar_sign hsign, fun c hc => isDecimalChar_digit (h.all c hc)⟩

/-- The texts that may have a sign in front of them. -/
theorem writesUnsigned_iff {text : List Char} : WritesUnsigned text ↔ text = "Infinity".toList ∨
    (∀ c ∈ text, isDecimalChar c = true) ∧ startsDecimal text = true ∧
      (DecimalNumeral.read? text).isSome = true := by
  constructor
  · intro h
    cases h with
    | infinity => exact .inl rfl
    | @decimal mantissa exponent hmantissa hexponent =>
      obtain ⟨hall, hstarts⟩ := hmantissa.all
      refine .inr ⟨List.forall_mem_append.2 ⟨hall, hexponent.all⟩, ?_,
        DecimalNumeral.isSome_read?_iff.2 ⟨mantissa, exponent, rfl, hmantissa, hexponent⟩⟩
      cases mantissa with
      | nil => cases hstarts
      | cons c mantissa => exact hstarts
  · rintro (rfl | ⟨-, -, hread⟩)
    · exact .infinity
    · obtain ⟨mantissa, exponent, rfl, hmantissa, hexponent⟩ :=
        DecimalNumeral.isSome_read?_iff.1 hread
      exact .decimal hmantissa hexponent

/-- No such text starts with a sign itself. -/
theorem WritesUnsigned.head {text : List Char} (h : WritesUnsigned text) :
    ∀ c ∈ text.head?, c ≠ '-' ∧ c ≠ '+' := by
  intro c hc
  obtain ⟨rest, rfl⟩ := List.head?_eq_some_iff.1 hc
  rcases writesUnsigned_iff.1 h with heq | ⟨-, hstarts, -⟩
  · obtain rfl : c = 'I' := (List.cons.inj heq).1
    decide
  · constructor <;> (rintro rfl; cases hstarts)

/-- A character that starts a decimal is none of the first letters of the words for infinity and
NaN. -/
theorem toLower_decimal {c : Char} (h : (c.isDigit || c == '.') = true) :
    c.toLower ≠ 'i' ∧ c.toLower ≠ 'n' := by
  have hupper : c.isUpper = false := by
    simp only [Char.isDigit, Char.isUpper, Bool.or_eq_true, Bool.and_eq_true, decide_eq_true_eq,
      beq_iff_eq, ← Char.toNat_inj, decide_eq_false_iff_not, ge_iff_le, UInt32.le_iff_toNat_le]
      at h ⊢
    change 48 ≤ c.toNat ∧ c.toNat ≤ 57 ∨ c.toNat = 46 at h
    change ¬ (65 ≤ c.toNat ∧ c.toNat ≤ 90)
    omega
  rw [Char.toLower_eq_of_not_isUpper (by simp [hupper])]
  constructor <;> (rintro rfl; cases h)

namespace Number

/-- A text that starts as a decimal does is read as one or not at all. -/
theorem readUnsigned?_decimal {text : List Char} (h : startsDecimal text = true) (negative : Bool) :
    readUnsigned? negative text = (DecimalNumeral.read? text).map (·.toNumber negative) := by
  cases text with
  | nil => cases h
  | cons c rest =>
    obtain ⟨hi, hn⟩ := toLower_decimal h
    have hword {word : String} {first : Char} (hfirst : word.toList.head? = some first)
        (hc : c.toLower ≠ first) : (String.ofList ((c :: rest).map Char.toLower) == word) = false := by
      rw [beq_eq_false_iff_ne]
      rintro rfl
      rw [String.toList_ofList] at hfirst
      exact hc (Option.some.inj hfirst)
    have hinf : (String.ofList ((c :: rest).map Char.toLower) == "inf") = false := hword rfl hi
    have hinfinity : (String.ofList ((c :: rest).map Char.toLower) == "infinity") = false :=
      hword rfl hi
    have hnan : (String.ofList ((c :: rest).map Char.toLower) == "nan") = false := hword rfl hn
    unfold readUnsigned?
    cases DecimalNumeral.read? (c :: rest) with
    | some n => rfl
    | none =>
      dsimp only
      rw [hinf, hinfinity, hnan]
      rfl

/-- Behind an optional sign stands the word for infinity or a decimal. -/
theorem isNaN_ofDecimalText (text : List Char) : (ofDecimalText text).isNaN = false ↔
    ∃ sign ∈ signs, ∃ unsigned, text = sign ++ unsigned ∧ WritesUnsigned unsigned := by
  have hnan : nan.isNaN = true := by decide
  have hread : (ofDecimalText text).isNaN = false ↔ WritesUnsigned (splitSign text).2 := by
    rw [ofDecimalText, writesUnsigned_iff]
    obtain ⟨negative, unsigned⟩ := splitSign text
    dsimp only
    split_ifs with hword hdecimal
    · exact iff_of_true (isNaN_infinity negative) (.inl hword)
    · rw [Bool.and_eq_true, List.all_eq_true] at hdecimal
      rw [readUnsigned?_decimal hdecimal.2]
      cases hn : DecimalNumeral.read? unsigned with
      | some n => exact iff_of_true (isNaN_toNumber negative n) (.inr ⟨hdecimal.1, hdecimal.2, rfl⟩)
      | none =>
        refine iff_of_false (by rw [Option.map_none, Option.getD_none, hnan]; exact Bool.noConfusion) ?_
        rintro (h | ⟨-, -, h⟩)
        · exact hword h
        · cases h
    · rw [Bool.and_eq_true, List.all_eq_true] at hdecimal
      refine iff_of_false (by rw [hnan]; exact Bool.noConfusion) ?_
      rintro (h | ⟨hall, hstarts, -⟩)
      · exact hword h
      · exact hdecimal ⟨hall, hstarts⟩
  rw [hread]
  constructor
  · intro h
    obtain ⟨sign, hsign, htext⟩ := exists_sign text
    exact ⟨sign, hsign, _, htext, h⟩
  · rintro ⟨sign, hsign, unsigned, rfl, h⟩
    rwa [splitSign_append hsign h.head]

/-! ### Strings -/

/-- The loop over digits ends with a number just if all of them are digits. -/
theorem isNaN_accumulate {mark : Char} {radix : Nat} {digits : List Char}
    (hmark : (mark, radix) ∈ radixMarks) : (accumulate radix (zero false) digits).isNaN = false ↔
      ∀ d ∈ digits, isDigitIn radix d = true := by
  have hfails (x : Number) (h : ¬∀ d ∈ digits, isDigitIn radix d = true) :
      accumulate radix x digits = nan := by
    induction digits generalizing x with
    | nil => simp at h
    | cons c digits ih =>
      rw [List.forall_mem_cons, isDigitIn] at h
      rw [accumulate]
      cases hc : digitIn radix c with
      | none => rfl
      | some d => exact ih _ (by simpa [hc] using h)
  constructor
  · intro h
    by_contra hdigits
    rw [hfails _ hdigits] at h
    exact absurd h (by decide)
  · intro h
    obtain ⟨k, hk, -, rfl⟩ := exists_two_pow hmark
    exact (isNearest (exact_accumulate hk exact_zero h)).isNaN

end Number

/-- Behind a radix mark the grammar has digits in that radix. -/
theorem writesNumber_marked_iff {mark : Char} {radix : Nat} {digits : List Char}
    (hmark : (mark, radix) ∈ radixMarks) :
    WritesNumber ('0' :: mark :: digits) ↔ IsRun radix digits := by
  refine ⟨fun h => ?_, .marked hmark⟩
  generalize htext : '0' :: mark :: digits = text at h
  cases h with
  | empty => cases htext
  | @marked mark' radix' digits' hmark' h =>
    obtain ⟨rfl, rfl⟩ : mark = mark' ∧ digits = digits' := by simpa using htext
    have hsplit : splitRadix? ('0' :: mark :: digits) = some (radix, digits) :=
      splitRadix?_eq_some_iff.2 ⟨mark, hmark, rfl⟩
    rw [splitRadix?_eq_some_iff.2 ⟨mark, hmark', rfl⟩] at hsplit
    obtain ⟨rfl, -⟩ := Prod.mk.inj (Option.some.inj hsplit)
    exact h
  | @signed sign text hsign h =>
    have hmarks : ∀ m ∈ radixMarks, isDecimalChar m.1 = false := by decide
    exfalso
    simp only [signs, List.mem_cons, List.not_mem_nil, or_false] at hsign
    rcases hsign with rfl | rfl | rfl
    · rcases writesUnsigned_iff.1 h with heq | ⟨hall, -⟩
      · rw [heq] at htext
        cases htext
      · have hchar := hall mark (by rw [← List.nil_append text, ← htext]; simp)
        rw [hmarks _ hmark] at hchar
        cases hchar
    · cases htext
    · cases htext

/-- The trimmed text decides. -/
theorem Number.isNaN_ofUnits (s : Units) :
    (ofUnits s).isNaN = false ↔ WritesNumber (trimBoth isBlank s.chars) := by
  rw [ofUnits]
  generalize trimBoth isBlank s.chars = text
  split
  · next hempty =>
    obtain rfl := List.isEmpty_iff.1 hempty
    exact iff_of_true (isNaN_zero false) .empty
  next hne =>
  split
  · next radix hsplit =>
    obtain ⟨mark, hmark, rfl⟩ := splitRadix?_eq_some_iff.1 hsplit
    rw [writesNumber_marked_iff hmark]
    exact iff_of_false (by decide) fun h => h.ne_nil rfl
  · next radix digits hdigits hsplit =>
    obtain ⟨mark, hmark, rfl⟩ := splitRadix?_eq_some_iff.1 hsplit
    rw [writesNumber_marked_iff hmark, isNaN_accumulate hmark]
    exact ⟨fun h => ⟨hdigits, h⟩, fun h => h.all⟩
  · next hsplit =>
    rw [isNaN_ofDecimalText]
    constructor
    · rintro ⟨sign, hsign, unsigned, rfl, h⟩
      exact .signed hsign h
    · intro h
      cases h with
      | empty => exact absurd rfl hne
      | marked hmark h =>
        rw [splitRadix?_eq_some_iff.2 ⟨_, hmark, rfl⟩] at hsplit
        cases hsplit
      | signed hsign h => exact ⟨_, hsign, _, rfl, h⟩

theorem isDecimalChar_plain {c : Char} (h : isDecimalChar c = true) :
    isBlank c = false ∧ c ≠ '\uFFFD' := by
  simp only [isDecimalChar, Bool.or_eq_true, beq_iff_eq, ← isDigitIn_ten] at h
  rcases h with ((((h | rfl) | rfl) | rfl) | rfl) | rfl
  · have hrun : IsRun 10 [c] := ⟨List.cons_ne_nil _ _, by simpa using h⟩
    exact hrun.plain c List.mem_cons_self
  all_goals decide

/-- A text of the grammar has no blank, and nothing that stands for a lone surrogate. -/
theorem WritesNumber.plain {text : List Char} (h : WritesNumber text) :
    ∀ c ∈ text, isBlank c = false ∧ c ≠ '\uFFFD' := by
  cases h with
  | empty => simp
  | marked hmark hrun =>
    exact List.forall_mem_cons.2 ⟨by decide,
      List.forall_mem_cons.2 ⟨radixMark_plain hmark, hrun.plain⟩⟩
  | signed hsign h =>
    refine List.forall_mem_append.2 ⟨fun c hc => isDecimalChar_plain (isDecimalChar_sign hsign c hc), ?_⟩
    rcases writesUnsigned_iff.1 h with rfl | ⟨hall, -⟩
    · have hletters : ∀ c ∈ "Infinity".toList, (digitValue c).isSome = true :=
        List.all_eq_true.mp (by decide)
      exact fun c hc => digitValue_plain (hletters c hc)
    · exact fun c hc => isDecimalChar_plain (hall c hc)

/-- A string writes a Number just if it is a text of the grammar between white space and line
terminators: every other string is read as NaN. -/
theorem number_strings (s : Units) : (Number.ofUnits s).isNaN = false ↔
    ∃ front text back, s = Units.ofChars (front ++ text ++ back) ∧
      (∀ c ∈ front ++ back, isWhitespace c = true ∨ isLineTerminator c = true) ∧
      WritesNumber text := by
  rw [Number.isNaN_ofUnits, trimBoth_chars_iff (p := WritesNumber) fun _ => WritesNumber.plain]
  simp only [← isBlank_iff, List.forall_mem_append, and_assoc]

end Ecma
