import Mathlib
import Ecma.Literal.NumericLiteral
import Ecma.Proofs.Literal.Decoding
import Ecma.Proofs.Token.Tiling

/-! The values of numeric literals, and of the literal tokens of a text. Whatever a scan takes for a
number can be read as one. -/

namespace Ecma

/-! ### Digits without separators -/

/-- The text without its separators. -/
def stripped (text : List Char) : List Char :=
  text.filter (· != '_')

theorem stripped_append (l l' : List Char) : stripped (l ++ l') = stripped l ++ stripped l' :=
  List.filter_append l l'

theorem stripped_cons {ch : Char} (h : ch ≠ '_') (l : List Char) :
    stripped (ch :: l) = ch :: stripped l :=
  List.filter_cons_of_pos (by simpa using h)

namespace DigitRun

variable {p : Char → Bool} {l : List Char}

theorem stripped_ne_nil (hp : p '_' = false) (h : DigitRun p l) : stripped l ≠ [] := by
  obtain ⟨d, ds, rfl, hd⟩ := h.head
  have hline : d ≠ '_' := by
    rintro rfl
    exact Bool.false_ne_true (hp.symm.trans hd)
  rw [stripped_cons hline]
  exact List.cons_ne_nil _ _

theorem all_stripped (h : DigitRun p l) : ∀ d ∈ stripped l, p d = true := by
  intro d hd
  rw [stripped, List.mem_filter] at hd
  have hall := h.all d hd.1
  simpa [show d ≠ '_' by simpa using hd.2] using hall

end DigitRun

/-! ### Decimal numerals -/

namespace DecimalNumeral

theorem isSome_readExponentFrom {digits : List Char}
    (h : ∀ d ∈ digits, d.isDigit = true) (acc : Nat) : (readExponentFrom acc digits).isSome = true := by
  induction digits generalizing acc with
  | nil => rfl
  | cons d digits ih =>
    obtain ⟨n, hn⟩ : ∃ n, digitIn 10 d = some n := by
      rw [← Option.isSome_iff_exists, ← isDigitIn, isDigitIn_ten]
      exact h d (by simp)
    rw [readExponentFrom, hn]
    exact ih (fun d hd => h d (by simp [hd])) _

/-- An exponent without separators is read. -/
theorem isSome_readTail? {raised : Bool} {exponent : List Char}
    (h : ExponentText raised exponent) : (readTail? (stripped exponent)).isSome = true := by
  cases h with
  | absent => rfl
  | @digits mark text hmark h =>
    have hread {ds : List Char} (hds : DigitRun Char.isDigit ds) (negative : Bool) :
        ((readExponentFrom 0 (stripped ds)).map fun n =>
          if negative then - (n : Int) else n).isSome = true := by
      obtain ⟨n, hn⟩ := Option.isSome_iff_exists.1 (isSome_readExponentFrom hds.all_stripped 0)
      simp [hn]
    have hne {ds : List Char} (hds : DigitRun Char.isDigit ds) : (stripped ds).isEmpty = false := by
      simpa using hds.stripped_ne_nil rfl
    have hline : mark ≠ '_' := by
      rintro rfl
      exact absurd hmark (by decide)
    rw [stripped_cons hline, readTail?, if_pos hmark, readExponent?]
    cases h with
    | unsigned hds =>
      have hdigits : splitSign (stripped text) = (false, stripped text) :=
        splitSign_digits fun d hd => (isDigitIn_ten d).trans (hds.all_stripped d hd)
      rw [hdigits]
      dsimp only
      rw [hne hds]
      exact hread hds false
    | @plus ds hds =>
      rw [stripped_cons (by decide)]
      change (if (stripped ds).isEmpty = true then none else _).isSome = true
      rw [hne hds]
      exact hread hds false
    | @minus ds hds =>
      rw [stripped_cons (by decide)]
      change (if (stripped ds).isEmpty = true then none else _).isSome = true
      rw [hne hds]
      exact hread hds true

/-- A run ends before a character of another class. -/
theorem span_append {p : Char → Bool} {ds tail : List Char} (hds : ∀ d ∈ ds, p d = true)
    (htail : ∀ ch ∈ tail.head?, p ch = false) :
    (ds ++ tail).takeWhile p = ds ∧ (ds ++ tail).dropWhile p = tail := by
  rw [List.takeWhile_append_of_pos hds, List.dropWhile_append_of_pos hds]
  cases tail with
  | nil => simp
  | cons ch tail =>
    have hch := htail ch rfl
    simp [hch]

section

variable {whole fraction tail : List Char} (hwhole : ∀ d ∈ whole, isDigitIn 10 d = true)
  (htail : ∀ ch ∈ tail.head?, isDigitIn 10 ch = false)

include hwhole htail

theorem read?_whole (hne : whole ≠ []) (hpoint : tail.head? ≠ some '.') :
    read? (whole ++ tail) = (readTail? tail).map fun exponent => ⟨whole, [], exponent⟩ := by
  obtain ⟨htake, hdrop⟩ := span_append hwhole htail
  have hempty : (whole.isEmpty && ([] : List Char).isEmpty) = false := by simpa using hne
  simp only [read?, htake, hdrop]
  split
  · exact absurd rfl hpoint
  · simp only [Option.getD_none, List.takeWhile_nil, hempty]
    rfl

theorem read?_pointed (hfraction : ∀ d ∈ fraction, isDigitIn 10 d = true)
    (hne : whole ≠ [] ∨ fraction ≠ []) : read? (whole ++ '.' :: (fraction ++ tail)) =
      (readTail? tail).map fun exponent => ⟨whole, fraction, exponent⟩ := by
  have hpoint : ∀ ch ∈ ('.' :: (fraction ++ tail)).head?, isDigitIn 10 ch = false := by
    rintro _ ⟨⟩
    rfl
  obtain ⟨htake, hdrop⟩ := span_append hwhole hpoint
  obtain ⟨htake', hdrop'⟩ := span_append hfraction htail
  have hempty : (whole.isEmpty && fraction.isEmpty) = false := by
    rcases hne with hne | hne <;> simp [hne]
  simp only [read?, htake, hdrop, Option.getD_some, htake', hdrop', hempty]
  rfl

end

/-- A decimal numeral with digits before its exponent is read. -/
theorem isSome_read? {integer fraction exponent : List Char} {pointed raised : Bool}
    (hinteger : integer = [] ∨ DigitRun Char.isDigit integer)
    (hfraction : FractionText pointed fraction) (hexponent : ExponentText raised exponent)
    (hne : integer ≠ [] ∨ fraction.tail ≠ []) :
    (read? (stripped (integer ++ (fraction ++ exponent)))).isSome = true := by
  have hdigits {ds : List Char} (hds : ds = [] ∨ DigitRun Char.isDigit ds) :
      ∀ d ∈ stripped ds, isDigitIn 10 d = true := by
    rcases hds with rfl | hds
    · simp [stripped]
    · exact fun d hd => (isDigitIn_ten d).trans (hds.all_stripped d hd)
  have hnonempty {ds : List Char} (hds : ds = [] ∨ DigitRun Char.isDigit ds) (hne : ds ≠ []) :
      stripped ds ≠ [] :=
    (hds.resolve_left hne).stripped_ne_nil rfl
  have hend : ∀ ch ∈ (stripped exponent).head?, ch = 'e' ∨ ch = 'E' := by
    cases hexponent with
    | absent => simp [stripped]
    | @digits mark text hmark =>
      rw [stripped_cons (by rcases hmark with rfl | rfl <;> decide)]
      rintro _ ⟨⟩
      exact hmark
  have hdigit : ∀ ch ∈ (stripped exponent).head?, isDigitIn 10 ch = false := by
    intro ch hch
    obtain rfl | rfl := hend ch hch <;> rfl
  have htail := isSome_readTail? hexponent
  rw [stripped_append, stripped_append]
  cases hfraction with
  | absent =>
    have hpoint : (stripped exponent).head? ≠ some '.' := by
      intro hhead
      exact absurd (hend '.' hhead) (by decide)
    have hread := read?_whole (hdigits hinteger) hdigit (hnonempty hinteger (by simpa using hne))
      hpoint
    rw [show stripped [] ++ stripped exponent = stripped exponent from rfl, hread,
      Option.isSome_map, htail]
  | @digits ds hds =>
    rw [stripped_cons (by decide), List.cons_append, read?_pointed (hdigits hinteger) hdigit
      (hdigits hds) (hne.imp (hnonempty hinteger) (hnonempty hds)), Option.isSome_map, htail]

end DecimalNumeral

/-- No numeral starts with a sign. -/
theorem Number.isSome_read? {text : List Char} (h : (DecimalNumeral.read? text).isSome = true) :
    (Number.read? text).isSome = true := by
  obtain ⟨n, hn⟩ := Option.isSome_iff_exists.1 h
  have hsign : splitSign text = (false, text) := by
    refine splitSign_eq fun ch hch => ?_
    obtain ⟨rest, rfl⟩ := List.head?_eq_some_iff.1 hch
    constructor
    · rintro rfl
      cases hn
    · rintro rfl
      cases hn
  rw [Number.read?, hsign]
  simp [readUnsigned?, hn]

/-- The value is a big integer. -/
def Numeric.isBigInt : Numeric → Bool
  | .bigInt _ => true
  | .number _ => false

namespace NumericLiteral

/-! ### Values of literals -/

/-- The value of digits in a radix, or nothing where no digits can be read. -/
def read? (isBigInt : Bool) (radix : Nat) (digits : List Char) : Option Numeric :=
  if isBigInt then (IntegerFormat.read? radix digits).map .bigInt
  else if radix ≠ 10 then (IntegerFormat.read? radix digits).map fun i => .number (Number.ofInt i)
  else (Number.read? digits).map .number

/-- What stands in for digits that cannot be read. -/
def fallback (isBigInt : Bool) (radix : Nat) : Numeric :=
  if isBigInt then .bigInt 0
  else if radix ≠ 10 then .number (Number.ofInt 0)
  else .number Number.nan

/-- The text is marked as a big integer. -/
def isMarkedBig (text : List Char) : Bool :=
  text.getLast? == some 'n'

/-- The digits of a literal, and their radix. -/
def significand (text : List Char) : Nat × List Char :=
  radixAndDigits (stripped (if isMarkedBig text then text.dropLast else text))

/-- The text of a literal without separators and without the mark of a big integer. -/
def plainText (text : List Char) : List Char :=
  stripped (if isMarkedBig text then text.dropLast else text)

theorem significand_eq_radixAndDigits (text : List Char) :
    significand text = radixAndDigits (plainText text) :=
  rfl

/-- The value of a literal, or nothing where its digits cannot be read. -/
def value? (text : String) : Option Numeric :=
  read? (isMarkedBig text.toList) (significand text.toList).1 (significand text.toList).2

theorem value_eq (text : String) : value text =
    (value? text).getD (fallback (isMarkedBig text.toList) (significand text.toList).1) := by
  have hvalue : value text =
      if isMarkedBig text.toList then
        .bigInt ((IntegerFormat.read? (significand text.toList).1
          (significand text.toList).2).getD 0)
      else if (significand text.toList).1 ≠ 10 then
        .number (Number.ofInt ((IntegerFormat.read? (significand text.toList).1
          (significand text.toList).2).getD 0))
      else .number ((Number.read? (significand text.toList).2).getD Number.nan) := rfl
  rw [hvalue, value?]
  unfold read? fallback
  split_ifs
  · cases IntegerFormat.read? (significand text.toList).1 (significand text.toList).2 <;> rfl
  · cases IntegerFormat.read? (significand text.toList).1 (significand text.toList).2 <;> rfl
  · cases Number.read? (significand text.toList).2 <;> rfl

theorem isBigInt_of_read? {isBigInt : Bool} {radix : Nat} {digits : List Char} {v : Numeric}
    (h : read? isBigInt radix digits = some v) : v.isBigInt = isBigInt := by
  unfold read? at h
  split_ifs at h with hbig hradix
  all_goals
    obtain ⟨_, -, rfl⟩ := Option.map_eq_some_iff.1 h
    simp [Numeric.isBigInt, hbig]

/-- Digits of a radix are read as an integer, or as the Number nearest to it. -/
theorem isSome_read?_digits {radix : Nat} {digits : List Char} (hlow : 2 ≤ radix)
    (hhigh : radix ≤ 36) (hne : digits ≠ [])
    (hdigits : ∀ d ∈ digits, isDigitIn radix d = true) {isBigInt : Bool}
    (hradix : radix = 10 → isBigInt = true) : (read? isBigInt radix digits).isSome = true := by
  have hint : (IntegerFormat.read? radix digits).isSome = true := by
    rw [read?_run hlow hhigh hne hdigits]
    rfl
  unfold read?
  split_ifs with hbig hten
  · rw [Option.isSome_map, hint]
  · rw [Option.isSome_map, hint]
  · exact absurd (hradix (not_not.1 hten)) hbig

theorem isMarkedBig_append {core suffix : List Char} {kind : TokenKind}
    (hsuffix : SuffixText kind suffix) (hcore : core.getLast? ≠ some 'n') :
    isMarkedBig (core ++ suffix) = (kind == .bigIntLiteral) ∧
      plainText (core ++ suffix) = stripped core := by
  cases hsuffix with
  | absent =>
    have hmark : isMarkedBig core = false := by simpa [isMarkedBig] using hcore
    simp [plainText, hmark]
  | big =>
    have hmark : isMarkedBig (core ++ ['n']) = true := by simp [isMarkedBig]
    simp [plainText, hmark]

/-- The characters of a decimal literal but for the mark of a big integer. -/
def isDecimalChar (ch : Char) : Bool :=
  Scan.isDigitOrSeparator ch || ".eE+-".toList.contains ch

theorem isDecimalChar_of_digitRun {ds : List Char} (h : ds = [] ∨ DigitRun Char.isDigit ds) :
    ∀ ch ∈ ds, isDecimalChar ch = true := by
  intro ch hch
  rw [isDecimalChar, Scan.isDigitOrSeparator, Scan.DigitRun.all_of_or h ch hch, Bool.true_or]

theorem isDecimalChar_of_fraction {pointed : Bool} {fraction : List Char}
    (h : FractionText pointed fraction) : ∀ ch ∈ fraction, isDecimalChar ch = true := by
  cases h with
  | absent => simp
  | digits h => exact List.forall_mem_cons.2 ⟨by decide, isDecimalChar_of_digitRun h⟩

theorem isDecimalChar_of_exponent {raised : Bool} {exponent : List Char}
    (h : ExponentText raised exponent) : ∀ ch ∈ exponent, isDecimalChar ch = true := by
  cases h with
  | absent => simp
  | digits hmark h =>
    refine List.forall_mem_cons.2 ⟨by rcases hmark with rfl | rfl <;> decide, ?_⟩
    cases h with
    | unsigned h => exact isDecimalChar_of_digitRun (.inr h)
    | plus h => exact List.forall_mem_cons.2 ⟨by decide, isDecimalChar_of_digitRun (.inr h)⟩
    | minus h => exact List.forall_mem_cons.2 ⟨by decide, isDecimalChar_of_digitRun (.inr h)⟩

theorem isDecimalChar_of_parts {integer fraction exponent : List Char} {pointed raised : Bool}
    (hinteger : integer = [] ∨ DigitRun Char.isDigit integer)
    (hfraction : FractionText pointed fraction) (hexponent : ExponentText raised exponent) :
    ∀ ch ∈ integer ++ (fraction ++ exponent), isDecimalChar ch = true := by
  intro ch hch
  rw [List.mem_append, List.mem_append] at hch
  rcases hch with hch | hch | hch
  · exact isDecimalChar_of_digitRun hinteger ch hch
  · exact isDecimalChar_of_fraction hfraction ch hch
  · exact isDecimalChar_of_exponent hexponent ch hch

theorem splitRadix?_decimal {text : List Char} (h : ∀ ch ∈ text, isDecimalChar ch = true) :
    splitRadix? text = none := by
  cases hsplit : splitRadix? text with
  | none => rfl
  | some split =>
    unfold splitRadix? at hsplit
    split at hsplit
    · next mark rest =>
      have hmark := h mark (by simp)
      split_ifs at hsplit with hx ho hb
      · rcases hx with rfl | rfl <;> cases hmark
      · rcases ho with rfl | rfl <;> cases hmark
      · rcases hb with rfl | rfl <;> cases hmark
    · cases hsplit

/-- The digits of a literal with a radix mark are read. -/
theorem isSome_read?_marked {radix : Nat} {mark : Char} {digits : List Char}
    (hmark : ∀ tail, splitRadix? ('0' :: mark :: tail) = some (radix, tail))
    (hdigits : DigitRun (isDigitIn radix) digits) (isBigInt : Bool) :
    radixAndDigits (stripped ('0' :: mark :: digits)) = (radix, stripped digits) ∧
      (read? isBigInt radix (stripped digits)).isSome = true := by
  have hne : mark ≠ '_' ∧ radix ≠ 10 ∧ 2 ≤ radix ∧ radix ≤ 36 := by
    have h := hmark []
    simp only [splitRadix?] at h
    constructor
    · rintro rfl
      cases h
    · split_ifs at h <;> cases h <;> decide
  obtain ⟨hline, hten, hlow, hhigh⟩ := hne
  rw [stripped_cons (by decide), stripped_cons hline, radixAndDigits, hmark]
  exact ⟨rfl, isSome_read?_digits hlow hhigh
    (hdigits.stripped_ne_nil (Scan.isDigitIn_separator radix)) hdigits.all_stripped
    fun heq => absurd heq hten⟩

/-- The digits of a literal without a radix mark can be read in base ten. -/
theorem isSome_read?_decimal {integer fraction exponent : List Char} {pointed raised : Bool}
    (hinteger : integer = [] ∨ DigitRun Char.isDigit integer)
    (hfraction : FractionText pointed fraction) (hexponent : ExponentText raised exponent)
    (hne : integer ≠ [] ∨ fraction.tail ≠ []) {isBigInt : Bool}
    (hplain : isBigInt = true → fraction = [] ∧ exponent = []) :
    (read? isBigInt 10 (stripped (integer ++ (fraction ++ exponent)))).isSome = true := by
  cases isBigInt with
  | false =>
    have hread := DecimalNumeral.isSome_read? hinteger hfraction hexponent hne
    change ((Number.read? _).map Numeric.number).isSome = true
    rw [Option.isSome_map, Number.isSome_read? hread]
  | true =>
    obtain ⟨rfl, rfl⟩ := hplain rfl
    have hrun : DigitRun Char.isDigit integer := hinteger.resolve_left (by simpa using hne)
    rw [List.append_nil, List.append_nil]
    exact isSome_read?_digits (by decide) (by decide) (hrun.stripped_ne_nil rfl)
      (fun d hd => (isDigitIn_ten d).trans (hrun.all_stripped d hd)) (fun _ => rfl)

/-- Digits that count as legacy octal are read in base eight. -/
theorem isSome_read?_octal {digits : List Char} (h : isLegacyOctal digits = true)
    (isBigInt : Bool) : (read? isBigInt 8 (digits.drop 1)).isSome = true := by
  rw [isLegacyOctal, Bool.and_eq_true, List.all_eq_true] at h
  refine isSome_read?_digits (by decide) (by decide) ?_
    (fun d hd => h.2 d (List.mem_of_mem_drop hd)) (by simp)
  have hzero := h.1
  unfold hasLeadingZero at hzero
  split at hzero
  · simp
  · cases hzero

/-- A literal without a radix mark in its parts. -/
theorem exists_parts {integer rest : List Char} {kind : TokenKind}
    (h : DecimalRest integer rest kind) : ∃ fraction exponent suffix pointed raised,
      rest = fraction ++ (exponent ++ suffix) ∧ FractionText pointed fraction ∧
        ExponentText raised exponent ∧ SuffixText kind suffix ∧
        (kind = .bigIntLiteral → fraction = [] ∧ exponent = []) := by
  cases h with
  | octal => exact ⟨[], [], [], false, false, rfl, .absent, .absent, .absent, by simp⟩
  | @decimal fraction exponent suffix pointed raised _ _ hfraction hexponent hsuffix hplain =>
    refine ⟨fraction, exponent, suffix, pointed, raised, rfl, hfraction, hexponent, hsuffix, ?_⟩
    intro hkind
    cases hfraction with
    | digits => cases hplain hkind
    | absent =>
      cases hexponent with
      | digits => cases hplain hkind
      | absent => exact ⟨rfl, rfl⟩

/-- A number has a digit before its exponent. -/
theorem digit_of_startsNumber {integer fraction tail : List Char} {pointed : Bool}
    (hfraction : FractionText pointed fraction) (htail : Scan.Ahead Scan.AfterFraction tail)
    (h : startsNumber (integer ++ (fraction ++ tail)) = true) :
    integer ≠ [] ∨ fraction.tail ≠ [] := by
  by_contra hnone
  rw [not_or, not_not, not_not] at hnone
  obtain ⟨rfl, hfraction'⟩ := hnone
  have hdigit : ∀ ch ∈ tail.head?, ch.isDigit = false ∧ ch ≠ '.' := by
    intro ch hch
    have hafter := htail ch hch
    refine ⟨(Bool.or_eq_false_iff.1 hafter.not_digit).1, ?_⟩
    rintro rfl
    exact absurd hafter (by simp [Scan.AfterFraction])
  rw [List.nil_append] at h
  cases hfraction with
  | absent =>
    cases tail with
    | nil => cases h
    | cons ch tail =>
      obtain ⟨hch, hpoint⟩ := hdigit ch rfl
      exact absurd h (by simp [startsNumber, hch, hpoint])
  | digits =>
    obtain rfl : _ = [] := hfraction'
    cases tail with
    | nil => cases h
    | cons ch tail => exact absurd h (by simp [startsNumber, (hdigit ch rfl).1])

/-- The parts of a literal without a radix mark. -/
structure UnmarkedParts (kind : TokenKind) (text integer fraction exponent suffix : List Char) :
    Prop where
  text_eq : text = integer ++ (fraction ++ exponent) ++ suffix
  isInteger : IntegerText integer
  isFraction : ∃ pointed, FractionText pointed fraction
  isExponent : ∃ raised, ExponentText raised exponent
  isSuffix : SuffixText kind suffix
  digit : integer ≠ [] ∨ fraction.tail ≠ []
  plain : kind = .bigIntLiteral → fraction = [] ∧ exponent = []

theorem exists_unmarkedParts {kind : TokenKind} {text : List Char}
    (hfirst : startsNumber text = true) (h : NumberText kind text) (hmark : splitRadix? text = none) :
    ∃ integer fraction exponent suffix,
      UnmarkedParts kind text integer fraction exponent suffix := by
  cases h with
  | marked hmarked =>
    rw [hmark] at hmarked
    cases hmarked
  | @unmarked integer rest _ _ hinteger hrest =>
    obtain ⟨fraction, exponent, suffix, pointed, raised, rfl, hfraction, hexponent, hsuffix,
      hplain⟩ := exists_parts hrest
    have hne := digit_of_startsNumber hfraction
      (Scan.ahead_exponent_suffix hexponent hsuffix) hfirst
    exact ⟨integer, fraction, exponent, suffix, by simp only [List.append_assoc], hinteger,
      ⟨pointed, hfraction⟩, ⟨raised, hexponent⟩, hsuffix, hne, hplain⟩

namespace UnmarkedParts

variable {kind : TokenKind} {text integer fraction exponent suffix : List Char}
  (h : UnmarkedParts kind text integer fraction exponent suffix)

include h

/-- The mark of a big integer is that of the kind, and the digits are those in front of it. -/
theorem plainText_eq : isMarkedBig text = (kind == .bigIntLiteral) ∧
    plainText text = stripped (integer ++ (fraction ++ exponent)) := by
  obtain ⟨⟨pointed, hfraction⟩, raised, hexponent⟩ := And.intro h.isFraction h.isExponent
  have hlast : (integer ++ (fraction ++ exponent)).getLast? ≠ some 'n' := by
    intro hlast
    cases isDecimalChar_of_parts h.isInteger.digits hfraction hexponent 'n'
      (List.mem_of_getLast? hlast)
  rw [h.text_eq]
  exact isMarkedBig_append h.isSuffix hlast

/-- The digits are read in base eight just if they count as legacy octal. -/
theorem significand_eq : significand text =
    if isLegacyOctal (plainText text) then (8, (plainText text).drop 1)
    else (10, plainText text) := by
  obtain ⟨⟨pointed, hfraction⟩, raised, hexponent⟩ := And.intro h.isFraction h.isExponent
  have hchars : ∀ ch ∈ plainText text, isDecimalChar ch = true := by
    rw [h.plainText_eq.2]
    intro ch hch
    exact isDecimalChar_of_parts h.isInteger.digits hfraction hexponent ch (List.mem_of_mem_filter hch)
  rw [significand_eq_radixAndDigits, radixAndDigits, splitRadix?_decimal hchars, Option.getD_none]

/-- The digits can be read in base ten. -/
theorem isSome_read?_ten : (read? (kind == .bigIntLiteral) 10 (plainText text)).isSome = true := by
  obtain ⟨⟨pointed, hfraction⟩, raised, hexponent⟩ := And.intro h.isFraction h.isExponent
  rw [h.plainText_eq.2]
  exact isSome_read?_decimal h.isInteger.digits hfraction hexponent h.digit (by simpa using h.plain)

theorem isSome_read? : (read? (kind == .bigIntLiteral) (significand text).1
    (significand text).2).isSome = true := by
  rw [h.significand_eq]
  split_ifs with hoctal
  · exact isSome_read?_octal hoctal _
  · exact h.isSome_read?_ten

end UnmarkedParts

/-- What the scan takes for a number has a value, and the mark of its kind. -/
theorem exists_value? {kind : TokenKind} {text : String} (hfirst : startsNumber text.toList = true)
    (h : NumberText kind text.toList) :
    ∃ v, value? text = some v ∧ v.isBigInt = (kind == .bigIntLiteral) := by
  have hvalue (hmark : isMarkedBig text.toList = (kind == .bigIntLiteral))
      (hread : (read? (kind == .bigIntLiteral) (significand text.toList).1
        (significand text.toList).2).isSome = true) :
      ∃ v, value? text = some v ∧ v.isBigInt = (kind == .bigIntLiteral) := by
    obtain ⟨v, hv⟩ := Option.isSome_iff_exists.1 hread
    exact ⟨v, by rw [value?, hmark, hv], isBigInt_of_read? hv⟩
  generalize text.toList = chars at hfirst h hvalue
  cases h with
  | @marked _ digits suffix radix _ hmark hdigits hsuffix =>
    obtain ⟨mark, rfl, -, hn, -, hsplit⟩ := Scan.splitRadix?_eq_some hmark
    have hlast : ('0' :: mark :: digits).getLast? ≠ some 'n' := by
      intro hlast
      rw [List.getLast?_cons_of_ne_nil (List.cons_ne_nil _ _),
        List.getLast?_cons_of_ne_nil hdigits.ne_nil] at hlast
      have hdigit := hdigits.all 'n' (List.mem_of_getLast? hlast)
      rw [hn] at hdigit
      cases hdigit
    obtain ⟨hbig, hplain⟩ := isMarkedBig_append hsuffix hlast
    obtain ⟨hradix, hread⟩ := isSome_read?_marked hsplit hdigits (kind == .bigIntLiteral)
    refine hvalue hbig ?_
    rw [show '0' :: mark :: (digits ++ suffix) = '0' :: mark :: digits ++ suffix from rfl,
      significand_eq_radixAndDigits, hplain, hradix]
    exact hread
  | unmarked hmark hinteger hrest =>
    obtain ⟨integer, fraction, exponent, suffix, hparts⟩ :=
      exists_unmarkedParts hfirst (.unmarked hmark hinteger hrest) hmark
    exact hvalue hparts.plainText_eq.1 hparts.isSome_read?

end NumericLiteral

/-! ### Literal tokens -/

theorem Scan.wordKind_ne_literal (word : String) : wordKind word ≠ .stringLiteral ∧
    wordKind word ≠ .numericLiteral ∧ wordKind word ≠ .bigIntLiteral := by
  unfold wordKind
  split_ifs
  · simp
  · simp
  · split <;> simp

theorem NumberText.kind_eq {kind : TokenKind} {text : List Char} (h : NumberText kind text) :
    kind = .numericLiteral ∨ kind = .bigIntLiteral := by
  have hsuffix {suffix : List Char} (h : SuffixText kind suffix) :
      kind = .numericLiteral ∨ kind = .bigIntLiteral := by
    cases h <;> simp
  cases h with
  | marked _ _ h => exact hsuffix h
  | unmarked _ _ h =>
    cases h with
    | octal => simp
    | decimal _ _ _ h => exact hsuffix h

theorem TokenText.string_inv {text : List Char} (h : TokenText .stringLiteral text) :
    ∃ quote body, (quote = '\'' ∨ quote = '"') ∧ text = quote :: (body ++ [quote]) ∧
      StringBody quote body := by
  generalize hkind : TokenKind.stringLiteral = kind at h
  cases h with
  | word => exact absurd hkind.symm (Scan.wordKind_ne_literal _).1
  | privateName => cases hkind
  | punctuator => cases hkind
  | string hquote hbody => exact ⟨_, _, hquote, rfl, hbody⟩
  | number _ h => rcases h.kind_eq with rfl | rfl <;> cases hkind
  | lineBreak => cases hkind

theorem TokenText.number_inv {kind : TokenKind} {text : List Char} (h : TokenText kind text)
    (hkind : kind = .numericLiteral ∨ kind = .bigIntLiteral) :
    startsNumber text = true ∧ NumberText kind text := by
  cases h with
  | word =>
    obtain ⟨-, hnumeric, hbig⟩ := Scan.wordKind_ne_literal (String.ofList (_ :: _))
    exact absurd hkind (not_or.2 ⟨hnumeric, hbig⟩)
  | privateName => simp at hkind
  | punctuator => simp at hkind
  | string => simp at hkind
  | number hfirst h => exact ⟨hfirst, h⟩
  | lineBreak => simp at hkind

theorem Lexed.tokenText_of_mem {source : String} {t : Token} (h : t ∈ (ofString source).tokens) :
    TokenText t.kind t.text.toList := by
  obtain ⟨segments, rest, finish, error, -, htile, hlexed, -⟩ := ofString_tiles source
  rw [hlexed] at h
  exact Segment.tokenText_of_mem_tokensFrom htile h

/-- Every literal token has a value that is read off its whole text. A string fails in sloppy code
only at a malformed escape, and in strict code it has the same value or none. A number is read
without falling back on zero or NaN, as a big integer just if it is marked as one. -/
theorem Lexed.literal_tokens_decode {source : String} {t : Token}
    (ht : t ∈ (Lexed.ofString source).tokens) :
    (t.kind = .stringLiteral → ∃ quote body, (quote = '\'' ∨ quote = '"') ∧
      t.text.toList = quote :: (body ++ [quote]) ∧
      (∀ strict, ∃ r, StringLiteral.Decodes strict body r ∧
        StringLiteral.value strict t.text = r.map Units.mk) ∧
      (∀ err, StringLiteral.value false t.text = .error err → ∃ e rest,
        StringLiteral.Reaches false body ('\\' :: e :: rest) ∧
          StringLiteral.Malformed err e rest) ∧
      ∀ units, StringLiteral.value true t.text = .ok units →
        StringLiteral.value false t.text = .ok units) ∧
    (t.kind = .numericLiteral ∨ t.kind = .bigIntLiteral → ∃ v,
      NumericLiteral.value? t.text = some v ∧ NumericLiteral.value t.text = v ∧
        (v.isBigInt = true ↔ t.kind = .bigIntLiteral)) := by
  have htext := tokenText_of_mem ht
  refine ⟨fun hkind => ?_, fun hkind => ?_⟩
  · rw [hkind] at htext
    obtain ⟨quote, body, hquote, heq, hbody⟩ := htext.string_inv
    have hofList : t.text = String.ofList (quote :: (body ++ [quote])) := by
      rw [← heq, String.ofList_toList]
    obtain ⟨strictly, hstrict⟩ := StringLiteral.exists_decodes hbody true
    obtain ⟨sloppily, hsloppy⟩ := StringLiteral.exists_decodes hbody false
    refine ⟨quote, body, hquote, heq, ?_, ?_, ?_⟩
    · rintro (_ | _)
      · exact ⟨sloppily, hsloppy, by rw [hofList, hsloppy.value_eq]⟩
      · exact ⟨strictly, hstrict, by rw [hofList, hstrict.value_eq]⟩
    · intro err herr
      rw [hofList, hsloppy.value_eq] at herr
      cases sloppily with
      | error err' =>
        cases herr
        exact hsloppy.malformed rfl
      | ok units => cases herr
    · intro units hunits
      rw [hofList, hstrict.value_eq] at hunits
      cases strictly with
      | error err => cases hunits
      | ok us =>
        cases hunits
        rw [hofList, (StringLiteral.decodes_sloppy hstrict rfl).value_eq]
        rfl
  · obtain ⟨hfirst, hnumber⟩ := htext.number_inv hkind
    obtain ⟨v, hv, hbig⟩ := NumericLiteral.exists_value? hfirst hnumber
    refine ⟨v, hv, by rw [NumericLiteral.value_eq, hv, Option.getD_some], ?_⟩
    rw [hbig, beq_iff_eq]

theorem Lexed.literal_tokens_decode_malformed : ∃ string big,
    (Lexed.ofString "'\\08\\x4' 0x1_Fn").tokens = [string, big] ∧
      string.kind = .stringLiteral ∧ big.kind = .bigIntLiteral ∧
      StringLiteral.value false string.text = .error .invalidHexEscape ∧
      (∃ quote body e rest, string.text.toList = quote :: (body ++ [quote]) ∧
        StringLiteral.Reaches false body ('\\' :: e :: rest) ∧
        StringLiteral.Malformed .invalidHexEscape e rest) ∧
      ∃ v, NumericLiteral.value? big.text = some v ∧ v.isBigInt = true := by
  have htokens : (Lexed.ofString "'\\08\\x4' 0x1_Fn").tokens =
      [⟨.stringLiteral, "'\\08\\x4'", ⟨1, 0, 0⟩⟩, ⟨.bigIntLiteral, "0x1_Fn", ⟨1, 9, 9⟩⟩] := by cbv
  have hvalue : StringLiteral.value false "'\\08\\x4'" = .error .invalidHexEscape := by cbv
  obtain ⟨hstring, -⟩ := literal_tokens_decode (htokens ▸ List.mem_cons_self)
  obtain ⟨-, hbig⟩ := literal_tokens_decode (htokens ▸ List.mem_cons_of_mem _ List.mem_cons_self)
  obtain ⟨quote, body, -, htext, -, hmalformed, -⟩ := hstring rfl
  obtain ⟨e, rest, hreaches, hbad⟩ := hmalformed _ hvalue
  obtain ⟨v, hv, -, hkind⟩ := hbig (.inr rfl)
  exact ⟨_, _, htokens, rfl, rfl, hvalue, ⟨quote, body, e, rest, htext, hreaches, hbad⟩, v, hv,
    hkind.2 rfl⟩

end Ecma
