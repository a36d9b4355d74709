import Mathlib
import Ecma.Proofs.Literal.Numeral

/-! Numeric literals without a radix mark. A leading zero makes a literal octal in two ways: with a
digit right behind it, and with a separator between the two. -/

namespace Ecma

theorem DigitRun.of_stripped {p q : Char → Bool} {l : List Char} (hp : p '_' = false)
    (h : DigitRun p l) (hall : ∀ d ∈ stripped l, q d = true) : DigitRun q l := by
  have hne {d : Char} (hd : p d = true) : d ≠ '_' := by
    rintro rfl
    exact Bool.false_ne_true (hp.symm.trans hd)
  induction h with
  | one hd =>
    rw [stripped_cons (hne hd), List.forall_mem_cons] at hall
    exact .one hall.1
  | digit hd _ ih =>
    rw [stripped_cons (hne hd), List.forall_mem_cons] at hall
    exact .digit hall.1 (ih hall.2)
  | separated hd _ ih =>
    rw [stripped_cons (hne hd), List.forall_mem_cons] at hall
    exact .separated hall.1 (ih hall.2)

namespace NumericLiteral

/-- A zero, a separator and octal digits: once the separators are gone, a legacy literal. -/
def IsSeparatedOctal (kind : TokenKind) (text : List Char) : Prop :=
  ∃ digits suffix, text = '0' :: '_' :: (digits ++ suffix) ∧ DigitRun (isDigitIn 8) digits ∧
    SuffixText kind suffix

/-- The value of a literal that is read in base ten, or nothing where it has no digits. -/
def decimal? (text : String) : Option Numeric :=
  read? (isMarkedBig text.toList) 10 (plainText text.toList)

/-- The value of the digits behind a leading zero in base eight. -/
def octal? (text : String) : Option Numeric :=
  read? (isMarkedBig text.toList) 8 ((plainText text.toList).drop 1)

theorem isDigit_of_octal {ch : Char} (h : isDigitIn 8 ch = true) : ch.isDigit = true := by
  rw [isDigitIn, Option.isSome_iff_exists] at h
  obtain ⟨n, hn⟩ := h
  rw [digitIn, Option.filter_eq_some_iff, decide_eq_true_eq] at hn
  rw [← isDigitIn_ten, isDigitIn, digitIn, Option.isSome_iff_exists]
  exact ⟨n, Option.filter_eq_some_iff.2 ⟨hn.1, by simp; omega⟩⟩

theorem hasLeadingZero_cons (ch : Char) (tail : List Char) :
    hasLeadingZero (ch :: tail) = (ch == '0' && tail.head?.any Char.isDigit) := by
  by_cases hzero : ch = '0'
  · subst hzero
    cases tail <;> rfl
  · simp [hasLeadingZero, hzero]

namespace UnmarkedParts

variable {kind : TokenKind} {text integer fraction exponent suffix : List Char}
  (h : UnmarkedParts kind text integer fraction exponent suffix)

include h

/-- Legacy octal digits have no fraction and no exponent. -/
theorem text_of_octal (hall : ∀ d ∈ plainText text, isDigitIn 8 d = true) :
    text = integer ++ suffix ∧ plainText text = stripped integer := by
  obtain ⟨⟨pointed, hfraction⟩, raised, hexponent⟩ := And.intro h.isFraction h.isExponent
  have htext := h.text_eq
  have hplain := h.plainText_eq.2
  rw [hplain, stripped_append, stripped_append] at hall
  cases hfraction with
  | digits => exact absurd (hall '.' (by simp [stripped])) (by decide)
  | absent =>
    cases hexponent with
    | digits hmark =>
      obtain rfl | rfl := hmark
      · exact absurd (hall 'e' (by simp [stripped])) (by decide)
      · exact absurd (hall 'E' (by simp [stripped])) (by decide)
    | absent =>
      rw [List.append_nil, List.append_nil] at htext hplain
      exact ⟨htext, hplain⟩

theorem isSeparatedOctal (hzero : hasLeadingZero text = false)
    (hoctal : isLegacyOctal (plainText text) = true) : IsSeparatedOctal kind text := by
  rw [isLegacyOctal, Bool.and_eq_true, List.all_eq_true] at hoctal
  obtain ⟨hlegacy, hall⟩ := hoctal
  obtain ⟨htext, hplain⟩ := h.text_of_octal hall
  rw [hplain] at hlegacy hall
  have hrun : DigitRun (isDigitIn 8) integer := by
    refine (h.isInteger.digits.resolve_left ?_).of_stripped rfl hall
    rintro rfl
    cases hlegacy
  have hline {d : Char} (hd : isDigitIn 8 d = true) : d ≠ '_' := by
    rintro rfl
    cases hd
  rw [htext] at hzero ⊢
  cases hrun with
  | one hd =>
    rw [stripped_cons (hline hd), hasLeadingZero_cons] at hlegacy
    simp [stripped] at hlegacy
  | digit hd hds =>
    rw [stripped_cons (hline hd), hasLeadingZero_cons, Bool.and_eq_true] at hlegacy
    obtain ⟨e, es, rfl, he⟩ := hds.head
    rw [List.cons_append, hasLeadingZero_cons, hlegacy.1] at hzero
    simp [isDigit_of_octal he] at hzero
  | @separated d ds hd hds =>
    rw [stripped_cons (hline hd), hasLeadingZero_cons, Bool.and_eq_true, beq_iff_eq] at hlegacy
    obtain rfl := hlegacy.1
    exact ⟨ds, suffix, rfl, hds, h.isSuffix⟩

theorem isLegacyOctal_iff (hzero : hasLeadingZero text = false) :
    isLegacyOctal (plainText text) = true ↔ IsSeparatedOctal kind text := by
  refine ⟨h.isSeparatedOctal hzero, ?_⟩
  rintro ⟨digits, suffix, rfl, hdigits, hsuffix⟩
  have hlast : ('0' :: '_' :: digits).getLast? ≠ some 'n' := by
    intro hlast
    rw [List.getLast?_cons_of_ne_nil (List.cons_ne_nil _ _),
      List.getLast?_cons_of_ne_nil hdigits.ne_nil] at hlast
    cases hdigits.all 'n' (List.mem_of_getLast? hlast)
  have hplain : plainText ('0' :: '_' :: (digits ++ suffix)) = '0' :: stripped digits :=
    (isMarkedBig_append hsuffix hlast).2
  obtain ⟨d, ds, rfl, hd⟩ := hdigits.head
  have hline : d ≠ '_' := by
    rintro rfl
    cases hd
  have hall := hdigits.all_stripped
  rw [stripped_cons hline] at hplain hall
  rw [hplain, isLegacyOctal, hasLeadingZero_cons]
  simpa [isDigit_of_octal hd, show isDigitIn 8 '0' = true from rfl] using hall

end UnmarkedParts

theorem value_of_read? {text : String} {v : Numeric}
    (h : read? (isMarkedBig text.toList) (significand text.toList).1 (significand text.toList).2 =
      some v) : value text = v := by
  rw [value_eq, value?, h, Option.getD_some]

end NumericLiteral

/-- A numeric literal that is visibly not octal, with neither a radix mark nor a digit behind a
leading zero, is read in base ten, unless a separator hides the leading zero of octal digits: then it
is read in base eight, with no legacy mark that strict code could reject. -/
theorem Lexed.unmarked_literals_decimal {source : String} {t : Token}
    (ht : t ∈ (Lexed.ofString source).tokens)
    (hkind : t.kind = .numericLiteral ∨ t.kind = .bigIntLiteral)
    (hmark : splitRadix? t.text.toList = none) (hzero : hasLeadingZero t.text.toList = false) :
    (¬ NumericLiteral.IsSeparatedOctal t.kind t.text.toList → ∃ v,
      NumericLiteral.decimal? t.text = some v ∧ NumericLiteral.value t.text = v) ∧
    (NumericLiteral.IsSeparatedOctal t.kind t.text.toList → ∃ v,
      NumericLiteral.octal? t.text = some v ∧ NumericLiteral.value t.text = v) := by
  obtain ⟨hfirst, hnumber⟩ := (tokenText_of_mem ht).number_inv hkind
  obtain ⟨integer, fraction, exponent, suffix, hparts⟩ :=
    NumericLiteral.exists_unmarkedParts hfirst hnumber hmark
  rw [← hparts.isLegacyOctal_iff hzero]
  constructor
  · intro hoctal
    obtain ⟨v, hv⟩ := Option.isSome_iff_exists.1 hparts.isSome_read?_ten
    rw [← hparts.plainText_eq.1] at hv
    refine ⟨v, hv, NumericLiteral.value_of_read? ?_⟩
    rwa [hparts.significand_eq, if_neg hoctal]
  · intro hoctal
    obtain ⟨v, hv⟩ := Option.isSome_iff_exists.1
      (NumericLiteral.isSome_read?_octal hoctal (NumericLiteral.isMarkedBig t.text.toList))
    refine ⟨v, hv, NumericLiteral.value_of_read? ?_⟩
    rwa [hparts.significand_eq, if_pos hoctal]

theorem Lexed.unmarked_literals_decimal_separated : ∃ t, (Lexed.ofString "0_19n").tokens = [t] ∧
    splitRadix? t.text.toList = none ∧ hasLeadingZero t.text.toList = false ∧
    ¬ NumericLiteral.IsSeparatedOctal t.kind t.text.toList ∧
    NumericLiteral.decimal? t.text = some (.bigInt 19) ∧
    ∃ v, NumericLiteral.decimal? t.text = some v ∧ NumericLiteral.value t.text = v := by
  have htokens : (Lexed.ofString "0_19n").tokens = [⟨.bigIntLiteral, "0_19n", ⟨1, 0, 0⟩⟩] := by cbv
  have hmark : splitRadix? "0_19n".toList = none := by decide
  have hzero : hasLeadingZero "0_19n".toList = false := by decide
  have hdecimal : ¬ NumericLiteral.IsSeparatedOctal .bigIntLiteral "0_19n".toList := by
    rintro ⟨digits, suffix, htext, hdigits, hsuffix⟩
    cases hsuffix with
    | big =>
      obtain rfl : digits = ['1', '9'] :=
        List.append_cancel_right (List.cons.inj (List.cons.inj htext).2).2.symm
      cases hdigits.all '9' (by simp)
  have hvalue : NumericLiteral.decimal? "0_19n" = some (.bigInt 19) := by cbv
  exact ⟨_, htokens, hmark, hzero, hdecimal, hvalue,
    (unmarked_literals_decimal (htokens ▸ List.mem_cons_self) (.inr rfl) hmark hzero).1 hdecimal⟩

theorem Lexed.unmarked_literals_decimal_octal : ∃ t, (Lexed.ofString "0_17n").tokens = [t] ∧
    t.kind = .bigIntLiteral ∧ splitRadix? t.text.toList = none ∧
    hasLeadingZero t.text.toList = false ∧
    NumericLiteral.decimal? t.text = some (.bigInt 17) ∧
    NumericLiteral.value t.text = .bigInt 15 ∧ NumericLiteral.value t.text ≠ .bigInt 17 := by
  have htokens : (Lexed.ofString "0_17n").tokens = [⟨.bigIntLiteral, "0_17n", ⟨1, 0, 0⟩⟩] := by cbv
  have hdecimal : NumericLiteral.decimal? "0_17n" = some (.bigInt 17) := by cbv
  have hvalue : NumericLiteral.value "0_17n" = .bigInt 15 := by cbv
  refine ⟨_, htokens, rfl, rfl, rfl, hdecimal, hvalue, fun heq => ?_⟩
  cases hvalue.symm.trans heq

end Ecma
