import Ecma.Proofs.Literal.Numeral
import Ecma.Proofs.Text.Encoding
import Ecma.Value.Numeral

/-! The integers that strings write: blanks, an integer text or nothing, and blanks. The integer texts
are given by a grammar with the values of the digits by place, which the reading is compared with. -/

namespace Ecma

/-! ### Blanks -/

theorem char_le_iff {c d : Char} : c ≤ d ↔ c.toNat ≤ d.toNat :=
  Iff.rfl

/-- The blanks are the white space and the line terminators of source text. -/
theorem isBlank_iff (c : Char) :
    isBlank c = true ↔ isWhitespace c = true ∨ isLineTerminator c = true := by
  simp only [isBlank, isWhitespace, isLineTerminator, isSpace, isAscii, Bool.or_eq_true,
    Bool.and_eq_true, Bool.not_eq_true', beq_iff_eq, bne_iff_ne, decide_eq_true_eq,
    decide_eq_false_iff_not, ← Char.toNat_inj, char_le_iff, Char.reduceToNat, ne_eq]
  omega

/-- A character that has a value as a digit is a letter or digit of ASCII. -/
theorem digitValue_plain {c : Char} (h : (digitValue c).isSome = true) :
    isBlank c = false ∧ c ≠ '\uFFFD' := by
  have hrange : 48 ≤ c.toNat ∧ c.toNat ≤ 57 ∨ 97 ≤ c.toNat ∧ c.toNat ≤ 122 ∨
      65 ≤ c.toNat ∧ c.toNat ≤ 90 := by
    unfold digitValue at h
    split_ifs at h with hdigit hlower hupper
    · exact .inl hdigit
    · exact .inr (.inl hlower)
    · exact .inr (.inr hupper)
    · cases h
  constructor
  · rw [Bool.eq_false_iff]
    simp only [isBlank, isSpace, isAscii, Bool.or_eq_true, Bool.and_eq_true, Bool.not_eq_true',
      beq_iff_eq, bne_iff_ne, decide_eq_true_eq, decide_eq_false_iff_not, ← Char.toNat_inj,
      char_le_iff, Char.reduceToNat, ne_eq]
    omega
  · simp only [ne_eq, ← Char.toNat_inj, Char.reduceToNat]
    omega

section

variable {p : Char → Bool}

/-- What is trimmed off is at both ends and of the class. -/
theorem exists_trimBoth (p : Char → Bool) (text : List Char) : ∃ front back,
    text = front ++ trimBoth p text ++ back ∧ (∀ c ∈ front, p c = true) ∧
      ∀ c ∈ back, p c = true := by
  have hback := List.takeWhile_append_dropWhile (p := p) (l := (text.dropWhile p).reverse)
  have hmiddle : trimBoth p text ++ ((text.dropWhile p).reverse.takeWhile p).reverse =
      text.dropWhile p := by
    rw [trimBoth, ← List.reverse_append, hback, List.reverse_reverse]
  refine ⟨text.takeWhile p, ((text.dropWhile p).reverse.takeWhile p).reverse, ?_, ?_, ?_⟩
  · rw [List.append_assoc, hmiddle, List.takeWhile_append_dropWhile]
  · exact fun c hc => List.mem_takeWhile_imp hc
  · exact fun c hc => List.mem_takeWhile_imp (List.mem_reverse.1 hc)

/-- A text without characters of the class is what trimming leaves. -/
theorem trimBoth_eq {front core back : List Char} (hfront : ∀ c ∈ front, p c = true)
    (hcore : ∀ c ∈ core, p c = false) (hback : ∀ c ∈ back, p c = true) :
    trimBoth p (front ++ core ++ back) = core := by
  rw [trimBoth, List.append_assoc, List.dropWhile_append_of_pos hfront]
  cases core with
  | nil =>
    rw [List.nil_append, List.dropWhile_eq_nil_iff.2 hback]
    rfl
  | cons c core =>
    have hend : ((c :: core).reverse).dropWhile p = (c :: core).reverse := by
      rw [List.dropWhile_eq_self_iff]
      intro hpos
      rw [Bool.not_eq_true]
      exact hcore _ (List.mem_reverse.1 (List.getElem_mem hpos))
    rw [List.cons_append, List.dropWhile_cons_of_neg (by simp [hcore c]), ← List.cons_append,
      List.reverse_append, List.dropWhile_append_of_pos fun d hd => hback d (List.mem_reverse.1 hd),
      hend, List.reverse_reverse]

end

/-! ### The grammar -/

/-- The letters that mark a radix behind a zero. -/
def radixMarks : List (Char × Nat) :=
  [('x', 16), ('X', 16), ('o', 8), ('O', 8), ('b', 2), ('B', 2)]

/-- At least one digit, and nothing but digits of the radix. -/
structure IsRun (radix : Nat) (digits : List Char) : Prop where
  ne_nil : digits ≠ []
  all : ∀ d ∈ digits, isDigitIn radix d = true

/-- A text writes an integer: the empty one, decimal digits with an optional sign, or digits in a
radix behind its mark, without a sign. -/
inductive WritesInt : List Char → Int → Prop
  | empty : WritesInt [] 0
  | unsigned {digits : List Char} (h : IsRun 10 digits) : WritesInt digits (placeValue 10 digits)
  | plus {digits : List Char} (h : IsRun 10 digits) :
    WritesInt ('+' :: digits) (placeValue 10 digits)
  | minus {digits : List Char} (h : IsRun 10 digits) :
    WritesInt ('-' :: digits) (-placeValue 10 digits)
  | marked {mark : Char} {radix : Nat} {digits : List Char} (hmark : (mark, radix) ∈ radixMarks)
    (h : IsRun radix digits) : WritesInt ('0' :: mark :: digits) (placeValue radix digits)

theorem splitRadix?_eq_some_iff {text rest : List Char} {radix : Nat} :
    splitRadix? text = some (radix, rest) ↔
      ∃ mark, (mark, radix) ∈ radixMarks ∧ text = '0' :: mark :: rest := by
  constructor
  · intro h
    unfold splitRadix? at h
    split at h
    · next mark tail =>
      split_ifs at h with hx ho hb
      · cases h
        exact ⟨mark, by rcases hx with rfl | rfl <;> decide, rfl⟩
      · cases h
        exact ⟨mark, by rcases ho with rfl | rfl <;> decide, rfl⟩
      · cases h
        exact ⟨mark, by rcases hb with rfl | rfl <;> decide, rfl⟩
    · cases h
  · rintro ⟨mark, hmark, rfl⟩
    simp only [radixMarks, List.mem_cons, Prod.mk.injEq, List.not_mem_nil, or_false] at hmark
    rcases hmark with h | h | h | h | h | h <;> obtain ⟨rfl, rfl⟩ := h <;> rfl

theorem radixMark_range {mark : Char} {radix : Nat} (h : (mark, radix) ∈ radixMarks) :
    2 ≤ radix ∧ radix ≤ 36 := by
  have hall : ∀ m ∈ radixMarks, 2 ≤ m.2 ∧ m.2 ≤ 36 := by decide
  exact hall _ h

theorem isRun_iff {radix : Nat} {digits : List Char} :
    IsRun radix digits ↔ (digits.isEmpty || !digits.all (isDigitIn radix)) = false := by
  rw [Bool.or_eq_false_iff, List.isEmpty_eq_false_iff, Bool.not_eq_false', List.all_eq_true]
  exact ⟨fun h => ⟨h.ne_nil, h.all⟩, fun h => ⟨h.1, h.2⟩⟩

theorem isRun_ten_iff {digits : List Char} :
    IsRun 10 digits ↔ (digits.isEmpty || !digits.all Char.isDigit) = false := by
  rw [isRun_iff, funext isDigitIn_ten]

/-- No run of decimal digits has a radix mark. -/
theorem IsRun.splitRadix?_eq_none {digits : List Char} (h : IsRun 10 digits) :
    splitRadix? digits = none := by
  rw [Option.eq_none_iff_forall_ne_some]
  rintro ⟨radix, rest⟩ hsplit
  obtain ⟨mark, hmark, rfl⟩ := splitRadix?_eq_some_iff.1 hsplit
  have hdigit := h.all mark (by simp)
  have hletters : ∀ m ∈ radixMarks, isDigitIn 10 m.1 = false := by decide
  rw [hletters _ hmark] at hdigit
  cases hdigit

theorem IsRun.readDigitsFrom_eq {radix : Nat} {digits : List Char} (h : IsRun radix digits) :
    readDigitsFrom radix 0 digits = some (placeValue radix digits) := by
  rw [Ecma.readDigitsFrom_eq 0 h.all, Nat.zero_mul, Nat.zero_add]

section

variable [IntegerFormat] {text : List Char} {i : Int}

/-- A text of the grammar passes the guards, and its digits are read with their sign. -/
theorem WritesInt.intOfText?_eq (h : WritesInt text i) : intOfText? text = some i := by
  cases h with
  | empty => rfl
  | unsigned hrun =>
    rw [intOfText?, if_neg (by simpa using hrun.ne_nil), hrun.splitRadix?_eq_none]
    dsimp only
    rw [splitSign_digits hrun.all]
    dsimp only
    rw [isRun_ten_iff.mp hrun, if_neg Bool.false_ne_true]
    exact IntegerFormat.read?_digits (by decide) (by decide) hrun.ne_nil hrun.readDigitsFrom_eq
  | @plus digits hrun =>
    change (if (digits.isEmpty || !digits.all Char.isDigit) = true then none
      else IntegerFormat.read? 10 ('+' :: digits)) = _
    rw [isRun_ten_iff.mp hrun, if_neg Bool.false_ne_true]
    exact IntegerFormat.read?_plus (by decide) (by decide) hrun.ne_nil hrun.readDigitsFrom_eq
  | @minus digits hrun =>
    change (if (digits.isEmpty || !digits.all Char.isDigit) = true then none
      else IntegerFormat.read? 10 ('-' :: digits)) = _
    rw [isRun_ten_iff.mp hrun, if_neg Bool.false_ne_true]
    exact IntegerFormat.read?_minus (by decide) (by decide) hrun.ne_nil hrun.readDigitsFrom_eq
  | marked hmark hrun =>
    obtain ⟨hlow, hhigh⟩ := radixMark_range hmark
    rw [intOfText?, if_neg (by simp), splitRadix?_eq_some_iff.2 ⟨_, hmark, rfl⟩]
    dsimp only
    rw [isRun_iff.mp hrun, if_neg Bool.false_ne_true]
    exact IntegerFormat.read?_digits hlow hhigh hrun.ne_nil hrun.readDigitsFrom_eq

/-- The guards let nothing but texts of the grammar through. -/
theorem exists_writesInt_of_intOfText? (h : intOfText? text = some i) : ∃ j, WritesInt text j := by
  unfold intOfText? at h
  split_ifs at h with hempty
  · exact ⟨0, List.isEmpty_iff.1 hempty ▸ .empty⟩
  split at h
  · next radix digits hsplit =>
    obtain ⟨mark, hmark, rfl⟩ := splitRadix?_eq_some_iff.1 hsplit
    split_ifs at h with hguard
    exact ⟨_, .marked hmark (isRun_iff.mpr (Bool.not_eq_true _ ▸ hguard))⟩
  · dsimp only at h
    split_ifs at h with hguard
    have hrun : IsRun 10 (splitSign text).2 := isRun_ten_iff.mpr (Bool.not_eq_true _ ▸ hguard)
    unfold splitSign at hrun
    split at hrun
    · exact ⟨_, .minus hrun⟩
    · exact ⟨_, .plus hrun⟩
    · exact ⟨_, .unsigned hrun⟩

/-- The reading takes just the texts of the grammar. -/
theorem intOfText?_eq_some_iff : intOfText? text = some i ↔ WritesInt text i := by
  refine ⟨fun h => ?_, WritesInt.intOfText?_eq⟩
  obtain ⟨j, hj⟩ := exists_writesInt_of_intOfText? h
  obtain rfl : i = j := Option.some.inj (h.symm.trans hj.intOfText?_eq)
  exact hj

end

/-- Digits are no blanks, and none stands for a lone surrogate. -/
theorem IsRun.plain {radix : Nat} {digits : List Char} (h : IsRun radix digits) :
    ∀ c ∈ digits, isBlank c = false ∧ c ≠ '\uFFFD' := by
  intro c hc
  have hsome := h.all c hc
  rw [isDigitIn, digitIn] at hsome
  obtain ⟨n, hn⟩ := Option.isSome_iff_exists.1 hsome
  exact digitValue_plain (Option.isSome_iff_exists.2 ⟨n, (Option.filter_eq_some_iff.1 hn).1⟩)

theorem radixMark_plain {mark : Char} {radix : Nat} (h : (mark, radix) ∈ radixMarks) :
    isBlank mark = false ∧ mark ≠ '\uFFFD' := by
  have hletters : ∀ m ∈ radixMarks, (digitValue m.1).isSome = true := by decide
  exact digitValue_plain (hletters _ h)

/-- A text of the grammar has no blank, and nothing that stands for a lone surrogate. -/
theorem WritesInt.plain {text : List Char} {i : Int} (h : WritesInt text i) :
    ∀ c ∈ text, isBlank c = false ∧ c ≠ '\uFFFD' := by
  cases h with
  | empty => simp
  | unsigned hrun => exact hrun.plain
  | plus hrun => exact List.forall_mem_cons.2 ⟨by decide, hrun.plain⟩
  | minus hrun => exact List.forall_mem_cons.2 ⟨by decide, hrun.plain⟩
  | marked hmark hrun =>
    exact List.forall_mem_cons.2 ⟨by decide,
      List.forall_mem_cons.2 ⟨radixMark_plain hmark, hrun.plain⟩⟩

/-- Where the texts of a class have no blank, and nothing that stands for a lone surrogate, what
trimming leaves is one just if the string is blanks, such a text, and blanks. -/
theorem trimBoth_chars_iff {p : List Char → Prop}
    (hp : ∀ text, p text → ∀ c ∈ text, isBlank c = false ∧ c ≠ '\uFFFD') {s : Units} :
    p (trimBoth isBlank s.chars) ↔ ∃ front text back,
      s = Units.ofChars (front ++ text ++ back) ∧ (∀ c ∈ front, isBlank c = true) ∧
        (∀ c ∈ back, isBlank c = true) ∧ p text := by
  constructor
  · intro h
    obtain ⟨front, back, hchars, hfront, hback⟩ := exists_trimBoth isBlank s.chars
    have hblank (c : Char) (hc : isBlank c = true) : c ≠ '\uFFFD' := by
      rintro rfl
      exact absurd hc (by decide)
    have hwhole : '\uFFFD' ∉ s.chars := by
      rw [hchars, List.mem_append, List.mem_append]
      rintro ((hc | hc) | hc)
      · exact hblank _ (hfront _ hc) rfl
      · exact (hp _ h _ hc).2 rfl
      · exact hblank _ (hback _ hc) rfl
    exact ⟨front, _, back, by rw [← hchars, Units.ofChars_chars hwhole], hfront, hback, h⟩
  · rintro ⟨front, text, back, rfl, hfront, hback, h⟩
    rwa [Units.chars_ofChars, trimBoth_eq hfront (fun c hc => (hp _ h c hc).1) hback]

/-- A string writes an integer just if it is blanks, a text of the grammar, and blanks. -/
theorem intOfUnits?_eq_some_iff [IntegerFormat] {s : Units} {i : Int} : intOfUnits? s = some i ↔
    ∃ front text back, s = Units.ofChars (front ++ text ++ back) ∧
      (∀ c ∈ front, isBlank c = true) ∧ (∀ c ∈ back, isBlank c = true) ∧ WritesInt text i := by
  rw [intOfUnits?, intOfText?_eq_some_iff]
  exact trimBoth_chars_iff (p := (WritesInt · i)) fun _ => WritesInt.plain

/-! ### Numerals -/

theorem numeralBefore_ne_nil (radix n : Nat) (tail : List Char) :
    numeralBefore radix n tail ≠ [] := by
  fun_induction numeralBefore radix n tail with
  | case1 _ _ _ ih => exact ih
  | case2 => exact List.cons_ne_nil _ _

/-- The numeral of a number is a run of digits that write it. -/
theorem isRun_numeral (n : Nat) :
    IsRun 10 (numeralBefore 10 n []) ∧ placeValue 10 (numeralBefore 10 n []) = n := by
  have hread : readDigitsFrom 10 0 (numeralBefore 10 n []) = some n :=
    readDigitsFrom_numeralBefore (by decide) (by decide) n []
  obtain ⟨hdigits, hvalue⟩ := readDigitsFrom_eq_some_iff.1 hread
  refine ⟨⟨numeralBefore_ne_nil 10 n [], hdigits⟩, ?_⟩
  rw [Nat.zero_mul, Nat.zero_add] at hvalue
  exact hvalue.symm

theorem writesInt_write [IntegerFormat] (i : Int) : WritesInt (IntegerFormat.write 10 i).toList i := by
  obtain ⟨hrun, hvalue⟩ := isRun_numeral i.natAbs
  rw [IntegerFormat.write_eq (by decide) (by decide)]
  unfold intNumeral numeral
  split
  · next hneg =>
    have h := WritesInt.minus hrun
    rw [hvalue, show -(i.natAbs : Int) = i by omega] at h
    simpa using h
  · next hpos =>
    have h := WritesInt.unsigned hrun
    rw [hvalue, show (i.natAbs : Int) = i by omega] at h
    simpa using h

/-- A text of the grammar is read as it stands. -/
theorem WritesInt.intOfUnits?_eq [IntegerFormat] {text : List Char} {i : Int} (h : WritesInt text i) :
    intOfUnits? (Units.ofChars text) = some i :=
  intOfUnits?_eq_some_iff.2 ⟨[], text, [], by simp, by simp, by simp, h⟩

/-! ### Literals -/

namespace NumericLiteral

/-- Digits without separators. -/
theorem isRun_of_digitRun {p : Char → Bool} {radix : Nat} {digits : List Char}
    (hp : ∀ d, p d = true → isDigitIn radix d = true) (h : DigitRun p digits) (hline : '_' ∉ digits) :
    IsRun radix digits := by
  refine ⟨h.ne_nil, fun d hd => ?_⟩
  have hdigit := h.all d hd
  rw [Bool.or_eq_true, beq_iff_eq] at hdigit
  refine hp d (hdigit.resolve_right ?_)
  rintro rfl
  exact hline hd

/-- The text of a literal of a big integer without separators is a text of the grammar and the mark
behind it, and its digits are read as the integer that the text writes. -/
theorem exists_writesInt [IntegerFormat] {text : List Char} (hfirst : startsNumber text = true)
    (h : NumberText .bigIntLiteral text) (hline : '_' ∉ text) :
    ∃ core i, text = core ++ ['n'] ∧ WritesInt core i ∧
      IntegerFormat.read? (radixAndDigits core).1 (radixAndDigits core).2 = some i := by
  cases h with
  | @marked _ digits suffix radix _ hmark hdigits hsuffix =>
    cases hsuffix with
    | big =>
      obtain ⟨mark, hmem, rfl⟩ := splitRadix?_eq_some_iff.1 hmark
      have hrun : IsRun radix digits :=
        isRun_of_digitRun (fun _ hd => hd) hdigits fun hd => hline (by simp [hd])
      refine ⟨'0' :: mark :: digits, _, rfl, .marked hmem hrun, ?_⟩
      obtain ⟨hlow, hhigh⟩ := radixMark_range hmem
      rw [radixAndDigits, splitRadix?_eq_some_iff.2 ⟨mark, hmem, rfl⟩]
      exact read?_run hlow hhigh hrun.ne_nil hrun.all
  | @unmarked integer rest _ hmark hinteger hrest =>
    cases hrest with
    | @decimal fraction exponent suffix pointed raised _ hoctal hfraction hexponent hsuffix hplain =>
      have hflags := hplain rfl
      cases hsuffix with
      | big =>
        cases hfraction with
        | digits => cases hflags
        | absent =>
          cases hexponent with
          | digits => cases hflags
          | absent =>
            have hzero : hasLeadingZero integer = false := by simpa using hflags
            have hdigits : DigitRun Char.isDigit integer := by
              refine hinteger.digits.resolve_left ?_
              rintro rfl
              exact absurd hfirst (by decide)
            have hrun : IsRun 10 integer :=
              isRun_of_digitRun (fun d hd => (isDigitIn_ten d).trans hd) hdigits
                fun hd => hline (by simp [hd])
            refine ⟨integer, _, rfl, .unsigned hrun, ?_⟩
            rw [radixAndDigits, hrun.splitRadix?_eq_none, isLegacyOctal, hzero]
            change IntegerFormat.read? 10 integer = _
            exact read?_run (by decide) (by decide) hrun.ne_nil hrun.all

theorem value_marked [IntegerFormat] {text : String} {core : List Char}
    (htext : text.toList = core ++ ['n']) (hline : '_' ∉ core) {i : Int}
    (hread : IntegerFormat.read? (radixAndDigits core).1 (radixAndDigits core).2 = some i) :
    value text = .bigInt i := by
  have hplain : core.filter (· != '_') = core :=
    List.filter_eq_self.2 fun d hd => bne_iff_ne.2 fun h => hline (h ▸ hd)
  have hmark : ((core ++ ['n']).getLast? == some 'n') = true := by simp
  simp only [value, htext, hmark, if_true, List.dropLast_concat, hplain, hread, Option.getD_some]

end NumericLiteral

/-- A string writes an integer just if it is a text of the grammar between white space and line
terminators, and then that one, whatever else the reading of integers takes. The numeral of every
integer is read as it, and so is the text of a literal of a big integer without separators, up to its
mark. -/
theorem integer_strings [IntegerFormat] :
    (∀ (s : Units) (i : Int), intOfUnits? s = some i ↔ ∃ front text back,
      s = Units.ofChars (front ++ text ++ back) ∧
        (∀ c ∈ front ++ back, isWhitespace c = true ∨ isLineTerminator c = true) ∧
        WritesInt text i) ∧
    (∀ i : Int, intOfUnits? (Units.ofString (IntegerFormat.write 10 i)) = some i) ∧
    ∀ (source : String) (t : Token), t ∈ (Lexed.ofString source).tokens →
      t.kind = .bigIntLiteral → '_' ∉ t.text.toList →
      ∃ core i, t.text.toList = core ++ ['n'] ∧ intOfUnits? (Units.ofChars core) = some i ∧
        NumericLiteral.value t.text = .bigInt i := by
  refine ⟨fun s i => ?_, fun i => (writesInt_write i).intOfUnits?_eq, ?_⟩
  · rw [intOfUnits?_eq_some_iff]
    simp only [← isBlank_iff, List.forall_mem_append, and_assoc]
  · intro source t ht hkind hline
    obtain ⟨hfirst, hnumber⟩ := (Lexed.tokenText_of_mem ht).number_inv (.inr hkind)
    rw [hkind] at hnumber
    obtain ⟨core, i, htext, hwrites, hread⟩ :=
      NumericLiteral.exists_writesInt hfirst hnumber hline
    have hcore : '_' ∉ core := fun h => hline (htext ▸ List.mem_append_left _ h)
    exact ⟨core, i, htext, hwrites.intOfUnits?_eq, NumericLiteral.value_marked htext hcore hread⟩

/-- A literal in base sixteen. A text that the reading takes although it is no run of digits writes
no integer. -/
theorem integer_strings_hexadecimal :
    (∃ t, (Lexed.ofString " 0X1Fn").tokens = [t] ∧
      t.kind = .bigIntLiteral ∧ '_' ∉ t.text.toList ∧
      ∃ core i, t.text.toList = core ++ ['n'] ∧ intOfUnits? (Units.ofChars core) = some i ∧
        NumericLiteral.value t.text = .bigInt i) ∧
    IntegerFormat.read? 10 "1_000".toList = some 1000 ∧
    intOfUnits? (Units.ofString "1_000") = none := by
  have htokens : (Lexed.ofString " 0X1Fn").tokens = [⟨.bigIntLiteral, "0X1Fn", ⟨1, 1, 1⟩⟩] := by cbv
  have hline : '_' ∉ "0X1Fn".toList := by decide
  exact ⟨⟨_, htokens, rfl, hline,
    integer_strings.2.2 " 0X1Fn" _ (htokens ▸ List.mem_cons_self) rfl hline⟩, by decide, by decide⟩

end Ecma
