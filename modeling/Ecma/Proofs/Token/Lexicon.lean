import Mathlib
import Ecma.Proofs.Token.Literal

/-! The texts of each category of token. What a scan finds is such a text, and such a text before a
space or the end is found. -/

namespace Ecma

/-! ### Texts of tokens -/

/-- A line break: a line terminator, or CR LF. -/
def IsLineBreak (text : List Char) : Prop :=
  text = ['\r', '\n'] ∨ ∃ ch, text = [ch] ∧ isLineTerminator ch = true

theorem IsLineBreak.exists_cons {text : List Char} (h : IsLineBreak text) :
    ∃ ch more, text = ch :: more ∧ isLineTerminator ch = true := by
  rcases h with rfl | ⟨ch, rfl, hch⟩
  · exact ⟨_, _, rfl, by decide⟩
  · exact ⟨ch, [], rfl, hch⟩

/-- A number starts with a digit, or with a point before a digit. -/
def startsNumber : List Char → Bool
  | '.' :: ch :: _ => ch.isDigit
  | ch :: _ => ch.isDigit
  | [] => false

/-- The texts of each category of token. -/
inductive TokenText [XidTable] : TokenKind → List Char → Prop
  | word {first : Char} {more : List Char} (hfirst : isIdentifierStart first = true)
    (hmore : ∀ ch ∈ more, isIdentifierContinue ch = true) :
    TokenText (Scan.wordKind (String.ofList (first :: more))) (first :: more)
  | privateName {first : Char} {more : List Char} (hfirst : isIdentifierStart first = true)
    (hmore : ∀ ch ∈ more, isIdentifierContinue ch = true) :
    TokenText .privateName ('#' :: first :: more)
  | punctuator (p : Punctuator) : TokenText (.punctuator p) p.text.toList
  | string {quote : Char} {body : List Char} (hquote : quote = '\'' ∨ quote = '"')
    (hbody : StringBody quote body) : TokenText .stringLiteral (quote :: (body ++ [quote]))
  | number {kind : TokenKind} {text : List Char} (hfirst : startsNumber text = true)
    (h : NumberText kind text) : TokenText kind text
  | lineBreak {text : List Char} (h : IsLineBreak text) : TokenText .lineTerminator text

namespace Scan

variable {c c' : Cursor} {ch : Char} {kind : TokenKind} {rest : List Char}

theorem skip_bind {β : Type} (n : Nat) (f : Unit → Scan β) (c : Cursor) :
    (skip n >>= f) c = f () (c.advanceBy n) := rfl

/-! ### What is found is a token -/

/-- The text of a token stands between two positions. -/
def Spans [XidTable] (c : Cursor) (kind : TokenKind) (c' : Cursor) : Prop :=
  ∃ text tail, c.rest = text ++ tail ∧ c' = c.advanceBy text.length ∧ TokenText kind text

theorem stringLiteral_eq (hc : c.rest = ch :: rest) {n : Nat} {closed : Bool}
    (hlength : stringLength ch rest = (n, closed)) : stringLiteral ch c =
      (if closed = true then pure .stringLiteral else fail .unterminatedString)
        (c.advanceBy (n + 1)) := by
  have hrest : (c.advanceBy 1).rest = rest := by rw [Cursor.advanceBy_rest, hc]; rfl
  rw [Nat.add_comm, Cursor.advanceBy_add, stringLiteral, skip_bind, get_bind, hrest, hlength]
  rfl

theorem spans_stringLiteral [XidTable] (hquote : ch = '\'' ∨ ch = '"') (hc : c.rest = ch :: rest)
    (h : stringLiteral ch c = .ok kind c') : Spans c kind c' := by
  obtain ⟨n, closed, hlength⟩ : ∃ n closed, stringLength ch rest = (n, closed) := ⟨_, _, rfl⟩
  rw [stringLiteral_eq hc hlength] at h
  cases closed with
  | false => cases h
  | true =>
    cases h
    obtain ⟨body, tail, rfl, rfl, hbody⟩ := stringBody_of_stringLength hlength
    refine ⟨ch :: (body ++ [ch]), tail, by rw [hc]; simp, ?_, .string hquote hbody⟩
    rw [List.length_cons, List.length_append, List.length_singleton]

theorem spans_word [XidTable] (hfirst : isIdentifierStart ch = true) (hc : c.rest = ch :: rest)
    (h : word c = .ok kind c') : Spans c kind c' := by
  have hspan : c.span isIdentifierContinue = ch :: rest.takeWhile isIdentifierContinue := by
    rw [Cursor.span, hc, List.takeWhile_cons_of_pos (isIdentifierContinue_of_start hfirst)]
  unfold word at h
  rw [bind_ok (take_eq _ _), hspan, get_bind] at h
  split at h
  · obtain ⟨_, _, hfail, -⟩ := bind_eq_ok h
    cases hfail
  · cases h
    exact ⟨_, rest.dropWhile isIdentifierContinue, by simp [hc], rfl,
      .word hfirst fun ch hch => List.mem_takeWhile_imp hch⟩

theorem spans_privateName [XidTable] {first : Char} (hfirst : isIdentifierStart first = true)
    (hc : c.rest = '#' :: first :: rest) (h : (do
      skip 1
      let _ ← take isIdentifierContinue
      return TokenKind.privateName) c = .ok kind c') : Spans c kind c' := by
  have hspan : (c.advanceBy 1).span isIdentifierContinue =
      first :: rest.takeWhile isIdentifierContinue := by
    rw [Cursor.span, Cursor.advanceBy_rest, hc]
    exact List.takeWhile_cons_of_pos (isIdentifierContinue_of_start hfirst)
  rw [skip_bind, bind_ok (take_eq _ _), hspan] at h
  cases h
  refine ⟨'#' :: first :: rest.takeWhile isIdentifierContinue, rest.dropWhile isIdentifierContinue,
    by simp [hc], ?_, .privateName hfirst fun ch hch => List.mem_takeWhile_imp hch⟩
  rw [← Cursor.advanceBy_add, Nat.add_comm]
  rfl

theorem punctuator_ok (h : punctuator ch c = .ok kind c') : ∃ p tail, kind = .punctuator p ∧
    c.rest = p.text.toList ++ tail ∧ c' = c.advanceBy p.text.toList.length := by
  unfold punctuator at h
  rw [get_bind] at h
  split at h
  · next hquestion =>
    cases h
    rw [Bool.and_eq_true] at hquestion
    obtain ⟨tail, htail⟩ := List.isPrefixOf_iff_prefix.1 hquestion.1
    exact ⟨.question, '.' :: tail, rfl, by rw [← htail]; rfl, rfl⟩
  · cases hfind : Punctuator.byLength.find? fun p => c.startsWith p.text.toList with
    | none =>
      rw [hfind] at h
      cases h
    | some p =>
      rw [hfind] at h
      cases h
      have hstarts : c.startsWith p.text.toList = true := by simpa using List.find?_some hfind
      obtain ⟨tail, htail⟩ := List.isPrefixOf_iff_prefix.1 hstarts
      exact ⟨p, tail, rfl, htail.symm, by rw [String.length_toList]⟩

theorem spans_punctuator [XidTable] (h : punctuator ch c = .ok kind c') : Spans c kind c' := by
  obtain ⟨p, tail, rfl, hc, rfl⟩ := punctuator_ok h
  exact ⟨_, tail, hc, rfl, .punctuator p⟩

/-- A point is taken with the fraction after it. -/
theorem fractionPart_point {b : Bool} {tail : List Char} (hc : c.rest = '.' :: tail)
    (h : fractionPart c = .ok b c') : b = true := by
  have heat : eat '.' c = .ok true (c.advanceBy 1) := by
    rw [eat, get_bind, Cursor.peek?, hc]
    rfl
  rw [fractionPart, bind_ok heat, if_pos rfl] at h
  obtain ⟨fraction, c₁, -, h⟩ := bind_eq_ok h
  dsimp only at h
  split at h
  · obtain ⟨_, c₂, -, h⟩ := bind_eq_ok h
    cases h
    rfl
  · cases h
    rfl

theorem decimalLiteral_point {tail : List Char} (hc : c.rest = '.' :: tail)
    (h : decimalLiteral c = .ok kind c') : c'.rest ≠ c.rest := by
  have htake : take isDigitOrSeparator c = .ok [] c := by
    rw [take_eq, Cursor.span, hc]
    rfl
  rw [decimalLiteral, bind_ok htake] at h
  obtain ⟨pointed, c₁, hfraction, h⟩ := bind_eq_ok (h : decimalRest false c = _)
  obtain ⟨raised, c₂, hexponent, h⟩ := bind_eq_ok h
  obtain rfl := fractionPart_point hc hfraction
  obtain ⟨_, _, -, rfl, htext⟩ := takes_fractionPart.sound hfraction
  obtain ⟨_, _, -, rfl, -⟩ := takes_exponentPart.sound hexponent
  obtain ⟨_, _, -, rfl, -⟩ := (takes_suffix _).sound h
  intro heq
  have hlength := congrArg List.length heq
  cases htext
  simp only [Cursor.advanceBy_rest, List.length_drop, List.length_cons, hc] at hlength
  omega

/-- A number ends where its digits do, and no other digit comes next. -/
theorem numericLiteral_end [XidTable] (h : numericLiteral c = .ok kind c') :
    (splitRadix? c.rest = none → decimalLiteral c = .ok kind c') ∧
      ∀ ch ∈ c'.rest.head?, ch.isDigit = false := by
  have hend {x : Scan TokenKind} (h : (x >>= fun kind => get >>= fun c =>
      if (c.peek?.any fun ch => isIdentifierStart ch || ch.isDigit) = true then
        (fail .invalidNumber : Scan Unit) >>= fun _ => pure kind
      else pure kind) c = .ok kind c') :
      x c = .ok kind c' ∧ ∀ ch ∈ c'.rest.head?, ch.isDigit = false := by
    obtain ⟨kind', c₁, hx, h⟩ := bind_eq_ok h
    rw [get_bind] at h
    split at h
    · obtain ⟨_, _, hfail, -⟩ := bind_eq_ok h
      cases hfail
    · next hnext =>
      cases h
      refine ⟨hx, fun ch hch => ?_⟩
      rw [Cursor.peek?, hch, Option.any_some, Bool.not_eq_true, Bool.or_eq_false_iff] at hnext
      exact hnext.2
  rw [numericLiteral, get_bind] at h
  cases hsplit : splitRadix? c.rest with
  | none =>
    rw [hsplit] at h
    exact ⟨fun _ => (hend h).1, (hend h).2⟩
  | some split =>
    rw [hsplit] at h
    exact ⟨by simp, (hend h).2⟩

theorem startsNumber_cons {ch : Char} (h : ch.isDigit = true) (text : List Char) :
    startsNumber (ch :: text) = true := by
  unfold startsNumber
  split
  · next heq =>
    cases heq
    cases h
  · next heq =>
    cases heq
    exact h
  · next heq => cases heq

/-- What comes after a number does not decide that it is one. -/
theorem startsNumber_of_append {text tail : List Char} (h : startsNumber (text ++ tail) = true)
    (hne : text ≠ []) (htail : ∀ ch ∈ tail.head?, ch.isDigit = false) :
    startsNumber text = true := by
  match text with
  | [] => exact absurd rfl hne
  | [ch] =>
    by_cases hpoint : ch = '.'
    · subst hpoint
      cases tail with
      | nil => cases h
      | cons d tail => exact absurd h (by simp [startsNumber, htail d rfl])
    · simpa [startsNumber, hpoint] using h
  | first :: second :: more =>
    by_cases hpoint : first = '.'
    · subst hpoint
      exact h
    · simpa [startsNumber, hpoint] using h

theorem spans_numericLiteral [XidTable] (hfirst : startsNumber c.rest = true)
    (h : numericLiteral c = .ok kind c') : Spans c kind c' := by
  obtain ⟨text, tail, hc, rfl, hnumber⟩ := takes_numericLiteral.sound h
  obtain ⟨hdecimal, htail⟩ := numericLiteral_end h
  rw [Cursor.advanceBy_rest, hc, List.drop_left] at htail
  refine ⟨text, tail, hc, rfl, .number (startsNumber_of_append (hc ▸ hfirst) ?_ htail) hnumber⟩
  rintro rfl
  rw [List.nil_append] at hc
  rw [hc] at hfirst
  match tail with
  | [] => cases hfirst
  | ch :: more =>
    by_cases hpoint : ch = '.'
    · subst hpoint
      exact decimalLiteral_point hc (hdecimal (by rw [hc]; rfl)) rfl
    · have hdigit : ch.isDigit = true := by simpa [startsNumber, hpoint] using hfirst
      exact Bool.false_ne_true ((htail ch rfl).symm.trans hdigit)

theorem significant_sound [XidTable] (hc : c.rest = ch :: rest)
    (h : significant ch c = .ok kind c') : Spans c kind c' := by
  have hnext : c.peekNth? 1 = rest.head? := by
    rw [Cursor.peekNth?, hc]
    cases rest <;> rfl
  unfold significant at h
  rw [get_bind, hnext] at h
  split_ifs at h with hquote hdigit hpoint hhash htick hword
  · exact spans_stringLiteral hquote hc h
  · exact spans_numericLiteral (by rw [hc]; exact startsNumber_cons hdigit rest) h
  · obtain ⟨rfl, hdigit⟩ := hpoint
    cases rest with
    | nil => cases hdigit
    | cons d rest => exact spans_numericLiteral (by rw [hc]; exact hdigit) h
  · obtain ⟨rfl, hfirst⟩ := hhash
    cases rest with
    | nil => cases hfirst
    | cons first rest => exact spans_privateName hfirst hc h
  · cases h
  · exact spans_word hword hc h
  · exact spans_punctuator h

/-! ### Tokens are found -/

theorem mem_of_isDigit (h : ch.isDigit = true) : ch ∈ "0123456789".toList := by
  simp only [Char.isDigit, Bool.and_eq_true, decide_eq_true_eq, ge_iff_le,
    UInt32.le_iff_toNat_le] at h
  have hlow : 48 ≤ ch.toNat := h.1
  have hhigh : ch.toNat ≤ 57 := h.2
  rw [← Char.ofNat_toNat ch]
  generalize ch.toNat = n at hlow hhigh
  interval_cases n <;> decide

/-- The first character of a string, a number or a private name. -/
def startsLiteral (ch : Char) : Bool :=
  ch == '\'' || ch == '"' || ch == '#' || ch == '.' || ch.isDigit

theorem startsLiteral_class (h : startsLiteral ch = true) :
    isWhitespace ch = false ∧ isLineTerminator ch = false ∧ ch ≠ '/' := by
  simp only [startsLiteral, Bool.or_eq_true, beq_iff_eq] at h
  rcases h with (((rfl | rfl) | rfl) | rfl) | h
  · decide
  · decide
  · decide
  · decide
  · have hmem := mem_of_isDigit h
    fin_cases hmem <;> decide

theorem step_literal [XidTable] {text tail : List Char} (hfirst : startsLiteral ch = true)
    (hc : c.rest = (ch :: text) ++ tail) (hbang : c.startsWith ['#', '!'] = false)
    (h : significant ch c = .ok kind (c.advanceBy (ch :: text).length)) :
    step c = .ok (.found ⟨kind, String.ofList (ch :: text), c.location⟩)
      (c.advanceBy (ch :: text).length) := by
  obtain ⟨hspace, hline, hslash⟩ := startsLiteral_class hfirst
  have hcomment (second : Char) : c.startsWith ['/', second] = false := by
    rw [Cursor.startsWith, hc, List.cons_append, List.isPrefixOf, beq_false_of_ne hslash.symm,
      Bool.false_and]
  rw [step_significant hc hspace hline (hcomment _) (hcomment _) hbang h, hc, List.take_left]

theorem startsWith_bang (hc : c.rest = ch :: rest) (h : ch ≠ '#') :
    c.startsWith ['#', '!'] = false := by
  rw [Cursor.startsWith, hc, List.isPrefixOf, beq_false_of_ne h.symm, Bool.false_and]

theorem step_stringLiteral [XidTable] {body tail : List Char} (hquote : ch = '\'' ∨ ch = '"')
    (hbody : StringBody ch body) (hc : c.rest = (ch :: (body ++ [ch])) ++ tail) :
    step c = .ok (.found ⟨.stringLiteral, String.ofList (ch :: (body ++ [ch])), c.location⟩)
      (c.advanceBy (ch :: (body ++ [ch])).length) := by
  have hfirst : startsLiteral ch = true ∧ ch ≠ '#' ∧ ch ≠ '\\' ∧ ch ≠ '\n' ∧ ch ≠ '\r' := by
    rcases hquote with rfl | rfl <;> decide
  obtain ⟨hfirst, hhash, hslash, hlf, hcr⟩ := hfirst
  have hrest : c.rest = ch :: (body ++ ch :: tail) := by rw [hc]; simp
  refine step_literal hfirst hc (startsWith_bang hc hhash) ?_
  rw [significant, get_bind, if_pos hquote,
    stringLiteral_eq hrest (hbody.stringLength hslash hlf hcr tail)]
  simp
  rfl

theorem step_number [XidTable] {text tail : List Char} (hfirst : startsNumber text = true)
    (hnumber : NumberText kind text) (hc : c.rest = text ++ tail) (htail : IsBoundary tail) :
    step c = .ok (.found ⟨kind, String.ofList text, c.location⟩) (c.advanceBy text.length) := by
  have hahead : Ahead (· = ' ') tail := by
    rcases htail with rfl | ⟨rest, rfl⟩ <;> simp [Ahead]
  have hscan := takes_numericLiteral.complete hnumber hahead hc
  cases text with
  | nil => cases hfirst
  | cons ch text =>
    by_cases hdigit : ch.isDigit = true
    · have hquote : ¬ (ch = '\'' ∨ ch = '"') := by
        rintro (rfl | rfl) <;> cases hdigit
      have hhash : ch ≠ '#' := by
        rintro rfl
        cases hdigit
      refine step_literal (by simp [startsLiteral, hdigit]) hc (startsWith_bang hc hhash) ?_
      rw [significant, get_bind, if_neg hquote, if_pos hdigit, hscan]
    · obtain ⟨d, more, rfl, rfl, hd⟩ :
          ∃ d more, ch = '.' ∧ text = d :: more ∧ d.isDigit = true := by
        unfold startsNumber at hfirst
        split at hfirst
        · next d more heq =>
          cases heq
          exact ⟨d, more, rfl, rfl, hfirst⟩
        · next heq =>
          cases heq
          exact absurd hfirst hdigit
        · next heq => cases heq
      refine step_literal (by decide) hc (startsWith_bang hc (by decide)) ?_
      have hnext : c.peekNth? 1 = some d := by rw [Cursor.peekNth?, hc]; rfl
      rw [significant, get_bind, if_neg (by decide), if_neg hdigit,
        if_pos ⟨rfl, by rw [hnext]; exact hd⟩, hscan]

theorem step_privateName [XidTable] {first : Char} {more tail : List Char}
    (hfirst : isIdentifierStart first = true)
    (hmore : ∀ ch ∈ more, isIdentifierContinue ch = true)
    (hc : c.rest = ('#' :: first :: more) ++ tail) (htail : IsBoundary tail) :
    step c = .ok (.found ⟨.privateName, String.ofList ('#' :: first :: more), c.location⟩)
      (c.advanceBy ('#' :: first :: more).length) := by
  have hbang : c.startsWith ['#', '!'] = false := by
    have hne : first ≠ '!' := ne_of_isIdentifierStart hfirst rfl
    simp [Cursor.startsWith, hc, List.isPrefixOf, beq_false_of_ne hne.symm]
  have hnext : c.peekNth? 1 = some first := by rw [Cursor.peekNth?, hc]; rfl
  have hall : ∀ ch ∈ first :: more, isIdentifierContinue ch = true := by
    intro ch hch
    rcases List.mem_cons.1 hch with rfl | hch
    · exact isIdentifierContinue_of_start hfirst
    · exact hmore ch hch
  have hspan : (c.advanceBy 1).span isIdentifierContinue = first :: more :=
    span_of_boundary (by rw [Cursor.advanceBy_rest, hc]; rfl) hall rfl htail
  refine step_literal (by decide) hc hbang ?_
  rw [significant, get_bind, if_neg (by decide), if_neg (by decide),
    if_neg fun h => absurd h.1 (by decide), if_pos ⟨rfl, by rw [hnext]; exact hfirst⟩, skip_bind,
    bind_ok (take_eq _ _), hspan, ← Cursor.advanceBy_add, Nat.add_comm]
  rfl

theorem isWhitespace_of_isLineTerminator (h : isLineTerminator ch = true) :
    isWhitespace ch = false := by
  simp only [isLineTerminator, Bool.or_eq_true, beq_iff_eq] at h
  rcases h with ((rfl | rfl) | rfl) | rfl <;> decide

/-- A step on a line terminator. -/
theorem step_lineBreak [XidTable] (hc : c.rest = ch :: rest) (h : isLineTerminator ch = true) :
    step c = .ok (.found ⟨.lineTerminator, String.ofList (c.rest.take (breakLength c.rest)),
      c.location⟩) (c.advanceBy (breakLength c.rest)) := by
  have hpeek : c.peek? = some ch := by rw [Cursor.peek?, hc]; rfl
  unfold step
  simp only [get_bind, hpeek, h, isWhitespace_of_isLineTerminator h, Bool.false_eq_true, if_false,
    if_true, skip_bind]
  change EStateM.Result.ok _ _ = _
  rw [lineBreakAt, tokenFrom, Cursor.sliceFrom_advanceBy]

theorem breakLength_append {text tail : List Char} (h : IsLineBreak text)
    (hcr : text = ['\r'] → tail.head? ≠ some '\n') : breakLength (text ++ tail) = text.length := by
  rcases h with rfl | ⟨ch, rfl, -⟩
  · rfl
  · unfold breakLength
    split
    · next heq =>
      cases heq
      exact absurd rfl (hcr rfl)
    · rfl

theorem step_isLineBreak [XidTable] {text tail : List Char} (h : IsLineBreak text)
    (hc : c.rest = text ++ tail) (hcr : text = ['\r'] → tail.head? ≠ some '\n') :
    step c = .ok (.found ⟨.lineTerminator, String.ofList text, c.location⟩)
      (c.advanceBy text.length) := by
  obtain ⟨ch, more, rfl, hch⟩ := h.exists_cons
  rw [step_lineBreak hc hch, hc, breakLength_append h hcr, List.take_left]

theorem step_tokenText [XidTable] {text tail : List Char} (h : TokenText kind text)
    (hc : c.rest = text ++ tail) (htail : IsBoundary tail) :
    step c = .ok (.found ⟨kind, String.ofList text, c.location⟩) (c.advanceBy text.length) := by
  cases h with
  | @word first more hfirst hmore =>
    have hword : isWord (String.ofList (first :: more)) = true := by
      simpa [isWord, hfirst, List.all_eq_true] using hmore
    simpa using step_word hword (by simpa using hc) htail
  | privateName hfirst hmore => exact step_privateName hfirst hmore hc htail
  | punctuator p => simpa using step_punctuator hc htail
  | string hquote hbody => exact step_stringLiteral hquote hbody hc
  | number hfirst h => exact step_number hfirst h hc htail
  | lineBreak h =>
    refine step_isLineBreak h hc fun _ => ?_
    rcases htail with rfl | ⟨rest, rfl⟩ <;> simp

end Scan

theorem startsNumber_literal {text : List Char} (h : startsNumber text = true) :
    ∃ ch more, text = ch :: more ∧ Scan.startsLiteral ch = true := by
  cases text with
  | nil => cases h
  | cons ch more =>
    refine ⟨ch, more, rfl, ?_⟩
    by_cases hpoint : ch = '.'
    · rw [hpoint]
      decide
    · have hdigit : ch.isDigit = true := by simpa [startsNumber, hpoint] using h
      simp [Scan.startsLiteral, hdigit]

theorem TokenText.head [XidTable] {kind : TokenKind} {text : List Char} (h : TokenText kind text) :
    ∃ first, text.head? = some first ∧ isWhitespace first = false := by
  cases h with
  | word hfirst => exact ⟨_, rfl, isWhitespace_of_isIdentifierStart hfirst⟩
  | privateName => exact ⟨_, rfl, by decide⟩
  | punctuator p =>
    obtain ⟨first, hfirst, hspace, -⟩ := Scan.head_punctuator p
    exact ⟨first, hfirst, hspace⟩
  | string hquote => exact ⟨_, rfl, by rcases hquote with rfl | rfl <;> decide⟩
  | number hfirst =>
    obtain ⟨ch, more, rfl, hliteral⟩ := startsNumber_literal hfirst
    exact ⟨ch, rfl, (Scan.startsLiteral_class hliteral).1⟩
  | lineBreak h =>
    rcases h with rfl | ⟨ch, rfl, hch⟩
    · exact ⟨_, rfl, by decide⟩
    · exact ⟨ch, rfl, Scan.isWhitespace_of_isLineTerminator hch⟩

theorem TokenText.ne_nil [XidTable] {kind : TokenKind} {text : List Char}
    (h : TokenText kind text) : text ≠ [] := by
  obtain ⟨first, hfirst, -⟩ := h.head
  rintro rfl
  cases hfirst

theorem TokenText.isRead [XidTable] {kind : TokenKind} {text : String}
    (h : TokenText kind text.toList) : Lexeme.IsRead (kind, text) where
  head := h.head
  step hc htail := by simpa using Scan.step_tokenText h hc htail

end Ecma
