import Mathlib
import Ecma.Proofs.Syntax.Print

/-! Words and punctuators between spaces are tokens. -/

namespace Ecma

/-! ### Moving on -/

namespace Cursor

theorem advanceBy_rest (c : Cursor) (n : Nat) : (c.advanceBy n).rest = c.rest.drop n := by
  induction n generalizing c with
  | zero => rfl
  | succ n ih =>
    rw [advanceBy, ih, advance]
    split
    · next h => simp [h]
    · next h => simp [h]

theorem advanceBy_before (c : Cursor) (n : Nat) :
    (c.advanceBy n).before = (c.rest.take n).reverse ++ c.before := by
  induction n generalizing c with
  | zero => rfl
  | succ n ih =>
    rw [advanceBy, ih, advance]
    split
    · next h => simp [h]
    · next h => simp [h]

theorem advanceBy_offset (c : Cursor) (n : Nat) : (c.advanceBy n).location.offset =
    c.location.offset + ((c.rest.take n).map Char.utf8Size).sum := by
  have hafter (l : Location) (ch : Char) (next : Option Char) :
      (l.after ch next).offset = l.offset + ch.utf8Size := by
    unfold Location.after
    split <;> rfl
  induction n generalizing c with
  | zero => simp [advanceBy]
  | succ n ih =>
    rw [advanceBy, ih, advance]
    split
    · next h => simp [h]
    · next h => simp [h, hafter, Nat.add_assoc]

theorem sliceBack_append (start : Nat) (scanned before acc : List Char) :
    sliceBack start (start + (scanned.map Char.utf8Size).sum) acc (scanned ++ before) =
      scanned.reverse ++ acc := by
  induction scanned generalizing acc with
  | nil => cases before <;> simp [sliceBack]
  | cons ch scanned ih =>
    have hsize := ch.utf8Size_pos
    rw [List.cons_append, sliceBack, if_neg (by simp; omega)]
    have hoffset : start + ((ch :: scanned).map Char.utf8Size).sum - ch.utf8Size =
        start + (scanned.map Char.utf8Size).sum := by
      simp
      omega
    rw [hoffset, ih, List.reverse_cons, List.append_assoc]
    rfl

/-- The text that a cursor has moved past. -/
theorem sliceFrom_advanceBy (c : Cursor) (n : Nat) :
    (c.advanceBy n).sliceFrom c.location.offset = c.rest.take n := by
  have hsum : ((c.rest.take n).map Char.utf8Size).sum =
      ((c.rest.take n).reverse.map Char.utf8Size).sum := by
    rw [List.map_reverse, List.sum_reverse]
  rw [sliceFrom, advanceBy_offset, advanceBy_before, hsum, sliceBack_append, List.reverse_reverse,
    List.append_nil]

theorem advanceBy_add (c : Cursor) (m n : Nat) :
    c.advanceBy (m + n) = (c.advanceBy m).advanceBy n := by
  induction m generalizing c with
  | zero => rw [Nat.zero_add]; rfl
  | succ m ih => rw [Nat.succ_add]; exact ih c.advance

end Cursor

/-! ### Characters -/

/-- Nothing else of the token follows: the text ends, or there is a space. -/
def IsBoundary (l : List Char) : Prop :=
  l = [] ∨ ∃ rest, l = ' ' :: rest

theorem isAlpha_eq_false {ch : Char} (h : ch.toNat < 65 ∨ 122 < ch.toNat) : ch.isAlpha = false := by
  simp only [Char.isAlpha, Char.isUpper, Char.isLower, ge_iff_le, UInt32.le_iff_toNat_le,
    Bool.or_eq_false_iff, decide_eq_false_iff_not]
  constructor <;> simp <;> omega

section

variable [XidTable] {ch : Char}

theorem isIdentifierStart_iff : isIdentifierStart ch = true ↔
    ch = '_' ∨ ch = '$' ∨ ch.isAlpha = true ∨
      isAscii ch = false ∧ (XidTable.start ch = true ∨ inRanges idNotXid ch.toNat = true) := by
  simp [isIdentifierStart, or_assoc]

theorem isIdentifierStart_eq_false (hline : ch ≠ '_') (hdollar : ch ≠ '$')
    (halpha : ch.isAlpha = false) (hascii : isAscii ch = true) : isIdentifierStart ch = false := by
  rw [Bool.eq_false_iff, ne_eq, isIdentifierStart_iff, halpha, hascii]
  simp [hline, hdollar]

theorem isIdentifierStart_digit (h : ch.isDigit = true) : isIdentifierStart ch = false := by
  simp only [Char.isDigit, Bool.and_eq_true, decide_eq_true_eq, ge_iff_le,
    UInt32.le_iff_toNat_le] at h
  have hlow : 48 ≤ ch.toNat := h.1
  have hhigh : ch.toNat ≤ 57 := h.2
  refine isIdentifierStart_eq_false ?_ ?_ (isAlpha_eq_false (.inl (by omega)))
    (decide_eq_true (by omega))
  · rintro rfl
    exact absurd hhigh (by decide)
  · rintro rfl
    exact absurd hlow (by decide)

/-- The characters that the other kinds of tokens start with. -/
theorem isIdentifierStart_mark (h : ch ∈ ['\n', '\r', ' ', '"', '\'', '\x60', '#', '/', '.']) :
    isIdentifierStart ch = false := by
  fin_cases h <;> rfl

theorem isIdentifierContinue_of_start (h : isIdentifierStart ch = true) :
    isIdentifierContinue ch = true := by
  unfold isIdentifierContinue
  rcases isIdentifierStart_iff.mp h with rfl | rfl | h | ⟨hascii, h | h⟩
  · rfl
  · rfl
  · simp [Char.isAlphanum, h]
  · simp [hascii, XidTable.inside_of_start h]
  · simp [hascii, h]

variable (h : isIdentifierStart ch = true)

include h

theorem ne_of_isIdentifierStart {d : Char} (hd : isIdentifierStart d = false) : ch ≠ d := by
  rintro rfl
  exact Bool.false_ne_true (hd.symm.trans h)

theorem isDigit_of_isIdentifierStart : ch.isDigit = false := by
  cases hd : ch.isDigit with
  | false => rfl
  | true => exact absurd h (by rw [isIdentifierStart_digit hd]; decide)

/-- Of the characters that are not in a table, none is a blank. -/
theorem not_blank_of_isIdentifierStart :
    isWhitespace ch = false ∧ isLineTerminator ch = false := by
  have hblank (hranges : inRanges blankRanges ch.toNat = false) :
      isWhitespace ch = false ∧ isLineTerminator ch = false := by
    have hnot (hc : isWhitespace ch = true ∨ isLineTerminator ch = true) : False :=
      Bool.false_ne_true (hranges.symm.trans (inRanges_blankRanges hc))
    exact ⟨Bool.eq_false_iff.mpr fun hc => hnot (.inl hc),
      Bool.eq_false_iff.mpr fun hc => hnot (.inr hc)⟩
  rcases isIdentifierStart_iff.mp h with rfl | rfl | h | ⟨-, h | h⟩
  · decide
  · decide
  · refine hblank (Bool.eq_false_iff.mpr fun hc => ?_)
    have hletter : 65 ≤ ch.toNat ∧ ch.toNat ≤ 122 := by
      by_contra hnot
      rw [isAlpha_eq_false (by omega)] at h
      cases h
    simp [inRanges, blankRanges] at hc
    omega
  · have hinside := XidTable.inside_of_start h
    exact ⟨XidTable.isWhitespace_of_inside hinside, XidTable.isLineTerminator_of_inside hinside⟩
  · exact hblank (inRanges_eq_false (by decide) h)

theorem isLineTerminator_of_isIdentifierStart : isLineTerminator ch = false :=
  (not_blank_of_isIdentifierStart h).2

theorem isWhitespace_of_isIdentifierStart : isWhitespace ch = false :=
  (not_blank_of_isIdentifierStart h).1

end

theorem exists_of_isWord [XidTable] {text : String} (h : isWord text = true) :
    ∃ first rest, text.toList = first :: rest ∧ isIdentifierStart first = true ∧
      ∀ ch ∈ rest, isIdentifierContinue ch = true := by
  unfold isWord at h
  split at h
  · cases h
  · next first rest htext =>
    rw [Bool.and_eq_true, List.all_eq_true] at h
    exact ⟨first, rest, htext, h.1, h.2⟩

/-! ### Steps -/

namespace Scan

variable {α β : Type} {c c' : Cursor} {ch : Char} {rest : List Char}

theorem get_bind (f : Cursor → Scan α) (c : Cursor) : (get >>= f) c = f c c := rfl

theorem bind_ok {x : Scan α} {f : α → Scan β} {a : α} (h : x c = .ok a c') :
    (x >>= f) c = f a c' := by
  change EStateM.bind x f c = _
  rw [EStateM.bind, h]

/-- A step on a character that starts a token. -/
theorem step_significant [XidTable] (hc : c.rest = ch :: rest) (hspace : isWhitespace ch = false)
    (hline : isLineTerminator ch = false) (hslash : c.startsWith ['/', '/'] = false)
    (hstar : c.startsWith ['/', '*'] = false) (hbang : c.startsWith ['#', '!'] = false)
    {kind : TokenKind} {n : Nat}
    (h : significant ch c = .ok kind (c.advanceBy n)) :
    step c = .ok (.found ⟨kind, String.ofList (c.rest.take n), c.location⟩) (c.advanceBy n) := by
  have hpeek : c.peek? = some ch := by rw [Cursor.peek?, hc]; rfl
  unfold step
  simp only [get_bind, hpeek, hspace, hline, hslash, hstar, hbang, Bool.false_eq_true, if_false,
    and_false]
  rw [bind_ok h, get_bind]
  change EStateM.Result.ok _ _ = _
  rw [tokenFrom, Cursor.sliceFrom_advanceBy]

/-- White space up to the next token is dropped. -/
theorem step_space [XidTable] (hc : c.rest = ' ' :: rest)
    (h : ∀ ch ∈ rest.head?, isWhitespace ch = false) : step c = .ok .dropped (c.advanceBy 1) := by
  have hpeek : c.peek? = some ' ' := by rw [Cursor.peek?, hc]; rfl
  have hspan : c.span isWhitespace = [' '] := by
    rw [Cursor.span, hc, List.takeWhile_cons_of_pos (by decide)]
    cases rest with
    | nil => rfl
    | cons ch rest => rw [List.takeWhile_cons_of_neg (by rw [h ch rfl]; decide)]
  unfold step
  simp only [get_bind, hpeek]
  rw [if_pos (by decide)]
  change EStateM.Result.ok _ (c.advanceBy (c.span isWhitespace).length) = _
  rw [hspan]
  rfl

theorem step_atEnd [XidTable] (hc : c.rest = []) : step c = .ok .atEnd c := by
  have hpeek : c.peek? = none := by rw [Cursor.peek?, hc]; rfl
  unfold step
  simp only [get_bind, hpeek]
  rfl

theorem take_eq (p : Char → Bool) (c : Cursor) :
    take p c = .ok (c.span p) (c.advanceBy (c.span p).length) := rfl

theorem span_of_boundary {p : Char → Bool} {text tail : List Char} (hc : c.rest = text ++ tail)
    (htext : ∀ ch ∈ text, p ch = true) (hspace : p ' ' = false) (htail : IsBoundary tail) :
    c.span p = text := by
  have htail : tail.takeWhile p = [] := by
    rcases htail with rfl | ⟨rest, rfl⟩
    · rfl
    · exact List.takeWhile_cons_of_neg (by rw [hspace]; decide)
  rw [Cursor.span, hc, List.takeWhile_append_of_pos htext, htail, List.append_nil]

/-- A word goes as far as its characters do. -/
theorem significant_word [XidTable] {text tail : List Char} (hfirst : isIdentifierStart ch = true)
    (hc : c.rest = text ++ tail) (htext : ∀ ch ∈ text, isIdentifierContinue ch = true)
    (htail : IsBoundary tail) :
    significant ch c = .ok (wordKind (String.ofList text)) (c.advanceBy text.length) := by
  have hne {d : Char} (hd : isIdentifierStart d = false) := ne_of_isIdentifierStart hfirst hd
  have hspan := span_of_boundary hc htext rfl htail
  have hpeek : ((c.advanceBy text.length).peek? == some '\\') = false := by
    rw [Cursor.peek?, Cursor.advanceBy_rest, hc, List.drop_left]
    rcases htail with rfl | ⟨rest, rfl⟩ <;> rfl
  have hword : word c = .ok (wordKind (String.ofList text)) (c.advanceBy text.length) := by
    unfold word
    rw [bind_ok (take_eq _ _), hspan, get_bind, hpeek]
    rfl
  unfold significant
  rw [get_bind, if_neg, isDigit_of_isIdentifierStart hfirst, if_neg Bool.false_ne_true, if_neg,
    if_neg, if_neg, if_pos hfirst, hword]
  · exact hne (isIdentifierStart_mark (by decide))
  · exact fun h => hne (isIdentifierStart_mark (by decide)) h.1
  · exact fun h => hne (isIdentifierStart_mark (by decide)) h.1
  · rintro (h | h) <;> exact hne (isIdentifierStart_mark (by decide)) h

theorem step_word [XidTable] {text : String} (hword : isWord text = true) {tail : List Char}
    (hc : c.rest = text.toList ++ tail) (htail : IsBoundary tail) :
    step c = .ok (.found ⟨wordKind text, text, c.location⟩) (c.advanceBy text.toList.length) := by
  obtain ⟨first, more, htext, hfirst, hmore⟩ := exists_of_isWord hword
  have hcontinue : ∀ ch ∈ text.toList, isIdentifierContinue ch = true := by
    rw [htext]
    intro ch hch
    rcases List.mem_cons.1 hch with rfl | hch
    · exact isIdentifierContinue_of_start hfirst
    · exact hmore ch hch
  have hsig := significant_word hfirst hc hcontinue htail
  have hstarts {d : Char} (hd : isIdentifierStart d = false) (more : List Char) :
      c.startsWith (d :: more) = false := by
    have hne := ne_of_isIdentifierStart hfirst hd
    rw [Cursor.startsWith, hc, htext, List.cons_append, List.isPrefixOf,
      beq_false_of_ne hne.symm, Bool.false_and]
  have htake : c.rest.take text.toList.length = text.toList := by
    rw [hc, List.take_left]
  have hrest : c.rest = first :: (more ++ tail) := by rw [hc, htext]; rfl
  have hslash : isIdentifierStart '/' = false := isIdentifierStart_mark (by decide)
  rw [step_significant hrest
    (isWhitespace_of_isIdentifierStart hfirst) (isLineTerminator_of_isIdentifierStart hfirst)
    (hstarts hslash _) (hstarts hslash _) (hstarts (isIdentifierStart_mark (by decide)) _) hsig,
    htake, String.ofList_toList]

/-- Only the text before the boundary decides what it starts with. -/
theorem isPrefixOf_append_boundary {start text tail : List Char} (hstart : ' ' ∉ start)
    (htail : IsBoundary tail) : start.isPrefixOf (text ++ tail) = start.isPrefixOf text := by
  induction start generalizing text with
  | nil => rfl
  | cons first start ih =>
    rw [List.mem_cons, not_or] at hstart
    cases text with
    | nil =>
      rcases htail with rfl | ⟨rest, rfl⟩
      · rfl
      · change (first == ' ' && start.isPrefixOf rest) = false
        rw [beq_false_of_ne (Ne.symm hstart.1), Bool.false_and]
    | cons ch text => rw [List.cons_append, List.isPrefixOf, List.isPrefixOf, ih hstart.2]

/-- The first character of a punctuator starts no other kind of token. -/
theorem head_punctuator [XidTable] (p : Punctuator) : ∃ first, p.text.toList.head? = some first ∧
    isWhitespace first = false ∧ isLineTerminator first = false ∧ first ≠ '#' ∧ first ≠ '\'' ∧
    first ≠ '"' ∧ first.isDigit = false ∧ first ≠ '\x60' ∧ isIdentifierStart first = false := by
  have hclass : ∀ p : Punctuator, ∃ first, p.text.toList.head? = some first ∧
      (isWhitespace first = false ∧ isLineTerminator first = false ∧ first ≠ '#' ∧ first ≠ '\'' ∧
        first ≠ '"' ∧ first.isDigit = false ∧ first ≠ '\x60') ∧
      first ≠ '_' ∧ first ≠ '$' ∧ first.isAlpha = false ∧ isAscii first = true := by
    intro p
    cases p <;> exact ⟨_, rfl, by decide⟩
  obtain ⟨first, hfirst, ⟨h₁, h₂, h₃, h₄, h₅, h₆, h₇⟩, hline, hdollar, halpha, hascii⟩ := hclass p
  exact ⟨first, hfirst, h₁, h₂, h₃, h₄, h₅, h₆, h₇,
    isIdentifierStart_eq_false hline hdollar halpha hascii⟩

/-- A punctuator starts no comment, no digit is in it, and only one starts with `?.`. -/
theorem text_punctuator (p : Punctuator) :
    ['/', '/'].isPrefixOf p.text.toList = false ∧ ['/', '*'].isPrefixOf p.text.toList = false ∧
      ['#', '!'].isPrefixOf p.text.toList = false ∧
      p.text.toList[1]?.any Char.isDigit = false ∧
      (['?', '.'].isPrefixOf p.text.toList = true → p.text.toList.length = 2) := by
  cases p <;> decide

/-- The longest punctuator that a punctuator starts with is itself. -/
theorem find?_punctuator (p : Punctuator) :
    Punctuator.byLength.find? (fun q => q.text.toList.isPrefixOf p.text.toList) = some p := by
  cases p <;> rfl

theorem not_mem_punctuator (p : Punctuator) : ' ' ∉ p.text.toList := by
  cases p <;> decide

theorem significant_punctuator {p : Punctuator} {tail : List Char}
    (hc : c.rest = p.text.toList ++ tail) (htail : IsBoundary tail) :
    punctuator ch c = .ok (.punctuator p) (c.advanceBy p.text.toList.length) := by
  have hstarts (start : List Char) (h : ' ' ∉ start) :
      c.startsWith start = start.isPrefixOf p.text.toList := by
    rw [Cursor.startsWith, hc, isPrefixOf_append_boundary h htail]
  have hfind : Punctuator.byLength.find? (fun q => c.startsWith q.text.toList) = some p := by
    rw [← find?_punctuator p]
    congr 1
    exact funext fun q => hstarts _ (not_mem_punctuator q)
  have hquestion : (c.startsWith ['?', '.'] && (c.peekNth? 2).any Char.isDigit) = false := by
    rw [hstarts _ (by decide), Bool.and_eq_false_imp]
    intro hchain
    have hlength := (text_punctuator p).2.2.2.2 hchain
    rw [Cursor.peekNth?, hc, ← hlength, List.getElem?_append_right (Nat.le_refl _), Nat.sub_self]
    rcases htail with rfl | ⟨rest, rfl⟩ <;> rfl
  unfold punctuator
  rw [get_bind, hquestion, if_neg Bool.false_ne_true, hfind, String.length_toList]
  rfl

theorem step_punctuator [XidTable] {p : Punctuator} {tail : List Char}
    (hc : c.rest = p.text.toList ++ tail) (htail : IsBoundary tail) :
    step c = .ok (.found ⟨.punctuator p, p.text, c.location⟩)
      (c.advanceBy p.text.toList.length) := by
  obtain ⟨first, hfirst, hspace, hline, hhash, hquote, hquotes, hdigit, htick, hstart⟩ :=
    head_punctuator p
  obtain ⟨hslash, hstar, hbang, hsecond, -⟩ := text_punctuator p
  have hstarts (start : List Char) (h : ' ' ∉ start) :
      c.startsWith start = start.isPrefixOf p.text.toList := by
    rw [Cursor.startsWith, hc, isPrefixOf_append_boundary h htail]
  have hnext : (c.peekNth? 1).any Char.isDigit = false := by
    rw [Cursor.peekNth?, hc]
    cases htext : p.text.toList with
    | nil => rw [htext] at hfirst; cases hfirst
    | cons first more =>
      rw [htext] at hsecond
      cases more with
      | nil => rcases htail with rfl | ⟨rest, rfl⟩ <;> rfl
      | cons second more => exact hsecond
  have hpunctuator : punctuator first c = _ := significant_punctuator hc htail
  have hsig : significant first c = .ok (.punctuator p) (c.advanceBy p.text.toList.length) := by
    unfold significant
    rw [get_bind, if_neg (by simp [hquote, hquotes]), hdigit, if_neg Bool.false_ne_true,
      if_neg (by simp [hnext]), if_neg (by simp [hhash]), if_neg htick, hstart,
      if_neg Bool.false_ne_true, hpunctuator]
  obtain ⟨more, hmore⟩ : ∃ more, p.text.toList = first :: more := by
    cases htext : p.text.toList with
    | nil => rw [htext] at hfirst; cases hfirst
    | cons ch more => rw [htext] at hfirst; cases hfirst; exact ⟨more, rfl⟩
  have htake : c.rest.take p.text.toList.length = p.text.toList := by
    rw [hc, List.take_left]
  have hrest : c.rest = first :: (more ++ tail) := by rw [hc, hmore]; rfl
  rw [step_significant hrest hspace hline
    ((hstarts _ (by decide)).trans hslash) ((hstarts _ (by decide)).trans hstar)
    ((hstarts _ (by decide)).trans hbang) hsig, htake, String.ofList_toList]

end Scan

/-! ### Texts -/

open Lexeme

/-- The lexemes that are read back from their spellings. -/
inductive Lexeme.IsSpelled [XidTable] : Lexeme → Prop
  | word {text : String} (h : isWord text = true) : IsSpelled (word text)
  | punct {p : Punctuator} (h : p ≠ .optionalChain) : IsSpelled (punct p)

/-- A lexeme that a scan finds where its text stands before a boundary. -/
structure Lexeme.IsRead [XidTable] (x : Lexeme) : Prop where
  head : ∃ first, x.2.toList.head? = some first ∧ isWhitespace first = false
  step : ∀ {c : Cursor} {tail : List Char}, c.rest = x.2.toList ++ tail → IsBoundary tail →
    Scan.step c = .ok (.found ⟨x.1, x.2, c.location⟩) (c.advanceBy x.2.toList.length)

theorem Lexeme.IsSpelled.isRead [XidTable] {x : Lexeme} (hx : x.IsSpelled) : x.IsRead := by
  cases hx with
  | word h =>
    obtain ⟨first, more, htext, hfirst, -⟩ := exists_of_isWord h
    exact ⟨⟨first, by rw [Lexeme.word, htext]; rfl, isWhitespace_of_isIdentifierStart hfirst⟩,
      Scan.step_word h⟩
  | @punct p _ =>
    obtain ⟨first, hfirst, hspace, -⟩ := Scan.head_punctuator p
    exact ⟨⟨first, hfirst, hspace⟩, Scan.step_punctuator⟩

theorem Lexeme.IsRead.length_pos [XidTable] {x : Lexeme} (hx : x.IsRead) :
    0 < x.2.toList.length := by
  obtain ⟨first, hfirst, -⟩ := hx.head
  cases htext : x.2.toList with
  | nil => rw [htext] at hfirst; cases hfirst
  | cons ch rest => exact Nat.succ_pos _

/-- The characters of lexemes with a space between them. -/
def spaced (l : List Lexeme) : List Char :=
  [' '].intercalate (l.map fun x => x.2.toList)

theorem toList_intercalate (l : List Lexeme) :
    (" ".intercalate (l.map Prod.snd)).toList = spaced l := by
  rw [String.toList_intercalate, List.map_map]
  rfl

theorem head_spaced [XidTable] {x : Lexeme} (hx : x.IsRead) (l : List Lexeme) :
    ∀ ch ∈ (spaced (x :: l)).head?, isWhitespace ch = false := by
  obtain ⟨first, hfirst, hspace⟩ := hx.head
  have hhead : (spaced (x :: l)).head? = some first := by
    cases l with
    | nil => simpa [spaced] using hfirst
    | cons y l => simp [spaced, List.head?_append, hfirst]
  rintro ch hch
  cases hhead.symm.trans hch
  exact hspace

theorem Lexed.scan_found [XidTable] {c c' : Cursor} {t : Token}
    (h : Scan.step c = .ok (.found t) c') (tokens : List Token) (fuel : Nat) :
    scan c tokens (fuel + 1) = scan c' (t :: tokens) fuel := by
  rw [scan, h]

theorem Lexed.scan_dropped [XidTable] {c c' : Cursor} (h : Scan.step c = .ok .dropped c')
    (tokens : List Token) (fuel : Nat) : scan c tokens (fuel + 1) = scan c' tokens fuel := by
  rw [scan, h]

/-- Lexemes with spaces between them are the tokens of their text. -/
theorem Lexed.scan_spaced [XidTable] {l : List Lexeme} (hl : ∀ x ∈ l, x.IsRead) {c : Cursor}
    (hc : c.rest = spaced l) (tokens : List Token) {fuel : Nat} (hfuel : c.rest.length < fuel) :
    ∃ found finish, scan c tokens fuel = ⟨tokens.reverse ++ found, finish, none⟩ ∧
      found.map (fun t => (t.kind, t.text)) = l := by
  induction l generalizing c tokens fuel with
  | nil =>
    match fuel, hfuel with
    | fuel + 1, _ =>
      refine ⟨[], c.location, ?_, rfl⟩
      rw [scan, Scan.step_atEnd hc, List.append_nil]
  | cons x l ih =>
    have hx := hl x (by simp)
    have hrest : ∀ x ∈ l, x.IsRead := fun x hx => hl x (by simp [hx])
    have hpos := hx.length_pos
    -- a token, then a space if there is another token
    suffices h : ∃ tokens' c' fuel', scan c tokens fuel = scan c' tokens' fuel' ∧
        tokens' = ⟨x.1, x.2, c.location⟩ :: tokens ∧ c'.rest = spaced l ∧
        c'.rest.length < fuel' by
      obtain ⟨_, c', fuel', heq, rfl, hc', hfuel'⟩ := h
      obtain ⟨found, finish, hscan, hfound⟩ := ih hrest hc' _ hfuel'
      refine ⟨⟨x.1, x.2, c.location⟩ :: found, finish, ?_, by rw [List.map_cons, hfound]⟩
      rw [heq, hscan, List.reverse_cons, List.append_assoc]
      rfl
    match fuel, hfuel with
    | fuel + 1, hfuel =>
      cases l with
      | nil =>
        have hc' : c.rest = x.2.toList ++ [] := by rw [hc]; simp [spaced]
        rw [scan_found (hx.step hc' (.inl rfl))]
        refine ⟨_, _, fuel, rfl, rfl, ?_, ?_⟩
        · rw [Cursor.advanceBy_rest, hc', List.drop_left]
          rfl
        · rw [hc', List.append_nil] at hfuel
          rw [Cursor.advanceBy_rest, hc', List.drop_left, List.length_nil]
          omega
      | cons y l =>
        have hc' : c.rest = x.2.toList ++ ' ' :: spaced (y :: l) := by rw [hc]; simp [spaced]
        rw [hc', List.length_append, List.length_cons] at hfuel
        have hrest' : (c.advanceBy x.2.toList.length).rest = ' ' :: spaced (y :: l) := by
          rw [Cursor.advanceBy_rest, hc', List.drop_left]
        match fuel, hfuel with
        | fuel + 1, hfuel =>
          have hspace := Scan.step_space hrest' (head_spaced (hrest y (by simp)) l)
          rw [scan_found (hx.step hc' (.inr ⟨_, rfl⟩)), scan_dropped hspace]
          refine ⟨_, _, fuel, rfl, rfl, ?_, ?_⟩
          · rw [Cursor.advanceBy_rest, hrest']
            rfl
          · rw [Cursor.advanceBy_rest, hrest', List.drop_one, List.tail_cons]
            omega

end Ecma
