import Mathlib
import Ecma.Proofs.Token.Lexicon

/-! Source text as a row of segments: white space, comments and tokens, none of which overlap and
which leave nothing out. -/

namespace Ecma

/-! ### Bytes -/

theorem utf8ByteSize_ofList (l : List Char) :
    (String.ofList l).utf8ByteSize = (l.map Char.utf8Size).sum := by
  induction l with
  | nil => rfl
  | cons ch l ih => simp [String.ofList_cons, ih]

/-- The offset of a position is the size of the text before it. -/
def Cursor.IsExact (c : Cursor) : Prop :=
  c.location.offset = (c.before.map Char.utf8Size).sum

namespace Cursor

variable {c : Cursor}

theorem isExact_ofString (source : String) : (ofString source).IsExact := rfl

theorem IsExact.advanceBy (h : c.IsExact) (n : Nat) : (c.advanceBy n).IsExact := by
  rw [IsExact, advanceBy_offset, advanceBy_before, List.map_append, List.sum_append,
    List.map_reverse, List.sum_reverse, h, Nat.add_comm]

theorem advanceBy_length_offset {text after : List Char} (hc : c.rest = text ++ after) :
    (c.advanceBy text.length).location.offset =
      c.location.offset + (String.ofList text).utf8ByteSize := by
  rw [advanceBy_offset, hc, List.take_left, utf8ByteSize_ofList]

theorem IsExact.before_eq_nil (h : c.IsExact) (hoffset : c.location.offset = 0) :
    c.before = [] := by
  rw [h] at hoffset
  cases hbefore : c.before with
  | nil => rfl
  | cons ch before =>
    have := ch.utf8Size_pos
    rw [hbefore, List.map_cons, List.sum_cons] at hoffset
    omega

end Cursor

/-! ### Line breaks -/

/-- The first line break of a text, and the text before it. -/
def firstBreak : List Char → Option (List Char × List Char)
  | [] => none
  | '\r' :: '\n' :: _ => some ([], ['\r', '\n'])
  | ch :: rest =>
    if isLineTerminator ch then some ([], [ch])
    else (firstBreak rest).map fun found => (ch :: found.1, found.2)

theorem firstBreak_eq_none {l : List Char} :
    firstBreak l = none ↔ ∀ ch ∈ l, isLineTerminator ch = false := by
  fun_induction firstBreak l with
  | case1 => simp
  | case2 => simp [isLineTerminator]
  | case3 ch rest _ h => simp [h]
  | case4 ch rest _ h ih => simpa [h] using ih

theorem firstBreak_eq_some {l clear text : List Char} (h : firstBreak l = some (clear, text)) :
    ∃ more, l = clear ++ (text ++ more) ∧ (∀ ch ∈ clear, isLineTerminator ch = false) ∧
      IsLineBreak text ∧ (text = ['\r'] → more.head? ≠ some '\n') := by
  fun_induction firstBreak l generalizing clear with
  | case1 => cases h
  | case2 more =>
    cases h
    exact ⟨more, rfl, by simp, .inl rfl, by simp⟩
  | case3 ch rest hpair hch =>
    cases h
    refine ⟨rest, rfl, by simp, .inr ⟨ch, rfl, hch⟩, ?_⟩
    rintro ⟨rfl⟩ hhead
    obtain ⟨more, rfl⟩ := List.head?_eq_some_iff.1 hhead
    exact hpair more rfl rfl
  | case4 ch rest _ hch ih =>
    obtain ⟨⟨clear', text'⟩, hrest, heq⟩ := Option.map_eq_some_iff.1 h
    cases heq
    obtain ⟨more, rfl, hclear, htext, hcr⟩ := ih hrest
    exact ⟨more, rfl, by simpa [hch] using hclear, htext, hcr⟩

/-! ### Segments -/

/-- What one step of a scan moves past. -/
inductive Segment where
  | space (text : List Char)
  | lineComment (body : List Char)
  | hashbang (body : List Char)
  | blockComment (body : List Char)
  | token (kind : TokenKind) (text : List Char)

namespace Segment

/-- The characters of a segment. -/
def text : Segment → List Char
  | .space text => text
  | .lineComment body => '/' :: '/' :: body
  | .hashbang body => '#' :: '!' :: body
  | .blockComment body => '/' :: '*' :: (body ++ ['*', '/'])
  | .token _ text => text

/-- The token of a segment that starts at a position. A block comment that spans lines counts as
the first line break in it. -/
def token? (c : Cursor) : Segment → Option Token
  | .token kind text => some ⟨kind, String.ofList text, c.location⟩
  | .blockComment body => (firstBreak body).map fun found =>
    ⟨.lineTerminator, String.ofList found.2, (c.advanceBy (found.1.length + 2)).location⟩
  | _ => none

/-- A segment is well formed between the text before it and the text after it. -/
inductive Fits [XidTable] (before after : List Char) : Segment → Prop
  | space {text : List Char} (hne : text ≠ []) (hall : ∀ ch ∈ text, isWhitespace ch = true)
    (hafter : Scan.Ahead (fun ch => isWhitespace ch = false) after) :
    Fits before after (.space text)
  | lineComment {body : List Char} (hall : ∀ ch ∈ body, isLineTerminator ch = false)
    (hafter : Scan.Ahead (fun ch => isLineTerminator ch = true) after) :
    Fits before after (.lineComment body)
  | hashbang {body : List Char} (hbefore : before = [])
    (hall : ∀ ch ∈ body, isLineTerminator ch = false)
    (hafter : Scan.Ahead (fun ch => isLineTerminator ch = true) after) :
    Fits before after (.hashbang body)
  | blockComment {body : List Char} (h : ¬ ['*', '/'] <:+: body) :
    Fits before after (.blockComment body)
  | token {kind : TokenKind} {text : List Char} (h : TokenText kind text)
    (hline : ¬ ['/', '/'] <+: text ++ after) (hblock : ¬ ['/', '*'] <+: text ++ after)
    (hcr : text = ['\r'] → after.head? ≠ some '\n') : Fits before after (.token kind text)

/-- Segments one after the other, each well formed where it stands. -/
def Tile [XidTable] (before after : List Char) : List Segment → Prop
  | [] => True
  | s :: rest => s.Fits before (rest.flatMap text ++ after) ∧ Tile (before ++ s.text) after rest

/-- The tokens of segments that start at a position. -/
def tokensFrom (c : Cursor) : List Segment → List Token
  | [] => []
  | s :: rest => (s.token? c).toList ++ tokensFrom (c.advanceBy s.text.length) rest

end Segment

/-! ### Steps -/

namespace Scan

variable {c c' : Cursor} {ch : Char} {rest : List Char} {r : Step}

/-- A step passes a segment that stands at a position. -/
def Passes [XidTable] (c : Cursor) (r : Step) (c' : Cursor) : Prop :=
  ∃ (s : Segment) (after : List Char), c.rest = s.text ++ after ∧ s.Fits c.before.reverse after ∧
    c' = c.advanceBy s.text.length ∧ r = (s.token? c).elim .dropped .found

theorem commentLength_closed {l : List Char} {n : Nat} (h : commentLength l = (n, true)) :
    ∃ body rest, l = body ++ '*' :: '/' :: rest ∧ n = body.length + 2 ∧ ¬ ['*', '/'] <:+: body := by
  fun_induction commentLength l generalizing n with
  | case1 => simp at h
  | case2 rest =>
    cases h
    exact ⟨[], rest, rfl, rfl, by simp⟩
  | case3 ch tail hend m closed hm ih =>
    cases h
    obtain ⟨body, rest, rfl, rfl, hbody⟩ := ih hm
    refine ⟨ch :: body, rest, rfl, rfl, fun hinfix => ?_⟩
    rcases List.infix_cons_iff.1 hinfix with hprefix | hinfix
    · obtain ⟨more, hmore⟩ := hprefix
      cases hmore
      exact hend _ rfl rfl
    · exact hbody hinfix

theorem findIdx?_body {body : List Char} :
    (body ++ ['*', '/']).findIdx? isLineTerminator =
      (firstBreak body).map fun found => found.1.length := by
  cases hbreak : firstBreak body with
  | none =>
    have hnone := firstBreak_eq_none.1 hbreak
    rw [Option.map_none, List.findIdx?_eq_none_iff]
    intro ch hch
    rcases List.mem_append.1 hch with hch | hch
    · exact hnone ch hch
    · fin_cases hch <;> rfl
  | some found =>
    obtain ⟨more, rfl, hclear, hbreak, -⟩ := firstBreak_eq_some hbreak
    obtain ⟨ch, tail, htext, hch⟩ := hbreak.exists_cons
    have hnone : found.1.findIdx? isLineTerminator = none := by
      rwa [List.findIdx?_eq_none_iff]
    simp [List.findIdx?_append, hnone, htext, List.findIdx?_cons, hch]

theorem lineBreakAt_eq {text more : List Char} (hc : c.rest = text ++ more) (h : IsLineBreak text)
    (hcr : text = ['\r'] → more.head? ≠ some '\n') :
    lineBreakAt c = ⟨.lineTerminator, String.ofList text, c.location⟩ := by
  rw [lineBreakAt, tokenFrom, Cursor.sliceFrom_advanceBy, hc, breakLength_append h hcr,
    List.take_left]

theorem commentLength_append {body after : List Char} (h : ¬ ['*', '/'] <:+: body) :
    commentLength (body ++ '*' :: '/' :: after) = (body.length + 2, true) := by
  induction body with
  | nil => rfl
  | cons ch body ih =>
    rw [List.infix_cons_iff, not_or] at h
    rw [List.cons_append, commentLength, ih h.2]
    · rfl
    · rintro more rfl hmore
      cases body with
      | nil => cases hmore
      | cons d body =>
        cases hmore
        exact h.1 ⟨body, rfl⟩

theorem blockComment_eq {body after : List Char}
    (hc : c.rest = '/' :: '*' :: (body ++ '*' :: '/' :: after)) (hfree : ¬ ['*', '/'] <:+: body) :
    blockComment c = .ok ((Segment.blockComment body).token? c)
      (c.advanceBy (Segment.blockComment body).text.length) := by
  have hbody : (c.advanceBy 2).rest = body ++ '*' :: '/' :: after := by
    rw [Cursor.advanceBy_rest, hc]
    rfl
  have htake : (body ++ '*' :: '/' :: after).take (body.length + 2) = body ++ ['*', '/'] := by
    rw [List.take_append, List.take_of_length_le (by omega), Nat.add_sub_cancel_left]
    rfl
  have hfinish : (c.advanceBy 2).advanceBy (body.length + 2) =
      c.advanceBy (Segment.blockComment body).text.length := by
    rw [← Cursor.advanceBy_add, Nat.add_comm]
    simp [Segment.text]
  unfold blockComment
  rw [get_bind, hbody, commentLength_append hfree]
  dsimp only
  rw [htake, findIdx?_body, hfinish]
  cases hbreak : firstBreak body with
  | none =>
    rw [Segment.token?, hbreak]
    rfl
  | some found =>
    obtain ⟨more, rfl, -, htext, hcr⟩ := firstBreak_eq_some hbreak
    have hrest : ((c.advanceBy 2).advanceBy found.1.length).rest =
        found.2 ++ (more ++ '*' :: '/' :: after) := by
      rw [Cursor.advanceBy_rest, hbody]
      simp
    have hline : lineBreakAt ((c.advanceBy 2).advanceBy found.1.length) =
        ⟨.lineTerminator, String.ofList found.2, (c.advanceBy (found.1.length + 2)).location⟩ := by
      rw [lineBreakAt_eq hrest htext, ← Cursor.advanceBy_add, Nat.add_comm]
      intro heq
      cases more with
      | nil => simp
      | cons d more => exact hcr heq
    rw [Segment.token?, hbreak]
    exact congrArg (fun t => EStateM.Result.ok (some t) _) hline

theorem passes_blockComment [XidTable] (hc : c.rest = '/' :: '*' :: rest) {t : Option Token}
    (h : blockComment c = .ok t c') : Passes c (t.elim .dropped .found) c' := by
  have hbody : (c.advanceBy 2).rest = rest := by rw [Cursor.advanceBy_rest, hc]; rfl
  obtain ⟨n, closed, hlength⟩ : ∃ n closed, commentLength rest = (n, closed) := ⟨_, _, rfl⟩
  cases closed with
  | false =>
    unfold blockComment at h
    rw [get_bind, hbody, hlength] at h
    cases h
  | true =>
    obtain ⟨body, after, rfl, rfl, hfree⟩ := commentLength_closed hlength
    rw [blockComment_eq hc hfree] at h
    cases h
    exact ⟨.blockComment body, after, by rw [hc]; simp [Segment.text], .blockComment hfree, rfl, rfl⟩

theorem head?_dropWhile {p : Char → Bool} (l : List Char) :
    Ahead (fun ch => p ch = false) (l.dropWhile p) := by
  intro ch hch
  have := List.head?_dropWhile_not p l
  rw [hch] at this
  simpa using this

theorem split_line (l : List Char) :
    (∀ ch ∈ l.takeWhile fun ch => !isLineTerminator ch, isLineTerminator ch = false) ∧
      Ahead (fun ch => isLineTerminator ch = true) (l.dropWhile fun ch => !isLineTerminator ch) :=
  ⟨fun ch hch => by simpa using List.mem_takeWhile_imp hch,
    (head?_dropWhile l).mono (by simp)⟩

/-- The rest of a line after two characters. -/
theorem lineComment_eq {first second : Char} (hc : c.rest = first :: second :: rest)
    (hfirst : isLineTerminator first = false) (hsecond : isLineTerminator second = false) :
    lineComment c = .ok () (c.advanceBy
      (first :: second :: rest.takeWhile fun ch => !isLineTerminator ch).length) := by
  have hspan : (c.span fun ch => !isLineTerminator ch) =
      first :: second :: rest.takeWhile fun ch => !isLineTerminator ch := by
    rw [Cursor.span, hc, List.takeWhile_cons_of_pos (by simp [hfirst]),
      List.takeWhile_cons_of_pos (by simp [hsecond])]
  rw [← hspan]
  rfl

theorem passes_space [XidTable] (hc : c.rest = ch :: rest) (hspace : isWhitespace ch = true) :
    Passes c .dropped (c.advanceBy (c.span isWhitespace).length) := by
  refine ⟨.space (c.span isWhitespace), c.rest.dropWhile isWhitespace,
    List.takeWhile_append_dropWhile.symm, .space ?_ (fun ch hch => List.mem_takeWhile_imp hch)
    (head?_dropWhile _), rfl, rfl⟩
  rw [Cursor.span, hc, List.takeWhile_cons_of_pos hspace]
  exact List.cons_ne_nil _ _

theorem passes_lineBreak [XidTable] (hc : c.rest = ch :: rest) (h : isLineTerminator ch = true) :
    Passes c (.found (lineBreakAt c)) (c.advanceBy (breakLength c.rest)) := by
  obtain ⟨text, after, hrest, htext, hcr⟩ : ∃ text after, ch :: rest = text ++ after ∧
      IsLineBreak text ∧ (text = ['\r'] → after.head? ≠ some '\n') := by
    by_cases hpair : ch = '\r' ∧ rest.head? = some '\n'
    · obtain ⟨rfl, hhead⟩ := hpair
      obtain ⟨after, rfl⟩ := List.head?_eq_some_iff.1 hhead
      exact ⟨['\r', '\n'], after, rfl, .inl rfl, by simp⟩
    · refine ⟨[ch], rest, rfl, .inr ⟨ch, rfl, h⟩, ?_⟩
      rintro ⟨rfl⟩ hhead
      exact hpair ⟨rfl, hhead⟩
  have hslash : ch ≠ '/' := by
    rintro rfl
    cases h
  rw [hrest] at hc
  refine ⟨.token .lineTerminator text, after, hc, .token (.lineBreak htext) ?_ ?_ hcr, ?_, ?_⟩
  · rw [← hrest]
    simp [hslash.symm]
  · rw [← hrest]
    simp [hslash.symm]
  · rw [hc, breakLength_append htext hcr]
    rfl
  · rw [lineBreakAt_eq hc htext hcr]
    rfl

theorem passes_significant [XidTable] (hc : c.rest = ch :: rest) (hcr : ch ≠ '\r')
    (hline : c.startsWith ['/', '/'] = false) (hblock : c.startsWith ['/', '*'] = false)
    {kind : TokenKind} (h : significant ch c = .ok kind c') :
    Passes c (.found (tokenFrom c kind c')) c' := by
  obtain ⟨text, after, htext, rfl, hkind⟩ := significant_sound hc h
  rw [Cursor.startsWith, htext, Bool.eq_false_iff, ne_eq, List.isPrefixOf_iff_prefix]
    at hline hblock
  refine ⟨.token kind text, after, htext, .token hkind hline hblock ?_, rfl, ?_⟩
  · rintro rfl
    rw [hc] at htext
    cases htext
    exact absurd rfl hcr
  · rw [tokenFrom, Cursor.sliceFrom_advanceBy, htext, List.take_left]
    rfl

theorem exists_of_startsWith {first second : Char} (h : c.startsWith [first, second] = true) :
    ∃ rest, c.rest = first :: second :: rest := by
  obtain ⟨rest, hrest⟩ := List.isPrefixOf_iff_prefix.1 h
  exact ⟨rest, hrest.symm⟩

/-- Every step but the last one passes a segment. -/
theorem passes_step [XidTable] (hexact : c.IsExact) (h : step c = .ok r c') :
    (r = .atEnd ∧ c.rest = [] ∧ c' = c) ∨ Passes c r c' := by
  cases hc : c.rest with
  | nil =>
    rw [step_atEnd hc] at h
    cases h
    exact .inl ⟨rfl, rfl, rfl⟩
  | cons ch rest =>
    refine .inr ?_
    have hpeek : c.peek? = some ch := by rw [Cursor.peek?, hc]; rfl
    unfold step at h
    simp only [get_bind, hpeek] at h
    split_ifs at h with hspace hline hslash hstar hbang
    · cases h
      exact passes_space hc hspace
    · cases h
      exact passes_lineBreak hc hline
    · obtain ⟨tail, htail⟩ := exists_of_startsWith hslash
      rw [bind_ok (lineComment_eq htail (by decide) (by decide))] at h
      cases h
      exact ⟨.lineComment (tail.takeWhile fun ch => !isLineTerminator ch),
        tail.dropWhile fun ch => !isLineTerminator ch, by simp [htail, Segment.text],
        .lineComment (split_line tail).1 (split_line tail).2, rfl, rfl⟩
    · obtain ⟨tail, htail⟩ := exists_of_startsWith hstar
      obtain ⟨t, c₁, hcomment, h⟩ := bind_eq_ok h
      have hpasses := passes_blockComment htail hcomment
      cases t with
      | none =>
        cases h
        exact hpasses
      | some t =>
        cases h
        exact hpasses
    · obtain ⟨tail, htail⟩ := exists_of_startsWith hbang.2
      rw [bind_ok (lineComment_eq htail (by decide) (by decide))] at h
      cases h
      have hbefore : c.before.reverse = [] := by rw [hexact.before_eq_nil hbang.1]; rfl
      exact ⟨.hashbang (tail.takeWhile fun ch => !isLineTerminator ch),
        tail.dropWhile fun ch => !isLineTerminator ch, by simp [htail, Segment.text],
        .hashbang hbefore (split_line tail).1 (split_line tail).2, rfl, rfl⟩
    · obtain ⟨kind, c₁, hkind, h⟩ := bind_eq_ok h
      cases h
      refine passes_significant hc ?_ (by simpa using hslash) (by simpa using hstar) hkind
      rintro rfl
      exact hline rfl

end Scan

/-! ### Runs -/

namespace Segment

variable {s : Segment} {segments : List Segment} {c : Cursor} {t : Token}

theorem Fits.text_ne_nil [XidTable] {before after : List Char} (h : s.Fits before after) :
    s.text ≠ [] := by
  cases h with
  | space hne => exact hne
  | lineComment => exact List.cons_ne_nil _ _
  | hashbang => exact List.cons_ne_nil _ _
  | blockComment => exact List.cons_ne_nil _ _
  | token h => exact h.ne_nil

/-- The token of a segment stands in its text. -/
theorem exists_of_token? [XidTable] {before after : List Char} (hfits : s.Fits before after)
    (h : s.token? c = some t) : ∃ pre post, s.text = pre ++ (t.text.toList ++ post) ∧
      t.location = (c.advanceBy pre.length).location ∧ t.text.toList ≠ [] := by
  cases hfits with
  | space => cases h
  | lineComment => cases h
  | hashbang => cases h
  | @blockComment body =>
    obtain ⟨found, hfound, rfl⟩ := Option.map_eq_some_iff.1 h
    obtain ⟨more, rfl, -, htext, -⟩ := firstBreak_eq_some hfound
    refine ⟨'/' :: '*' :: found.1, more ++ ['*', '/'], by simp [text], rfl, ?_⟩
    simpa using (TokenText.lineBreak htext).ne_nil
  | @token kind text htext =>
    cases h
    exact ⟨[], [], by simp [Segment.text], rfl, by simpa using htext.ne_nil⟩

theorem exists_of_mem_tokensFrom [XidTable] {before after : List Char}
    (hfits : Tile before after segments) (h : t ∈ tokensFrom c segments) : ∃ pre post,
      segments.flatMap text = pre ++ (t.text.toList ++ post) ∧
      t.location = (c.advanceBy pre.length).location ∧ t.text.toList ≠ [] := by
  induction segments generalizing c before with
  | nil => cases h
  | cons s segments ih =>
    rcases List.mem_append.1 h with h | h
    · obtain ⟨pre, post, htext, hloc, hne⟩ := exists_of_token? hfits.1 (by simpa using h)
      exact ⟨pre, post ++ segments.flatMap text, by simp [htext], hloc, hne⟩
    · obtain ⟨pre, post, htext, hloc, hne⟩ := ih hfits.2 h
      refine ⟨s.text ++ pre, post, by simp [htext], ?_, hne⟩
      rw [hloc, ← Cursor.advanceBy_add, List.length_append]

theorem tokenText_of_mem_tokensFrom [XidTable] {before after : List Char}
    (hfits : Tile before after segments) (h : t ∈ tokensFrom c segments) :
    TokenText t.kind t.text.toList := by
  induction segments generalizing c before with
  | nil => cases h
  | cons s segments ih =>
    rcases List.mem_append.1 h with h | h
    · have htoken : s.token? c = some t := by simpa using h
      cases hfits.1 with
      | space => cases htoken
      | lineComment => cases htoken
      | hashbang => cases htoken
      | blockComment =>
        obtain ⟨found, hfound, rfl⟩ := Option.map_eq_some_iff.1 htoken
        obtain ⟨-, -, -, htext, -⟩ := firstBreak_eq_some hfound
        simpa using TokenText.lineBreak htext
      | token htext =>
        cases htoken
        simpa using htext
    · exact ih hfits.2 h

theorem pairwise_tokensFrom [XidTable] {before after : List Char}
    (hfits : Tile before after segments) (hc : c.rest = segments.flatMap text ++ after) :
    (tokensFrom c segments).Pairwise fun t u => t.endOffset ≤ u.location.offset := by
  induction segments generalizing c before with
  | nil => exact .nil
  | cons s segments ih =>
    rw [List.flatMap_cons, List.append_assoc] at hc
    have hc' : (c.advanceBy s.text.length).rest = segments.flatMap text ++ after := by
      rw [Cursor.advanceBy_rest, hc, List.drop_left]
    refine List.pairwise_append.2 ⟨?_, ih hfits.2 hc', fun t ht u hu => ?_⟩
    · cases s.token? c <;> simp
    · obtain ⟨pre, post, htext, hloc, -⟩ := exists_of_token? hfits.1 (by simpa using ht)
      obtain ⟨pre', post', htext', hloc', -⟩ := exists_of_mem_tokensFrom hfits.2 hu
      have hsize : (String.ofList s.text).utf8ByteSize = (String.ofList pre).utf8ByteSize +
          (t.text.utf8ByteSize + (String.ofList post).utf8ByteSize) := by
        rw [htext, String.ofList_append, String.ofList_append, String.utf8ByteSize_append,
          String.utf8ByteSize_append, String.ofList_toList]
      have hstart := Cursor.advanceBy_length_offset
        (show c.rest = pre ++ (t.text.toList ++ post ++ (segments.flatMap text ++ after)) by
          rw [hc, htext, List.append_assoc])
      have hfinish := Cursor.advanceBy_length_offset hc
      have hnext := Cursor.advanceBy_length_offset
        (show (c.advanceBy s.text.length).rest = pre' ++ (u.text.toList ++ post' ++ after) by
          rw [hc', htext', List.append_assoc])
      rw [Token.endOffset, hloc, hstart, hloc', hnext, hfinish, hsize]
      omega

end Segment

/-- A scan passes segments, one after the other. -/
theorem Lexed.scan_tiles [XidTable] {c : Cursor} (hexact : c.IsExact) (tokens : List Token)
    {fuel : Nat} (hfuel : c.rest.length < fuel) : ∃ segments rest finish error,
      c.rest = segments.flatMap Segment.text ++ rest ∧
      Segment.Tile c.before.reverse rest segments ∧
      scan c tokens fuel = ⟨tokens.reverse ++ Segment.tokensFrom c segments, finish, error⟩ ∧
      (error = none ↔ rest = []) ∧
      (error = none → finish = (c.advanceBy c.rest.length).location) := by
  induction fuel generalizing c tokens with
  | zero => omega
  | succ fuel ih =>
    cases hstep : Scan.step c with
    | error e c' =>
      refine ⟨[], c.rest, c'.location, some e, rfl, trivial, ?_, ?_, by simp⟩
      · rw [scan, hstep, Segment.tokensFrom, List.append_nil]
      · simp only [reduceCtorEq, false_iff]
        intro hrest
        rw [Scan.step_atEnd hrest] at hstep
        cases hstep
    | ok r c' =>
      obtain ⟨rfl, hrest, rfl⟩ | ⟨s, after, hc, hfits, rfl, rfl⟩ := Scan.passes_step hexact hstep
      · refine ⟨[], [], c'.location, none, hrest, trivial, ?_, by simp, fun _ => by rw [hrest]; rfl⟩
        rw [scan, hstep, Segment.tokensFrom, List.append_nil]
      · have hscan : scan c tokens (fuel + 1) =
            scan (c.advanceBy s.text.length) ((s.token? c).toList ++ tokens) fuel := by
          cases htoken : s.token? c with
          | none => rw [htoken] at hstep; exact scan_dropped hstep tokens fuel
          | some t => rw [htoken] at hstep; exact scan_found hstep tokens fuel
        have hrest : (c.advanceBy s.text.length).rest = after := by
          rw [Cursor.advanceBy_rest, hc, List.drop_left]
        have hpos := List.length_pos_iff.2 hfits.text_ne_nil
        rw [hc, List.length_append] at hfuel
        obtain ⟨segments, rest, finish, error, htext, htile, heq, herror, hfinish⟩ :=
          ih (hexact.advanceBy s.text.length) ((s.token? c).toList ++ tokens) (by rw [hrest]; omega)
        have hbefore : (c.advanceBy s.text.length).before.reverse = c.before.reverse ++ s.text := by
          rw [Cursor.advanceBy_before, hc, List.take_left, List.reverse_append,
            List.reverse_reverse]
        rw [hrest] at htext hfinish
        rw [hbefore] at htile
        refine ⟨s :: segments, rest, finish, error, ?_, ⟨htext ▸ hfits, htile⟩, ?_, herror, ?_⟩
        · rw [hc, htext, List.flatMap_cons, List.append_assoc]
        · rw [hscan, heq, Segment.tokensFrom]
          cases s.token? c <;> simp
        · intro hnone
          rw [hfinish hnone, hc, List.length_append, Cursor.advanceBy_add]

theorem Lexed.ofString_tiles [XidTable] (source : String) : ∃ segments rest finish error,
    source.toList = segments.flatMap Segment.text ++ rest ∧ Segment.Tile [] rest segments ∧
      ofString source =
        ⟨Segment.tokensFrom (Cursor.ofString source) segments, finish, error⟩ ∧
      (error = none ↔ rest = []) ∧
      (error = none →
        finish = ((Cursor.ofString source).advanceBy source.toList.length).location) :=
  scan_tiles (Cursor.isExact_ofString source) [] (Nat.lt_succ_self _)

theorem Cursor.ofString_advanceBy_offset {source : String} {text after : List Char}
    (h : source.toList = text ++ after) :
    ((ofString source).advanceBy text.length).location.offset =
      (String.ofList text).utf8ByteSize := by
  rw [advanceBy_length_offset (h : (ofString source).rest = _)]
  exact Nat.zero_add _

/-- How the tokens of a source text lie in it: segments up to the first error, which leaves the
rest of the text. -/
structure Lexed.Tiles (source : String) (segments : List Segment) (rest : List Char) : Prop where
  text : source.toList = segments.flatMap Segment.text ++ rest
  fits : Segment.Tile [] rest segments
  tokens : (ofString source).tokens = Segment.tokensFrom (Cursor.ofString source) segments
  slice : ∀ t ∈ (ofString source).tokens, ∃ before after,
    source.toList = before ++ (t.text.toList ++ after) ∧
      t.location.offset = (String.ofList before).utf8ByteSize ∧ t.text.toList ≠ []
  ordered : (ofString source).tokens.Pairwise fun t u => t.endOffset ≤ u.location.offset
  complete : (ofString source).error = none ↔ rest = []
  finish : (ofString source).error = none →
    (ofString source).finish = ((Cursor.ofString source).advanceBy source.toList.length).location ∧
      (ofString source).finish.offset = source.utf8ByteSize

/-- Tokens, white space and comments tile the source text. -/
theorem Lexed.tokens_tile_source (source : String) :
    ∃ segments rest, Lexed.Tiles source segments rest := by
  obtain ⟨segments, rest, finish, error, htext, htile, hlexed, herror, hfinish⟩ :=
    ofString_tiles source
  refine ⟨segments, rest, htext, htile, by rw [hlexed], ?_, ?_, by rw [hlexed]; exact herror, ?_⟩
  · rw [hlexed]
    intro t ht
    obtain ⟨pre, post, hpre, hloc, hne⟩ := Segment.exists_of_mem_tokensFrom htile ht
    have hsource : source.toList = pre ++ (t.text.toList ++ (post ++ rest)) := by
      rw [htext, hpre]
      simp
    exact ⟨pre, post ++ rest, hsource, by rw [hloc, Cursor.ofString_advanceBy_offset hsource], hne⟩
  · rw [hlexed]
    exact Segment.pairwise_tokensFrom htile htext
  · rw [hlexed]
    intro hnone
    refine ⟨hfinish hnone, ?_⟩
    rw [hfinish hnone, Cursor.ofString_advanceBy_offset (List.append_nil _).symm,
      String.ofList_toList]

/-- The texts of tokens with spaces between them have the same tokens, whatever the tables of
identifiers are, as long as the characters that start one may stand in it and none is a blank. -/
theorem Lexed.tokens_of_spaced_tokens [XidTable] (source : String) :
    (ofString (" ".intercalate ((ofString source).tokens.map Token.text))).error = none ∧
      (ofString (" ".intercalate ((ofString source).tokens.map Token.text))).tokens.map
        (fun t => (t.kind, t.text)) = (ofString source).tokens.map fun t => (t.kind, t.text) := by
  obtain ⟨segments, rest, finish, error, -, htile, hlexed, -⟩ := ofString_tiles source
  have hread : ∀ x ∈ (ofString source).tokens.map fun t => (t.kind, t.text), Lexeme.IsRead x := by
    rw [hlexed]
    intro x hx
    obtain ⟨t, ht, rfl⟩ := List.mem_map.1 hx
    exact (Segment.tokenText_of_mem_tokensFrom htile ht).isRead
  have htext := toList_intercalate ((ofString source).tokens.map fun t => (t.kind, t.text))
  rw [List.map_map] at htext
  obtain ⟨found, finish', hscan, hfound⟩ := scan_spaced hread
    (c := Cursor.ofString (" ".intercalate ((ofString source).tokens.map Token.text))) htext []
    (Nat.lt_succ_self _)
  have hagain : ofString (" ".intercalate ((ofString source).tokens.map Token.text)) =
      ⟨found, finish', none⟩ := hscan
  rw [hagain]
  exact ⟨rfl, hfound⟩

/-- A letter beyond ASCII and a number, which only a comment divides. -/
theorem Lexed.tokens_of_spaced_tokens_letter :
    (ofString "ℓ/**/1").tokens.map Token.text = ["ℓ", "1"] ∧
      (ofString "ℓ 1").error = none ∧
      (ofString "ℓ 1").tokens.map (fun t => (t.kind, t.text)) =
        (ofString "ℓ/**/1").tokens.map fun t => (t.kind, t.text) := by
  have htexts : (ofString "ℓ/**/1").tokens.map Token.text = ["ℓ", "1"] := by decide +kernel
  have h := tokens_of_spaced_tokens "ℓ/**/1"
  rw [htexts] at h
  exact ⟨htexts, h⟩

end Ecma
