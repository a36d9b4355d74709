import Mathlib
import Ecma.Proofs.Token.Tiling

/-! Line breaks between significant tokens. -/

namespace Ecma

theorem Scan.wordKind_ne_lineTerminator (word : String) : wordKind word ≠ .lineTerminator := by
  unfold wordKind
  split_ifs
  · simp
  · simp
  · split <;> simp

theorem NumberText.kind {kind : TokenKind} {text : List Char} (h : NumberText kind text) :
    kind ≠ .lineTerminator := by
  have hsuffix {suffix : List Char} (h : SuffixText kind suffix) : kind ≠ .lineTerminator := by
    cases h <;> simp
  cases h with
  | marked _ _ h => exact hsuffix h
  | unmarked _ _ h =>
    cases h with
    | octal => simp
    | decimal _ _ _ h => exact hsuffix h

theorem TokenText.isLineBreak {text : List Char} (h : TokenText .lineTerminator text) :
    IsLineBreak text := by
  generalize hkind : TokenKind.lineTerminator = kind at h
  cases h with
  | word => exact absurd hkind.symm (Scan.wordKind_ne_lineTerminator _)
  | privateName => cases hkind
  | punctuator => cases hkind
  | string => cases hkind
  | number _ h => exact absurd hkind.symm h.kind
  | lineBreak h => exact h

theorem IsLineBreak.any {text : List Char} (h : IsLineBreak text) :
    text.any isLineTerminator = true := by
  rcases h with rfl | ⟨ch, rfl, hch⟩
  · decide
  · simpa using hch

theorem isSome_firstBreak (l : List Char) : (firstBreak l).isSome = l.any isLineTerminator := by
  rw [Bool.eq_iff_iff, Option.isSome_iff_ne_none, ne_eq, firstBreak_eq_none]
  simp

namespace Segment

variable {s : Segment} {segments gap more : List Segment} {c : Cursor} {before after : List Char}

/-- A token that is no line break. -/
def isSignificant : Segment → Bool
  | .token kind _ => kind ≠ .lineTerminator
  | _ => false

theorem tokensFrom_append (gap more : List Segment) (c : Cursor) : tokensFrom c (gap ++ more) =
    tokensFrom c gap ++ tokensFrom (c.advanceBy (gap.flatMap text).length) more := by
  induction gap generalizing c with
  | nil => rfl
  | cons s gap ih =>
    rw [List.cons_append, tokensFrom, ih, tokensFrom, List.flatMap_cons, List.length_append,
      Cursor.advanceBy_add, List.append_assoc]

theorem Tile.append (h : Tile before after (gap ++ more)) :
    Tile before (more.flatMap text ++ after) gap ∧
      Tile (before ++ gap.flatMap text) after more := by
  induction gap generalizing before with
  | nil => exact ⟨trivial, by simpa using h⟩
  | cons s gap ih =>
    obtain ⟨hs, hrest⟩ := h
    obtain ⟨hgap, hmore⟩ := ih hrest
    change s.Fits before ((gap ++ more).flatMap text ++ after) at hs
    rw [List.flatMap_append, List.append_assoc] at hs
    rw [List.append_assoc] at hmore
    exact ⟨⟨hs, hgap⟩, by rwa [List.flatMap_cons]⟩

/-- Between significant tokens, a segment has a token just if it has a line terminator. -/
theorem Fits.isSome_token? (h : s.Fits before after) (hs : s.isSignificant = false) (c : Cursor) :
    (s.token? c).isSome = s.text.any isLineTerminator := by
  have hslash : isLineTerminator '/' = false := by decide
  cases h with
  | @space text _ hall _ =>
    have hnone : text.any isLineTerminator = false := by
      rw [List.any_eq_false]
      intro ch hch hline
      have hspace := Scan.isWhitespace_of_isLineTerminator hline
      rw [hall ch hch] at hspace
      cases hspace
    rw [Segment.text, hnone]
    rfl
  | lineComment hall _ => simpa [token?, text, hslash] using hall
  | hashbang _ hall _ => simpa [token?, text, isLineTerminator] using hall
  | @blockComment body _ =>
    have hstar : isLineTerminator '*' = false := by decide
    simp [token?, text, hslash, hstar, isSome_firstBreak]
  | @token kind text h _ _ _ =>
    obtain rfl : kind = .lineTerminator := by simpa [isSignificant] using hs
    exact h.isLineBreak.any.symm

theorem isEmpty_tokensFrom (h : Tile before after gap)
    (hgap : ∀ s ∈ gap, s.isSignificant = false) (c : Cursor) :
    (tokensFrom c gap).isEmpty = !(gap.flatMap text).any isLineTerminator := by
  induction gap generalizing c before with
  | nil => rfl
  | cons s gap ih =>
    have hs := h.1.isSome_token? (hgap s (by simp)) c
    have hrest := ih h.2 (fun s hs => hgap s (by simp [hs])) (c.advanceBy s.text.length)
    rw [tokensFrom, List.flatMap_cons, List.any_append, Bool.not_or, ← hrest, ← hs]
    cases s.token? c <;> rfl

theorem not_significant_of_mem (hgap : ∀ s ∈ gap, s.isSignificant = false) {t : Token}
    (h : t ∈ tokensFrom c gap) : t.kind = .lineTerminator := by
  induction gap generalizing c with
  | nil => cases h
  | cons s gap ih =>
    rcases List.mem_append.1 h with h | h
    · have htoken : s.token? c = some t := by simpa using h
      have hs := hgap s (by simp)
      cases s with
      | space => cases htoken
      | lineComment => cases htoken
      | hashbang => cases htoken
      | blockComment =>
        obtain ⟨found, -, rfl⟩ := Option.map_eq_some_iff.1 htoken
        rfl
      | token kind text =>
        cases htoken
        simpa [isSignificant] using hs
    · exact ih (fun s hs => hgap s (by simp [hs])) h

/-- Nothing is left, or a significant token comes next. -/
def AtToken (segments : List Segment) : Prop :=
  segments = [] ∨ ∃ kind text tail, segments = .token kind text :: tail ∧ kind ≠ .lineTerminator

/-- Segments split at the first significant token. -/
theorem exists_gap (segments : List Segment) : ∃ gap more, segments = gap ++ more ∧
    (∀ s ∈ gap, s.isSignificant = false) ∧ AtToken more := by
  induction segments with
  | nil => exact ⟨[], [], rfl, by simp, .inl rfl⟩
  | cons s segments ih =>
    cases hs : s.isSignificant with
    | false =>
      obtain ⟨gap, more, rfl, hgap, hmore⟩ := ih
      exact ⟨s :: gap, more, rfl, by simpa [hs] using hgap, hmore⟩
    | true =>
      refine ⟨[], s :: segments, rfl, by simp, .inr ?_⟩
      cases s with
      | token kind text => exact ⟨kind, text, segments, rfl, by simpa [isSignificant] using hs⟩
      | _ => cases hs

end Segment

/-! ### Reading -/

namespace TokenStream

/-- The positions that a reader gets to by taking tokens. -/
inductive Advances (start : TokenStream) : TokenStream → Prop
  | here : Advances start start
  | next {s s' : TokenStream} {t : Token} (h : Advances start s) (hnext : s.next? = some (t, s')) :
    Advances start s'
  | eat {s s' : TokenStream} {kind : TokenKind} (h : Advances start s)
    (heat : s.eat? kind = some s') : Advances start s'

/-- The position after segments at the start of a source text. -/
def cursorAfter (source : String) (read : List Segment) : Cursor :=
  (Cursor.ofString source).advanceBy (read.flatMap Segment.text).length

/-- A stream has read some segments of a source text, and others are left. -/
structure IsBetween (source : String) (read left : List Segment) (s : TokenStream) : Prop where
  text : source.toList = read.flatMap Segment.text ++ left.flatMap Segment.text
  tile : Segment.Tile (read.flatMap Segment.text) [] left
  rest : s.rest = Segment.tokensFrom (cursorAfter source read) left
  previousEnd : s.previousEnd = (String.ofList (read.flatMap Segment.text)).utf8ByteSize
  finish : s.finish.offset = source.utf8ByteSize

variable {source : String} {s s' : TokenStream} {read left : List Segment}

theorem firstSignificant_append {gap : List Token} (hgap : ∀ t ∈ gap, t.kind = .lineTerminator)
    (rest : List Token) : firstSignificant (gap ++ rest) = firstSignificant rest := by
  induction gap with
  | nil => rfl
  | cons t gap ih =>
    have ht : t.isSignificant = false := by simp [Token.isSignificant, hgap t (by simp)]
    rw [List.cons_append, firstSignificant, if_neg (by simp [ht]),
      ih fun t ht => hgap t (by simp [ht])]

theorem isBetween_ofString (h : ofString source = .ok s) :
    ∃ segments, IsBetween source [] segments s := by
  obtain ⟨segments, rest, finish, error, htext, htile, hlexed, herror, hfinish⟩ :=
    Lexed.ofString_tiles source
  unfold ofString at h
  rw [hlexed] at h
  cases error with
  | some e => cases h
  | none =>
    cases h
    obtain rfl := herror.1 rfl
    refine ⟨segments, ?_, htile, rfl, rfl, ?_⟩
    · rw [htext, List.append_nil]
      rfl
    · rw [hfinish rfl, Cursor.ofString_advanceBy_offset (List.append_nil _).symm,
        String.ofList_toList]

theorem cursorAfter_append (source : String) (read gap : List Segment) :
    cursorAfter source (read ++ gap) =
      (cursorAfter source read).advanceBy (gap.flatMap Segment.text).length := by
  rw [cursorAfter, cursorAfter, List.flatMap_append, List.length_append, Cursor.advanceBy_add]

section

variable {gap more : List Segment} (h : IsBetween source read (gap ++ more) s)
  (hgap : ∀ s ∈ gap, s.isSignificant = false)

include h

theorem IsBetween.rest_append : s.rest = Segment.tokensFrom (cursorAfter source read) gap ++
    Segment.tokensFrom (cursorAfter source (read ++ gap)) more := by
  rw [h.rest, Segment.tokensFrom_append, cursorAfter_append]

theorem IsBetween.text_append : source.toList = read.flatMap Segment.text ++
    (gap.flatMap Segment.text ++ more.flatMap Segment.text) := by
  rw [h.text, List.flatMap_append]

theorem IsBetween.offset_append : (cursorAfter source (read ++ gap)).location.offset =
    (String.ofList (read.flatMap Segment.text ++ gap.flatMap Segment.text)).utf8ByteSize := by
  have htext : source.toList = (read ++ gap).flatMap Segment.text ++ more.flatMap Segment.text := by
    rw [h.text_append, List.flatMap_append, List.append_assoc]
  rw [cursorAfter, Cursor.ofString_advanceBy_offset htext, List.flatMap_append]

include hgap

theorem IsBetween.firstSignificant_eq : firstSignificant s.rest =
    firstSignificant (Segment.tokensFrom (cursorAfter source (read ++ gap)) more) := by
  rw [h.rest_append, firstSignificant_append fun t ht => Segment.not_significant_of_mem hgap ht]

end

theorem firstSignificant_token {kind : TokenKind} (hkind : kind ≠ .lineTerminator)
    (text : List Char) (left : List Segment) (c : Cursor) :
    firstSignificant (Segment.tokensFrom c (.token kind text :: left)) =
      some (⟨kind, String.ofList text, c.location⟩,
        Segment.tokensFrom (c.advanceBy text.length) left) := by
  change firstSignificant (⟨kind, String.ofList text, c.location⟩ :: _) = _
  rw [firstSignificant, if_pos (by simp [Token.isSignificant, hkind])]
  rfl

/-- Taking a token moves past it and the segments before it. -/
theorem IsBetween.next {t : Token} (h : IsBetween source read left s)
    (hnext : s.next? = some (t, s')) : ∃ gap kind text left',
      left = gap ++ .token kind text :: left' ∧ kind ≠ .lineTerminator ∧
        IsBetween source (read ++ gap ++ [.token kind text]) left' s' := by
  obtain ⟨gap, more, rfl, hgap, hmore⟩ := Segment.exists_gap left
  rw [next?, h.firstSignificant_eq hgap] at hnext
  obtain rfl | ⟨kind, text, left, rfl, hkind⟩ := hmore
  · cases hnext
  · rw [firstSignificant_token hkind] at hnext
    cases hnext
    have htext := h.text_append
    have hsource : source.toList =
        (read ++ gap ++ [Segment.token kind text]).flatMap Segment.text ++
          left.flatMap Segment.text := by
      rw [htext]
      simp [Segment.text]
    refine ⟨gap, kind, text, left, rfl, hkind, hsource, ?_, ?_, ?_, h.finish⟩
    · have htile := h.tile.append.2.2
      simpa [Segment.text] using htile
    · rw [cursorAfter_append source (read ++ gap), List.flatMap_singleton]
      rfl
    · rw [Token.endOffset, h.offset_append, ← String.utf8ByteSize_append, ← String.ofList_append]
      simp [Segment.text]

theorem Advances.isBetween (h : s.Advances s') (hs : IsBetween source read left s) :
    ∃ read' left', IsBetween source read' left' s' := by
  induction h with
  | here => exact ⟨read, left, hs⟩
  | next _ hnext ih =>
    obtain ⟨read', left', hbetween⟩ := ih
    obtain ⟨_, _, _, _, -, -, hbetween'⟩ := hbetween.next hnext
    exact ⟨_, _, hbetween'⟩
  | eat _ heat ih =>
    obtain ⟨read', left', hbetween⟩ := ih
    unfold eat? at heat
    split at heat
    · obtain ⟨⟨t, s'⟩, hnext, rfl⟩ := Option.map_eq_some_iff.1 heat
      obtain ⟨_, _, _, _, -, -, hbetween'⟩ := hbetween.next hnext
      exact ⟨_, _, hbetween'⟩
    · cases heat

theorem IsBetween.location_offset {gap more : List Segment}
    (h : IsBetween source read (gap ++ more) s) (hgap : ∀ s ∈ gap, s.isSignificant = false)
    (hmore : Segment.AtToken more) :
    s.location.offset =
      (String.ofList (read.flatMap Segment.text ++ gap.flatMap Segment.text)).utf8ByteSize := by
  unfold location peek?
  rw [h.firstSignificant_eq hgap]
  obtain rfl | ⟨kind, text, tail, rfl, hkind⟩ := hmore
  · have htext := h.text_append
    rw [List.flatMap_nil, List.append_nil] at htext
    rw [← htext, String.ofList_toList]
    exact h.finish
  · rw [firstSignificant_token hkind]
    exact h.offset_append

theorem IsBetween.lineTerminatorBefore_eq {gap more : List Segment}
    (h : IsBetween source read (gap ++ more) s) (hgap : ∀ s ∈ gap, s.isSignificant = false)
    (hmore : Segment.AtToken more) :
    s.lineTerminatorBefore = (gap.flatMap Segment.text).any isLineTerminator := by
  have hempty := Segment.isEmpty_tokensFrom h.tile.append.1 hgap (cursorAfter source read)
  rw [← Bool.not_not (List.any _ _), ← hempty, lineTerminatorBefore, h.rest_append]
  cases htokens : Segment.tokensFrom (cursorAfter source read) gap with
  | cons t tokens =>
    have ht := Segment.not_significant_of_mem hgap (htokens ▸ List.mem_cons_self)
    simp [ht]
  | nil =>
    obtain rfl | ⟨kind, text, tail, rfl, hkind⟩ := hmore
    · rfl
    · simpa [Segment.tokensFrom, Segment.token?] using hkind

/-- A line terminator is reported before the next significant token just if the text since the
last one that was taken contains one. -/
theorem lineTerminatorBefore_iff {start : TokenStream} (hstart : ofString source = .ok start)
    (h : start.Advances s) : ∃ before between after,
      source.toList = before ++ (between ++ after) ∧
      s.previousEnd = (String.ofList before).utf8ByteSize ∧
      s.location.offset = (String.ofList (before ++ between)).utf8ByteSize ∧
      (s.lineTerminatorBefore = true ↔ ∃ ch ∈ between, isLineTerminator ch = true) := by
  obtain ⟨segments, hsegments⟩ := isBetween_ofString hstart
  obtain ⟨read, left, hbetween⟩ := h.isBetween hsegments
  obtain ⟨gap, more, rfl, hgap, hmore⟩ := Segment.exists_gap left
  refine ⟨read.flatMap Segment.text, gap.flatMap Segment.text, more.flatMap Segment.text,
    hbetween.text_append, hbetween.previousEnd, hbetween.location_offset hgap hmore, ?_⟩
  rw [hbetween.lineTerminatorBefore_eq hgap hmore, List.any_eq_true]

/-- The stream of `a` and `b` with a comment over two lines between them. -/
def acrossComment : TokenStream :=
  ⟨[⟨.identifier, "a", ⟨1, 0, 0⟩⟩, ⟨.lineTerminator, "\r\n", ⟨1, 3, 3⟩⟩,
    ⟨.identifier, "b", ⟨2, 2, 7⟩⟩], ⟨2, 3, 8⟩, 0, 3⟩

theorem lineTerminatorBefore_iff_comment : ofString "a/*\r\n*/b" = .ok acrossComment ∧
    ∃ s before between after, acrossComment.Advances s ∧ s.lineTerminatorBefore = true ∧
      "a/*\r\n*/b".toList = before ++ (between ++ after) ∧
      s.previousEnd = (String.ofList before).utf8ByteSize ∧
      s.location.offset = (String.ofList (before ++ between)).utf8ByteSize ∧
      (s.lineTerminatorBefore = true ↔ ∃ ch ∈ between, isLineTerminator ch = true) := by
  have hstart : ofString "a/*\r\n*/b" = .ok acrossComment := by
    decide +kernel
  have hnext : acrossComment.next? = some (⟨.identifier, "a", ⟨1, 0, 0⟩⟩,
      ⟨acrossComment.rest.tail, ⟨2, 3, 8⟩, 1, 3⟩) := by decide +kernel
  have hadvances := Advances.next .here hnext
  obtain ⟨before, between, after, h⟩ := lineTerminatorBefore_iff hstart hadvances
  exact ⟨hstart, _, before, between, after, hadvances, rfl, h⟩

end TokenStream

end Ecma
