import Ecma.Proofs.Syntax.Excerpt
import Ecma.Proofs.Token.Splice

/-! The tokens of a stretch of source text that stands in two texts: the same ones, at the same places
of the stretch. -/

namespace Ecma

/-! ### Scans -/

theorem StringBody.of_all {quote : Char} {body : List Char}
    (h : body.all (fun ch => ch != '\\' && ch != quote && ch != '\n' && ch != '\r') = true) :
    StringBody quote body := by
  induction body with
  | nil => exact .nil
  | cons ch body ih =>
    simp only [List.all_cons, Bool.and_eq_true, bne_iff_ne] at h
    obtain ⟨⟨⟨⟨hslash, hquote⟩, hlf⟩, hcr⟩, hbody⟩ := h
    exact .plain hslash hquote hlf hcr (ih (by simpa using hbody))

namespace Scan

variable {c : Cursor} {ch : Char} {tail : List Char}

/-- A word is a token where a scan reads it as one. -/
theorem runs_word {more : List Char} (hc : c.rest = ch :: more ++ tail)
    (hfirst : isIdentifierStart ch = true) (hmore : more.all isIdentifierContinue = true)
    (hword : significant ch c =
      .ok (wordKind (String.ofList (ch :: more))) (c.advanceBy (ch :: more).length)) :
    Runs c [.token (wordKind (String.ofList (ch :: more))) (ch :: more)] := by
  have hne {first second : Char} (hstart : isIdentifierStart first = false) :
      ¬ [first, second] <+: ch :: more ++ tail := by
    rw [List.cons_append, List.cons_prefix_cons]
    exact fun h => ne_of_isIdentifierStart hfirst hstart h.1.symm
  have hslash : isIdentifierStart '/' = false := isIdentifierStart_mark (by decide)
  have hfits : Segment.Fits c.before.reverse tail
      (.token (wordKind (String.ofList (ch :: more))) (ch :: more)) := by
    refine .token (.word hfirst (List.all_eq_true.mp hmore)) (hne hslash) (hne hslash) fun h => ?_
    have hreturn : isIdentifierStart '\r' = false := isIdentifierStart_mark (by decide)
    exact absurd (List.cons.inj h).1 (ne_of_isIdentifierStart hfirst hreturn)
  refine .step hc hfits ?_ (.none _)
  rw [step_significant hc (isWhitespace_of_isIdentifierStart hfirst)
    (isLineTerminator_of_isIdentifierStart hfirst) (startsWith_eq_false hc (hne hslash))
    (startsWith_eq_false hc (hne hslash))
    (startsWith_eq_false hc (hne (isIdentifierStart_mark (by decide)))) hword, hc, List.take_left]
  rfl

theorem runs_string {quote : Char} {body : List Char} (hquote : quote = '\'' ∨ quote = '"')
    (hbody : StringBody quote body) (hc : c.rest = quote :: (body ++ [quote]) ++ tail) :
    Runs c [.token .stringLiteral (quote :: (body ++ [quote]))] := by
  have hne {second : Char} : ¬ ['/', second] <+: quote :: (body ++ [quote]) ++ tail := by
    rw [List.cons_append, List.cons_prefix_cons]
    rintro ⟨rfl, -⟩
    rcases hquote with h | h <;> cases h
  refine .step hc (.token (.string hquote hbody) hne hne ?_) (step_stringLiteral hquote hbody hc)
    (.none _)
  intro h
  obtain ⟨rfl, -⟩ := List.cons.inj h
  rcases hquote with h | h <;> cases h

theorem runs_space (hc : c.rest = ' ' :: tail) (htail : Ahead (isWhitespace · = false) tail) :
    Runs c [.space [' ']] := by
  have hall : ∀ ch ∈ [' '], isWhitespace ch = true := List.forall_mem_singleton.mpr (by decide)
  exact .step hc (.space (List.cons_ne_nil _ _) hall htail) (step_space hc htail) (.none _)

end Scan

/-- Where a scan without an error has passed some segments, it passes others up to the end. -/
theorem Lexed.runs_behind {c : Cursor} {segments : List Segment} (h : Scan.Runs c segments)
    (hexact : c.IsExact) {tail : List Char} (hc : c.rest = segments.flatMap Segment.text ++ tail)
    {tokens : List Token} {fuel : Nat} (hfuel : c.rest.length < fuel)
    (herror : (scan c tokens fuel).error = none) :
    ∃ more, tail = more.flatMap Segment.text ∧ Scan.Runs c (segments ++ more) := by
  induction h generalizing tokens fuel with
  | none c =>
    obtain ⟨more, htext, hruns⟩ := runs_of_scan hexact hfuel herror
    exact ⟨more, hc.symm.trans htext, hruns⟩
  | @step c s segments after text fits passed rest ih =>
    obtain ⟨fuel, rfl⟩ := Nat.exists_eq_add_one_of_ne_zero (Nat.ne_zero_of_lt hfuel)
    rw [List.flatMap_cons, List.append_assoc] at hc
    have hrest : (c.advanceBy s.text.length).rest = segments.flatMap Segment.text ++ tail := by
      rw [Cursor.advanceBy_rest, hc, List.drop_left]
    have hpos := List.length_pos_iff.2 fits.text_ne_nil
    have hlength : c.rest.length = s.text.length + (c.advanceBy s.text.length).rest.length := by
      rw [hrest, hc, List.length_append]
    have hscan : scan c tokens (fuel + 1) =
        scan (c.advanceBy s.text.length) ((s.token? c).toList ++ tokens) fuel := by
      cases htoken : s.token? c with
      | none => rw [htoken] at passed; exact scan_dropped passed tokens fuel
      | some t => rw [htoken] at passed; exact scan_found passed tokens fuel
    obtain ⟨more, htail, hruns⟩ := ih (hexact.advanceBy _) hrest (by omega) (hscan ▸ herror)
    exact ⟨more, htail, .step text fits passed hruns⟩

/-! ### Tokens of a stretch -/

namespace Segment

variable {s : Segment} {segments : List Segment} {c d : Cursor} {tail tail' : List Char}

/-- Wherever a segment stands it has the same token, at the same place of its text, or none. -/
theorem Fits.token?_eq {before after : List Char} (h : s.Fits before after) :
    (∀ c, s.token? c = none) ∨ ∃ kind word pre post, s.text = pre ++ (word ++ post) ∧
      ∀ c, s.token? c = some ⟨kind, String.ofList word, (c.advanceBy pre.length).location⟩ := by
  cases h with
  | space | lineComment | hashbang => exact .inl fun _ => rfl
  | @blockComment body =>
    cases hbreak : firstBreak body with
    | none => exact .inl fun c => by simp [token?, hbreak]
    | some found =>
      obtain ⟨clear, line⟩ := found
      obtain ⟨more, rfl, -⟩ := firstBreak_eq_some hbreak
      refine .inr ⟨.lineTerminator, line, '/' :: '*' :: clear, more ++ ['*', '/'], ?_, fun c => ?_⟩
      · simp [text]
      · simp [token?, hbreak]
  | @token kind word => exact .inr ⟨kind, word, [], [], by simp [text], fun _ => rfl⟩

/-- The same token in two texts, `k` bytes behind a place in each of them. -/
def Parallels (c d : Cursor) (size : Nat) (t t' : Token) : Prop :=
  t'.kind = t.kind ∧ t'.text = t.text ∧ ∃ k, k + t.text.utf8ByteSize ≤ size ∧
    t.location.offset = c.location.offset + k ∧ t'.location.offset = d.location.offset + k

theorem advanceBy_byteCount {text : List Char} (hc : c.rest = text ++ tail) :
    (c.advanceBy text.length).location.offset = c.location.offset + byteCount text := by
  rw [Cursor.advanceBy_offset, hc, List.take_left, byteCount]

theorem Fits.parallels {before after : List Char} (h : s.Fits before after)
    (hc : c.rest = s.text ++ tail) (hd : d.rest = s.text ++ tail') :
    List.Forall₂ (Parallels c d (byteCount s.text)) (s.token? c).toList (s.token? d).toList := by
  obtain hnone | ⟨kind, word, pre, post, htext, htoken⟩ := h.token?_eq
  · rw [hnone, hnone]
    exact .nil
  · rw [htext, List.append_assoc] at hc hd
    rw [htoken, htoken]
    refine .cons ⟨rfl, rfl, byteCount pre, ?_, advanceBy_byteCount hc, advanceBy_byteCount hd⟩ .nil
    rw [utf8ByteSize_ofList, ← byteCount, htext, byteCount_append, byteCount_append]
    omega

theorem Parallels.behind {text : List Char} (hc : c.rest = text ++ tail)
    (hd : d.rest = text ++ tail') {size : Nat} {t t' : Token}
    (h : Parallels (c.advanceBy text.length) (d.advanceBy text.length) size t t') :
    Parallels c d (byteCount text + size) t t' := by
  obtain ⟨hkind, htext, k, hk, ht, ht'⟩ := h
  rw [advanceBy_byteCount hc] at ht
  rw [advanceBy_byteCount hd] at ht'
  exact ⟨hkind, htext, byteCount text + k, by omega, by omega, by omega⟩

theorem Parallels.mono {size size' : Nat} {t t' : Token} (h : Parallels c d size t t')
    (hsize : size ≤ size') : Parallels c d size' t t' := by
  obtain ⟨hkind, htext, k, hk, hoffsets⟩ := h
  exact ⟨hkind, htext, k, by omega, hoffsets⟩

/-- By induction on the segments, each of which stands behind the same ones in both texts. -/
theorem parallels_tokensFrom {before after : List Char} (hfits : Tile before after segments)
    (hc : c.rest = segments.flatMap text ++ tail) (hd : d.rest = segments.flatMap text ++ tail') :
    List.Forall₂ (Parallels c d (byteCount (segments.flatMap text))) (tokensFrom c segments)
      (tokensFrom d segments) := by
  induction segments generalizing c d before with
  | nil => exact .nil
  | cons s segments ih =>
    rw [List.flatMap_cons, List.append_assoc] at hc hd
    have hrest {e : Cursor} {tail : List Char} (he : e.rest = s.text ++ tail) :
        (e.advanceBy s.text.length).rest = tail := by
      rw [Cursor.advanceBy_rest, he, List.drop_left]
    rw [tokensFrom, tokensFrom, List.flatMap_cons, byteCount_append]
    refine List.rel_append ?_ ?_
    · exact (hfits.1.parallels hc hd).imp fun _ _ h => h.mono (Nat.le_add_right _ _)
    · exact (ih hfits.2 (hrest hc) (hrest hd)).imp fun _ _ h => h.behind hc hd

end Segment

namespace Excerpt

variable {i : Excerpt} {t t' : Token} {c d : Cursor}

/-- A token of the stretch is the same in both texts. -/
theorem Same.of_parallels (hc : c.location.offset = byteCount i.before)
    (hd : d.location.offset = byteCount i.before')
    (h : Segment.Parallels c d (byteCount i.text) t t') : i.Same t t' := by
  obtain ⟨hkind, htext, k, hk, ht, ht'⟩ := h
  rw [hc] at ht
  rw [hd] at ht'
  refine ⟨hkind, htext, ⟨k, by omega, ht, ht'⟩, ⟨k + t.text.utf8ByteSize, hk, ?_, ?_⟩⟩
  · rw [Token.endOffset, ht, Nat.add_assoc]
  · rw [Token.endOffset, ht', htext, Nat.add_assoc]

/-- The tokens of the stretch up to the brace at its end. -/
theorem Along.of_forall₂ {front front' : List Token} (h : List.Forall₂ i.Same front front')
    (ht : i.Same t t') (closes : t.kind = .punctuator .rightBrace) :
    i.Along (front ++ t :: i.rest) (front' ++ t' :: i.rest') := by
  induction h with
  | nil => exact .last ht closes
  | cons hsame _ ih => exact .more hsame ih

end Excerpt

end Ecma
