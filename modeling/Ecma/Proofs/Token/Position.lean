import Ecma.Proofs.Token.Tiling
import Ecma.Token.Stream

/-! Positions in source text. However a cursor gets somewhere, it tells the line and the column that
the text before it makes: so do the places of tokens and errors, and the end of a scan. -/

namespace Ecma

/-! ### The position at an offset -/

/-- The character at an index completes a line break: it is an LF, LS or PS, or a CR that no LF
follows. -/
def completesBreak (source : List Char) (i : Nat) : Bool :=
  match source[i]? with
  | some '\n' | some '\u2028' | some '\u2029' => true
  | some '\r' => source[i + 1]? != some '\n'
  | _ => false

namespace Location

/-- Which of the first `n` characters of a text complete a line break. -/
def breaksBefore (source : List Char) (n : Nat) : List Nat :=
  (List.range n).filter (completesBreak source)

/-- The line after the first `n` characters of a text: one more than the breaks that they
complete. -/
def lineAt (source : List Char) (n : Nat) : Nat :=
  1 + (breaksBefore source n).length

/-- How many of the first `n` characters of a text come after the last break that they complete. -/
def columnAt (source : List Char) (n : Nat) : Nat :=
  match (breaksBefore source n).getLast? with
  | some i => n - (i + 1)
  | none => n

/-- The position after the first `n` characters of a text. -/
def ofIndex (source : List Char) (n : Nat) : Location where
  line := .ofNat (lineAt source n)
  column := .ofNat (columnAt source n)
  offset := ((source.take n).map Char.utf8Size).sum

/-- How many characters of a text end within its first bytes. -/
def charsWithin : List Char → (bytes : Nat) → Nat
  | [], _ => 0
  | ch :: rest, bytes =>
    if bytes < ch.utf8Size then 0 else charsWithin rest (bytes - ch.utf8Size) + 1

/-- The position at an offset in bytes. -/
def ofOffset (source : List Char) (offset : Nat) : Location :=
  ofIndex source (charsWithin source offset)

example : ofOffset "ab\r\nc\u2028d".toList 9 = ⟨3, 1, 9⟩ := by decide

theorem charsWithin_take {source : List Char} {n : Nat} (hn : n ≤ source.length) :
    charsWithin source ((source.take n).map Char.utf8Size).sum = n := by
  induction source generalizing n with
  | nil => exact (Nat.le_zero.mp hn).symm
  | cons ch rest ih =>
    cases n with
    | zero => exact if_pos ch.utf8Size_pos
    | succ n =>
      rw [List.take_succ_cons, List.map_cons, List.sum_cons, charsWithin,
        if_neg (Nat.not_lt.mpr (Nat.le_add_right _ _)), Nat.add_sub_cancel_left,
        ih (Nat.le_of_succ_le_succ hn)]

theorem completesBreak_eq {source : List Char} {n : Nat} {ch : Char} (hch : source[n]? = some ch) :
    completesBreak source n =
      (isLineTerminator ch && !(ch == '\r' && source[n + 1]? == some '\n')) := by
  unfold completesBreak
  rw [hch]
  split
  · next heq => cases heq; rfl
  · next heq => cases heq; rfl
  · next heq => cases heq; rfl
  · next heq => cases heq; simp [isLineTerminator, bne]
  · next hn hls hps hcr =>
    have hnot : isLineTerminator ch = false := by
      simp only [isLineTerminator, Bool.or_eq_false_iff, beq_eq_false_iff_ne, ne_eq]
      refine ⟨⟨⟨?_, ?_⟩, ?_⟩, ?_⟩ <;> rintro rfl
      · exact hn rfl
      · exact hcr rfl
      · exact hls rfl
      · exact hps rfl
    rw [hnot, Bool.false_and]

theorem charsWithin_le (source : List Char) (bytes : Nat) :
    charsWithin source bytes ≤ source.length := by
  induction source generalizing bytes with
  | nil => exact Nat.le_refl 0
  | cons ch rest ih =>
    unfold charsWithin
    split
    · exact Nat.zero_le _
    · exact Nat.succ_le_succ (ih _)

theorem breaksBefore_succ (source : List Char) (n : Nat) :
    breaksBefore source (n + 1) =
      breaksBefore source n ++ if completesBreak source n then [n] else [] := by
  rw [breaksBefore, List.range_succ, List.filter_append, List.filter_singleton, Bool.cond_eq_ite]
  rfl

theorem lineAt_succ (source : List Char) (n : Nat) :
    lineAt source (n + 1) =
      if completesBreak source n then lineAt source n + 1 else lineAt source n := by
  rw [lineAt, breaksBefore_succ]
  cases completesBreak source n with
  | true => simp [lineAt, Nat.add_assoc]
  | false => simp [lineAt]

theorem columnAt_succ (source : List Char) (n : Nat) :
    columnAt source (n + 1) =
      if completesBreak source n then 0 else columnAt source n + 1 := by
  rw [columnAt, breaksBefore_succ]
  cases completesBreak source n with
  | true => simp
  | false =>
    rw [if_neg Bool.false_ne_true, if_neg Bool.false_ne_true, List.append_nil, columnAt]
    cases hlast : (breaksBefore source n).getLast? with
    | none => rfl
    | some i =>
      have hlt : i < n := by
        simpa using (List.mem_filter.mp (List.mem_of_getLast? hlast)).1
      dsimp only
      omega

/-- A character moves the position on by one column, or to the next line. -/
theorem after_ofIndex {source : List Char} {n : Nat} {ch : Char} (hch : source[n]? = some ch) :
    (ofIndex source n).after ch source[n + 1]? = ofIndex source (n + 1) := by
  have hoffset : ((source.take (n + 1)).map Char.utf8Size).sum =
      ((source.take n).map Char.utf8Size).sum + ch.utf8Size := by
    rw [List.take_add_one, hch, Option.toList_some, List.map_append, List.sum_append]
    rfl
  unfold after
  rw [← completesBreak_eq hch]
  simp only [ofIndex, hoffset, lineAt_succ, columnAt_succ]
  cases completesBreak source n with
  | true => simp [UInt32.ofNat_add]
  | false => simp [UInt32.ofNat_add]

theorem lineAt_le (source : List Char) (n : Nat) : lineAt source n ≤ n + 1 := by
  have hlength := List.length_filter_le (completesBreak source) (List.range n)
  rw [List.length_range] at hlength
  rw [lineAt, breaksBefore, Nat.add_comm]
  exact Nat.succ_le_succ hlength

theorem columnAt_le (source : List Char) (n : Nat) : columnAt source n ≤ n := by
  unfold columnAt
  split
  · exact Nat.sub_le _ _
  · exact Nat.le_refl _

/-- The words hold the line and the column of a text that is short enough. -/
theorem toNat_ofOffset {source : List Char} (hsource : source.length + 1 < 2 ^ 32)
    (offset : Nat) :
    (ofOffset source offset).line.toNat = lineAt source (charsWithin source offset) ∧
      (ofOffset source offset).column.toNat = columnAt source (charsWithin source offset) := by
  have hn := charsWithin_le source offset
  have hline : lineAt source (charsWithin source offset) < 2 ^ 32 := by
    have := lineAt_le source (charsWithin source offset)
    omega
  have hcolumn : columnAt source (charsWithin source offset) < 2 ^ 32 := by
    have := columnAt_le source (charsWithin source offset)
    omega
  exact ⟨UInt32.toNat_ofNat_of_lt hline, UInt32.toNat_ofNat_of_lt hcolumn⟩

end Location

namespace Cursor

/-- A cursor that is got by moving past characters. -/
def Leads (c c' : Cursor) : Prop :=
  ∃ n, c' = c.advanceBy n

theorem Leads.refl (c : Cursor) : c.Leads c :=
  ⟨0, rfl⟩

theorem Leads.trans {c₁ c₂ c₃ : Cursor} (h₁ : c₁.Leads c₂) (h₂ : c₂.Leads c₃) : c₁.Leads c₃ := by
  obtain ⟨m, rfl⟩ := h₁
  obtain ⟨n, rfl⟩ := h₂
  exact ⟨m + n, (c₁.advanceBy_add m n).symm⟩

theorem leads_advanceBy (c : Cursor) (n : Nat) : c.Leads (c.advanceBy n) :=
  ⟨n, rfl⟩

/-- Past the end there is nothing to move past. -/
theorem advanceBy_of_le {c : Cursor} {n : Nat} (hn : c.rest.length ≤ n) :
    c.advanceBy n = c.advanceBy c.rest.length := by
  have hstop (c : Cursor) (hc : c.rest = []) (m : Nat) : c.advanceBy m = c := by
    induction m with
    | zero => rfl
    | succ m ih => rw [advanceBy, advance, hc, ih]
  obtain ⟨m, rfl⟩ := Nat.exists_eq_add_of_le hn
  rw [advanceBy_add, hstop _ (by rw [advanceBy_rest, List.drop_length])]

theorem location_advanceBy {source : List Char} {n : Nat} (hn : n ≤ source.length) :
    ((ofChars source).advanceBy n).location = Location.ofIndex source n := by
  induction n with
  | zero => rfl
  | succ n ih =>
    have hlt : n < source.length := hn
    have hrest : ((ofChars source).advanceBy n).rest = source[n] :: source.drop (n + 1) := by
      rw [advanceBy_rest]
      exact List.drop_eq_getElem_cons hlt
    have hone : ((ofChars source).advanceBy (n + 1)).location =
        (((ofChars source).advanceBy n).location).after source[n] source[n + 1]? := by
      rw [advanceBy_add]
      change (((ofChars source).advanceBy n).advance).location = _
      rw [advance, hrest, ← List.head?_drop]
    rw [hone, ih (Nat.le_of_lt hlt), Location.after_ofIndex (List.getElem?_eq_getElem hlt)]

/-- Nothing of the text is lost, and the offset is the size of what is before. -/
theorem Leads.split {source : List Char} {c : Cursor} (h : (ofChars source).Leads c) :
    c.source = source ∧ c.IsExact := by
  obtain ⟨n, rfl⟩ := h
  have hstart : (ofChars source).IsExact := rfl
  refine ⟨?_, hstart.advanceBy n⟩
  rw [Cursor.source, advanceBy_rest, advanceBy_before, List.reverseAux_eq, List.reverse_append,
    List.reverse_reverse]
  exact List.take_append_drop n source

/-- The position is that at its offset. -/
theorem Leads.location_eq {source : List Char} {c : Cursor} (h : (ofChars source).Leads c) :
    c.location = Location.ofOffset source c.location.offset := by
  obtain ⟨n, rfl⟩ := h
  obtain ⟨m, hm, heq⟩ : ∃ m ≤ source.length,
      (ofChars source).advanceBy n = (ofChars source).advanceBy m := by
    by_cases hn : n ≤ source.length
    · exact ⟨n, hn, rfl⟩
    · exact ⟨source.length, Nat.le_refl _, advanceBy_of_le (Nat.le_of_not_le hn)⟩
  rw [heq, location_advanceBy hm, Location.ofOffset]
  exact congrArg (Location.ofIndex source) (Location.charsWithin_take hm).symm

end Cursor

/-! ### Scans -/

namespace Scan

/-- A scan moves forward, and what it finds wrong is at a place that it has come past. -/
class Walks {α : Type} (x : Scan α) : Prop where
  ok : ∀ {c a c'}, x c = .ok a c' → c.Leads c'
  error : ∀ {c e c'}, x c = .error e c' → c.Leads c' ∧ ∃ p, c.Leads p ∧ e.location = p.location

variable {α β : Type} {x : Scan α} {c : Cursor}

theorem Walks.of_ok (h : ∀ c, ∃ a c', x c = .ok a c' ∧ c.Leads c') : x.Walks where
  ok {c _ _} hok := by
    obtain ⟨a, c', heq, hleads⟩ := h c
    cases heq.symm.trans hok
    exact hleads
  error {c _ _} herror := by
    obtain ⟨a, c', heq, -⟩ := h c
    cases heq.symm.trans herror

instance (a : α) : (pure a : Scan α).Walks :=
  .of_ok fun c => ⟨a, c, rfl, .refl c⟩

instance : (get : Scan Cursor).Walks :=
  .of_ok fun c => ⟨c, c, rfl, .refl c⟩

instance (n : Nat) : (skip n).Walks :=
  .of_ok fun c => ⟨(), _, rfl, c.leads_advanceBy n⟩

instance (kind : LexErrorKind) : (fail kind : Scan α).Walks where
  ok h := by cases h
  error {c _ _} h := by
    cases h
    exact ⟨.refl c, c, .refl c, rfl⟩

theorem Walks.bind {f : α → Scan β} [hx : x.Walks] (hf : ∀ a, (f a).Walks) : (x >>= f).Walks where
  ok h := by
    obtain ⟨a, c₁, hfirst, hrest⟩ := bind_eq_ok h
    exact (hx.ok hfirst).trans ((hf a).ok hrest)
  error {c e c'} h := by
    change EStateM.bind x f c = _ at h
    unfold EStateM.bind at h
    cases hfirst : x c with
    | ok a c₁ =>
      rw [hfirst] at h
      obtain ⟨hleads, p, hp, heq⟩ := (hf a).error h
      exact ⟨(hx.ok hfirst).trans hleads, p, (hx.ok hfirst).trans hp, heq⟩
    | error e c₁ =>
      rw [hfirst] at h
      cases h
      exact hx.error hfirst

instance {f : α → Scan β} [x.Walks] [hf : ∀ a, (f a).Walks] : (x >>= f).Walks :=
  .bind hf

instance {b : Prop} [Decidable b] {y : Scan α} [x.Walks] [y.Walks] :
    (if b then x else y).Walks := by
  split <;> infer_instance

instance (p : Char → Bool) : (take p).Walks :=
  .of_ok fun c => ⟨_, _, take_eq p c, c.leads_advanceBy _⟩

instance (ch : Char) : (eat ch).Walks := by unfold eat; infer_instance

/-! ### Tokens -/

instance (quote : Char) : (stringLiteral quote).Walks := by
  unfold stringLiteral; infer_instance

instance (digits : List Char) : (checkSeparators digits).Walks := by
  unfold checkSeparators; infer_instance

instance (radix : Nat) : (radixLiteral radix).Walks := by unfold radixLiteral; infer_instance

instance : fractionPart.Walks := by unfold fractionPart; infer_instance

instance : signedDigits.Walks := by unfold signedDigits; infer_instance

instance : exponentPart.Walks := by
  unfold exponentPart
  refine .bind fun c => ?_
  split <;> infer_instance

instance (legacy : Bool) : (decimalRest legacy).Walks := by unfold decimalRest; infer_instance

instance : decimalLiteral.Walks := by unfold decimalLiteral; infer_instance

instance : numericLiteral.Walks := by
  unfold numericLiteral
  refine .bind fun c => ?_
  split <;> infer_instance

instance : word.Walks := by unfold word; infer_instance

instance (ch : Char) : (punctuator ch).Walks := by
  unfold punctuator
  refine .bind fun c => ?_
  have : (match Punctuator.byLength.find? fun p => c.startsWith p.text.toList with
      | some p => do
        skip p.text.length
        return .punctuator p
      | none => fail (.unexpectedCharacter ch) : Scan TokenKind).Walks := by
    split <;> infer_instance
  infer_instance

instance (ch : Char) : (significant ch).Walks := by unfold significant; infer_instance

instance : lineComment.Walks := by unfold lineComment; infer_instance

/-- A comment that is not closed is wrong where it starts. -/
theorem blockComment_cases (c : Cursor) :
    let c' := (c.advanceBy 2).advanceBy (commentLength (c.advanceBy 2).rest).1
    (∃ t, blockComment c = .ok t c') ∨
      blockComment c = .error ⟨.unterminatedComment, c.location⟩ c' := by
  unfold blockComment
  rw [get_bind]
  obtain ⟨n, closed⟩ := commentLength (c.advanceBy 2).rest
  cases closed with
  | false => exact .inr rfl
  | true =>
    refine .inl ?_
    cases hbreak : ((c.advanceBy 2).rest.take n).findIdx? isLineTerminator with
    | some i => exact ⟨some (lineBreakAt ((c.advanceBy 2).advanceBy i)), by simp [hbreak]; rfl⟩
    | none => exact ⟨none, by simp [hbreak]; rfl⟩

instance : blockComment.Walks where
  ok {c t c'} h := by
    have hleads := (c.leads_advanceBy 2).trans
      ((c.advanceBy 2).leads_advanceBy (commentLength (c.advanceBy 2).rest).1)
    rcases blockComment_cases c with ⟨t', heq⟩ | heq
    · cases heq.symm.trans h
      exact hleads
    · cases heq.symm.trans h
  error {c e c'} h := by
    have hleads := (c.leads_advanceBy 2).trans
      ((c.advanceBy 2).leads_advanceBy (commentLength (c.advanceBy 2).rest).1)
    rcases blockComment_cases c with ⟨t', heq⟩ | heq
    · cases heq.symm.trans h
    · cases heq.symm.trans h
      exact ⟨hleads, c, .refl c, rfl⟩

instance : step.Walks := by
  have hcomment (t : Option Token) : (match t with
      | some t => return .found t
      | none => return .dropped : Scan Step).Walks := by
    cases t <;> infer_instance
  unfold step
  refine .bind fun c => ?_
  split <;> infer_instance

end Scan

/-- Wherever a scan ends, it has come there past all that is before, and so has it come to what is
wrong. -/
theorem Lexed.leads_scan (c : Cursor) (tokens : List Token) (fuel : Nat) :
    (∃ p, c.Leads p ∧ (scan c tokens fuel).finish = p.location) ∧
      ∀ e ∈ (scan c tokens fuel).error, ∃ p, c.Leads p ∧ e.location = p.location := by
  have hnone {p : LexError → Prop} : ∀ e ∈ (none : Option LexError), p e :=
    fun e he => absurd he (Option.not_mem_none e)
  induction fuel generalizing c tokens with
  | zero => exact ⟨⟨c, .refl c, rfl⟩, hnone⟩
  | succ fuel ih =>
    have hlater {c' : Cursor} {tokens' : List Token} (hc : c.Leads c') :
        (∃ p, c.Leads p ∧ (scan c' tokens' fuel).finish = p.location) ∧
          ∀ e ∈ (scan c' tokens' fuel).error, ∃ p, c.Leads p ∧ e.location = p.location := by
      obtain ⟨⟨p, hp, hfinish⟩, herror⟩ := ih c' tokens'
      refine ⟨⟨p, hc.trans hp, hfinish⟩, fun e he => ?_⟩
      obtain ⟨p, hp, heq⟩ := herror e he
      exact ⟨p, hc.trans hp, heq⟩
    unfold scan
    cases hstep : Scan.step c with
    | error e c' =>
      obtain ⟨hleads, p, hp, heq⟩ := Scan.Walks.error hstep
      refine ⟨⟨c', hleads, rfl⟩, fun e' he' => ?_⟩
      cases he'
      exact ⟨p, hp, heq⟩
    | ok r c' =>
      have hleads : c.Leads c' := Scan.Walks.ok hstep
      cases r with
      | atEnd => exact ⟨⟨c', hleads, rfl⟩, hnone⟩
      | dropped => exact hlater hleads
      | found t => exact hlater hleads

/-! ### Moves of a cursor -/

namespace Cursor

/-- What may be done to a cursor. -/
inductive Move where
  | advance
  | eat (ch : Char)
  | eatText (text : String)
  | advanceWhile (p : Char → Bool)

/-- The cursor after a move; it stays where it is if what it should eat does not come next. -/
def Move.run (c : Cursor) : Move → Cursor
  | .advance => c.advance
  | .eat ch => if c.peek? = some ch then c.advance else c
  | .eatText text => (c.eat? text.toList).getD c
  | .advanceWhile p => c.advanceWhile p

theorem leads_run (c : Cursor) (move : Move) : c.Leads (move.run c) := by
  cases move with
  | advance => exact c.leads_advanceBy 1
  | eat ch =>
    change c.Leads (if c.peek? = some ch then c.advance else c)
    split
    · exact c.leads_advanceBy 1
    · exact .refl c
  | eatText text =>
    change c.Leads ((if c.startsWith text.toList then some (c.advanceBy _) else none).getD c)
    split
    · exact c.leads_advanceBy _
    · exact .refl c
  | advanceWhile p => exact c.leads_advanceBy _

theorem leads_foldl (c : Cursor) (moves : List Move) : c.Leads (moves.foldl Move.run c) := by
  induction moves generalizing c with
  | nil => exact .refl c
  | cons move rest ih => exact (c.leads_run move).trans (ih _)

end Cursor

end Ecma
