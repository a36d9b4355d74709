import Ecma.Proofs.Token.Cut
import Ecma.Proofs.Token.LineBreak

/-! Source texts put together from pieces of others. The segments of a piece stay the same ones where
it stands, if it ends in front of a stop or of what it ended in front of before. -/

namespace Ecma

namespace Scan

variable {c d : Cursor} {s : Segment} {segments more : List Segment} {tail tail' : List Char}

/-- A scan passes some segments, one after the other. -/
inductive Runs : Cursor → List Segment → Prop
  | none (c : Cursor) : Runs c []
  | step {c : Cursor} {s : Segment} {segments : List Segment} {after : List Char}
    (text : c.rest = s.text ++ after) (fits : s.Fits c.before.reverse after)
    (passed : step c = .ok ((s.token? c).elim .dropped .found) (c.advanceBy s.text.length))
    (rest : Runs (c.advanceBy s.text.length) segments) : Runs c (s :: segments)

namespace Runs

theorem append (h : Runs c segments)
    (hmore : Runs (c.advanceBy (segments.flatMap Segment.text).length) more) :
    Runs c (segments ++ more) := by
  induction h with
  | none => exact hmore
  | step text fits passed _ ih =>
    refine .step text fits passed (ih ?_)
    rwa [List.flatMap_cons, List.length_append, Cursor.advanceBy_add] at hmore

theorem of_append (h : Runs c (segments ++ more)) : Runs c segments ∧
    Runs (c.advanceBy (segments.flatMap Segment.text).length) more := by
  induction segments generalizing c with
  | nil => exact ⟨.none c, h⟩
  | cons s segments ih =>
    cases h with
    | step text fits passed rest =>
      obtain ⟨hrest, hmore⟩ := ih rest
      refine ⟨.step text fits passed hrest, ?_⟩
      rwa [List.flatMap_cons, List.length_append, Cursor.advanceBy_add]

theorem flatMap_ne_nil (h : Runs c segments) (hne : segments ≠ []) :
    segments.flatMap Segment.text ≠ [] := by
  cases h with
  | none => exact absurd rfl hne
  | step _ fits _ _ => simp [fits.text_ne_nil]

theorem tile (h : Runs c segments) (tail : List Char)
    (hc : c.rest = segments.flatMap Segment.text ++ tail) :
    Segment.Tile c.before.reverse tail segments := by
  induction h with
  | none => trivial
  | @step c s segments after text fits _ _ ih =>
    rw [List.flatMap_cons, List.append_assoc] at hc
    obtain rfl := List.append_cancel_left (text.symm.trans hc)
    have htile := ih (by rw [Cursor.advanceBy_rest, text, List.drop_left])
    rw [Cursor.advanceBy_before, text, List.take_left, List.reverse_append, List.reverse_reverse]
      at htile
    exact ⟨fits, htile⟩

/-- A point that starts a number is not cut from its digit. -/
theorem keepsPoint (h : Runs c segments) (hc : c.rest = segments.flatMap Segment.text ++ tail)
    (hpoint : KeepsPoint tail tail') : KeepsPoint (segments.flatMap Segment.text ++ tail)
      (segments.flatMap Segment.text ++ tail') := by
  cases h with
  | none => exact hpoint
  | @step _ s segments after text fits passed _ =>
    intro digit hdigit hbegins _
    obtain ⟨first, more, hs⟩ := List.exists_cons_of_ne_nil fits.text_ne_nil
    have hflat : (s :: segments).flatMap Segment.text =
        first :: (more ++ segments.flatMap Segment.text) := by rw [List.flatMap_cons, hs]; rfl
    rw [hflat] at hc hbegins ⊢
    rw [List.cons_append, List.cons_prefix_cons] at hbegins ⊢
    refine ⟨hbegins.1, ?_⟩
    cases hmore : more ++ segments.flatMap Segment.text with
    | cons second others =>
      rw [hmore, List.cons_append, List.cons_prefix_cons] at hbegins
      rw [List.cons_append, List.cons_prefix_cons]
      exact ⟨hbegins.2.1, List.nil_prefix⟩
    | nil =>
      obtain ⟨rfl, -⟩ := List.append_eq_nil_iff.mp hmore
      rw [hmore] at hc hbegins
      obtain ⟨rfl, others, hothers⟩ := hbegins
      obtain rfl : digit :: others = tail := hothers
      exact absurd (by rw [hs]; rfl) (step_point hc hdigit passed)

/-- Segments stay where what comes next is cut off or a stop. -/
theorem cut (h : Runs c segments) (hexact : d.IsExact)
    (hc : c.rest = segments.flatMap Segment.text ++ tail)
    (hd : d.rest = segments.flatMap Segment.text ++ tail') (hcut : Cut tail tail')
    (hpoint : KeepsPoint tail tail')
    (hline : ∀ s ∈ segments.getLast?, s.isLine = true → Ahead (isLineTerminator · = true) tail')
    (hbefore : c.before = [] → d.before = []) : Runs d segments := by
  induction h generalizing d with
  | none => exact .none d
  | @step c s segments after text fits passed rest ih =>
    rw [List.flatMap_cons, List.append_assoc] at hc hd
    obtain rfl := List.append_cancel_left (text.symm.trans hc)
    have hrest : (c.advanceBy s.text.length).rest = segments.flatMap Segment.text ++ tail := by
      rw [Cursor.advanceBy_rest, text, List.drop_left]
    have hrest' : (d.advanceBy s.text.length).rest = segments.flatMap Segment.text ++ tail' := by
      rw [Cursor.advanceBy_rest, hd, List.drop_left]
    have hcut' := hcut.append (segments.flatMap Segment.text)
    have hpoint' := rest.keepsPoint hrest hpoint
    have hline' : s.isLine = true →
        Ahead (isLineTerminator · = true) (segments.flatMap Segment.text ++ tail') := by
      intro hs
      cases rest with
      | none => exact hline s rfl hs
      | @step _ s' segments after' text' fits' _ _ =>
        obtain ⟨first, more, hs'⟩ := List.exists_cons_of_ne_nil fits'.text_ne_nil
        have hahead : Ahead (isLineTerminator · = true)
            ((s' :: segments).flatMap Segment.text ++ tail) := by
          cases fits with
          | lineComment _ hafter => exact hafter
          | hashbang _ _ hafter => exact hafter
          | _ => cases hs
        rw [List.flatMap_cons, hs'] at hahead ⊢
        exact hahead
    have hbefore' : c.before.reverse = [] → d.before.reverse = [] := by simpa using hbefore
    have hfits' := fits.cut hcut' hline' hbefore'
    refine .step hd hfits' (step_cut hexact text fits passed hcut' hpoint' hd hfits') ?_
    refine ih (hexact.advanceBy _) hrest hrest' (fun s' hs' => ?_) fun hnil => ?_
    · refine hline s' ?_
      cases segments with
      | nil => cases hs'
      | cons _ _ => rwa [List.getLast?_cons_cons]
    · rw [Cursor.advanceBy_before, text, List.take_left, List.append_eq_nil_iff,
        List.reverse_eq_nil_iff] at hnil
      exact absurd hnil.1 fits.text_ne_nil

/-- The segments that a token starts stay wherever they are, if what comes next is cut off or a
stop. -/
theorem cut_token {kind : TokenKind} {word : List Char}
    (h : Runs c (.token kind word :: segments)) (hexact : d.IsExact)
    (hc : c.rest = (Segment.token kind word :: segments).flatMap Segment.text ++ tail)
    (hd : d.rest = (Segment.token kind word :: segments).flatMap Segment.text ++ tail')
    (hcut : Cut tail tail') (hpoint : KeepsPoint tail tail')
    (hline : ∀ s ∈ segments.getLast?, s.isLine = true → Ahead (isLineTerminator · = true) tail') :
    Runs d (.token kind word :: segments) := by
  cases h with
  | @step _ _ _ after text fits passed rest =>
    rw [List.flatMap_cons, List.append_assoc] at hc hd
    obtain rfl := List.append_cancel_left (text.symm.trans hc)
    have hrest : (c.advanceBy word.length).rest = segments.flatMap Segment.text ++ tail := by
      rw [Cursor.advanceBy_rest, text]
      exact List.drop_left
    have hrest' : (d.advanceBy word.length).rest = segments.flatMap Segment.text ++ tail' := by
      rw [Cursor.advanceBy_rest, hd]
      exact List.drop_left
    have hfits : (Segment.token kind word).Fits d.before.reverse
        (segments.flatMap Segment.text ++ tail) := by
      cases fits with
      | token hkind hslash hstar hcr => exact .token hkind hslash hstar hcr
    have hcut' := hcut.append (segments.flatMap Segment.text)
    have hfits' := hfits.cut hcut' (fun hline => by cases hline) id
    refine .step hd hfits'
      (step_cut hexact text fits passed hcut' (rest.keepsPoint hrest hpoint) hd hfits') ?_
    refine rest.cut (hexact.advanceBy _) hrest hrest' hcut hpoint hline fun hnil => ?_
    rw [Cursor.advanceBy_before, text, List.append_eq_nil_iff, List.reverse_eq_nil_iff] at hnil
    exact absurd (List.take_left.symm.trans hnil.1) fits.text_ne_nil

/-- The last segments of a text stay in every text that they end. -/
theorem move (h : Runs c segments) (hexact : d.IsExact) (hc : c.rest = segments.flatMap Segment.text)
    (hd : d.rest = segments.flatMap Segment.text) (hbefore : c.before = [] → d.before = []) :
    Runs d segments := by
  have hnil {follow : Char → Prop} : Ahead follow [] := fun _ h => by cases h
  have hcut : Cut [] [] := ⟨[], [], [], rfl, rfl, hnil⟩
  have hpoint : KeepsPoint [] [] := fun _ _ hbegins _ => hbegins
  exact h.cut hexact (by rw [hc, List.append_nil]) (by rw [hd, List.append_nil]) hcut hpoint
    (fun _ _ _ => hnil) hbefore

end Runs

/-! ### Marks -/

variable {p : Punctuator}

/-- The brackets and the semicolon, which start no other token. -/
def isMark : Punctuator → Bool
  | .semicolon | .leftParen | .rightParen | .leftBrace | .rightBrace => true
  | _ => false

theorem find?_mark (hp : isMark p = true) (tail : List Char) :
    Punctuator.byLength.find? (fun q => q.text.toList.isPrefixOf (p.text.toList ++ tail)) =
      some p := by
  cases p <;> first | rfl | cases hp

/-- Whatever comes next, a mark is a token. -/
theorem runs_mark (hp : isMark p = true) (hc : c.rest = p.text.toList ++ tail) :
    Runs c [.token (.punctuator p) p.text.toList] := by
  obtain ⟨first, hfirst, hspace, hline, hhash, hquote, hquotes, hdigit, htick, hstart⟩ :=
    head_punctuator p
  obtain ⟨htext, hpoint, hquestion, hslash⟩ :
      p.text.toList = [first] ∧ '.' ≠ first ∧ '?' ≠ first ∧ '/' ≠ first := by
    cases p <;> first | (cases hfirst; exact ⟨rfl, by decide⟩) | cases hp
  have hrest : c.rest = first :: tail := by rw [hc, htext]; rfl
  have hstarts {ch second : Char} (h : ch ≠ first) : ¬ [ch, second] <+: p.text.toList ++ tail := by
    rw [htext, List.cons_append, List.cons_prefix_cons]
    exact fun hbegins => h hbegins.1
  have hpunctuator : punctuator first c = _ := punctuator_eq
    (fun ⟨digit, _, hbegins⟩ => by
      rw [hrest, List.cons_prefix_cons] at hbegins
      exact hquestion hbegins.1)
    (hc ▸ find?_mark hp tail)
  have hsignificant : significant first c =
      .ok (.punctuator p) (c.advanceBy p.text.toList.length) := by
    unfold significant
    rw [get_bind, if_neg (by simp [hquote, hquotes]), hdigit, if_neg Bool.false_ne_true,
      if_neg (by simp [hpoint.symm]), if_neg (by simp [hhash]), if_neg htick, hstart,
      if_neg Bool.false_ne_true, hpunctuator]
  refine .step hc (.token (.punctuator p) (hstarts hslash) (hstarts hslash) ?_) ?_ (.none _)
  · intro h
    rw [htext] at h
    cases h
    cases hline
  · rw [step_significant hrest hspace hline (startsWith_eq_false hc (hstarts hslash))
      (startsWith_eq_false hc (hstarts hslash)) (startsWith_eq_false hrest fun hbegins => ?_)
      hsignificant, hc, List.take_left]
    · rfl
    · rw [List.cons_prefix_cons] at hbegins
      exact hhash hbegins.1.symm

end Scan

/-! ### Whole texts -/

namespace Lexed

variable {c : Cursor} {segments : List Segment} {source : String}

theorem scan_runs (h : Scan.Runs c segments) (hc : c.rest = segments.flatMap Segment.text)
    (tokens : List Token) {fuel : Nat} (hfuel : c.rest.length < fuel) :
    scan c tokens fuel = ⟨tokens.reverse ++ Segment.tokensFrom c segments,
      (c.advanceBy c.rest.length).location, none⟩ := by
  induction h generalizing tokens fuel with
  | none c =>
    obtain ⟨fuel, rfl⟩ := Nat.exists_eq_add_one_of_ne_zero (Nat.ne_zero_of_lt hfuel)
    rw [scan, Scan.step_atEnd hc, hc, Segment.tokensFrom, List.append_nil]
    rfl
  | @step c s segments after text fits passed rest ih =>
    obtain ⟨fuel, rfl⟩ := Nat.exists_eq_add_one_of_ne_zero (Nat.ne_zero_of_lt hfuel)
    have hrest : (c.advanceBy s.text.length).rest = segments.flatMap Segment.text := by
      rw [Cursor.advanceBy_rest, hc, List.flatMap_cons, List.drop_left]
    have hpos := List.length_pos_iff.2 fits.text_ne_nil
    have hlength : c.rest.length = s.text.length + (c.advanceBy s.text.length).rest.length := by
      rw [hrest, hc, List.flatMap_cons, List.length_append]
    have hscan : scan c tokens (fuel + 1) =
        scan (c.advanceBy s.text.length) ((s.token? c).toList ++ tokens) fuel := by
      cases htoken : s.token? c with
      | none => rw [htoken] at passed; exact scan_dropped passed tokens fuel
      | some t => rw [htoken] at passed; exact scan_found passed tokens fuel
    rw [hscan, ih hrest _ (by omega), hlength, Cursor.advanceBy_add, Segment.tokensFrom]
    cases s.token? c <;> simp

theorem runs_of_scan (hexact : c.IsExact) {tokens : List Token} {fuel : Nat}
    (hfuel : c.rest.length < fuel) (h : (scan c tokens fuel).error = none) :
    ∃ segments, c.rest = segments.flatMap Segment.text ∧ Scan.Runs c segments := by
  induction fuel generalizing c tokens with
  | zero => omega
  | succ fuel ih =>
    cases hstep : Scan.step c with
    | error e c' =>
      rw [scan, hstep] at h
      cases h
    | ok r c' =>
      obtain ⟨rfl, hrest, rfl⟩ | ⟨s, after, hc, hfits, rfl, rfl⟩ := Scan.passes_step hexact hstep
      · exact ⟨[], hrest, .none c'⟩
      · have hscan : scan c tokens (fuel + 1) =
            scan (c.advanceBy s.text.length) ((s.token? c).toList ++ tokens) fuel := by
          cases htoken : s.token? c with
          | none => rw [htoken] at hstep; exact scan_dropped hstep tokens fuel
          | some t => rw [htoken] at hstep; exact scan_found hstep tokens fuel
        have hrest : (c.advanceBy s.text.length).rest = after := by
          rw [Cursor.advanceBy_rest, hc, List.drop_left]
        have hpos := List.length_pos_iff.2 hfits.text_ne_nil
        rw [hc, List.length_append] at hfuel
        rw [hscan] at h
        obtain ⟨segments, htext, hruns⟩ :=
          ih (hexact.advanceBy s.text.length) (by rw [hrest]; omega) h
        refine ⟨s :: segments, ?_, .step hc hfits hstep hruns⟩
        rw [hc, List.flatMap_cons, ← htext, hrest]

end Lexed

namespace TokenStream

variable {source : String} {s : TokenStream} {segments : List Segment}

theorem ofString_runs (h : Scan.Runs (Cursor.ofString source) segments)
    (htext : source.toList = segments.flatMap Segment.text) :
    ∃ finish, ofString source = .ok ⟨Segment.tokensFrom (Cursor.ofString source) segments, finish, 0,
      (Segment.tokensFrom (Cursor.ofString source) segments).length⟩ := by
  have hlexed : Lexed.ofString source = _ := Lexed.scan_runs h htext [] (Nat.lt_succ_self _)
  unfold ofString
  rw [hlexed]
  exact ⟨_, rfl⟩

/-- A source text without an error is a run of segments. -/
theorem runs_ofString (h : ofString source = .ok s) : ∃ segments,
    Scan.Runs (Cursor.ofString source) segments ∧ IsBetween source [] segments s := by
  have herror : (Lexed.ofString source).error = none := by
    cases herror : (Lexed.ofString source).error with
    | none => rfl
    | some e =>
      simp only [ofString, herror] at h
      cases h
  obtain ⟨segments, htext, hruns⟩ :=
    Lexed.runs_of_scan (Cursor.isExact_ofString source) (Nat.lt_succ_self _) herror
  refine ⟨segments, hruns, ?_⟩
  have hlexed : Lexed.ofString source = _ := Lexed.scan_runs hruns htext [] (Nat.lt_succ_self _)
  unfold ofString at h
  rw [hlexed] at h
  cases h
  refine ⟨htext, ?_, rfl, rfl, ?_⟩
  · exact hruns.tile [] (by rw [List.append_nil]; exact htext)
  · change ((Cursor.ofString source).advanceBy source.toList.length).location.offset = _
    rw [Cursor.ofString_advanceBy_offset (List.append_nil _).symm, String.ofList_toList]

end TokenStream

/-! ### Tokens of pieces -/

/-- A token without its position. -/
abbrev Token.lexeme (t : Token) : Lexeme :=
  (t.kind, t.text)

theorem Segment.map_token? (s : Segment) (c d : Cursor) :
    (s.token? c).map Token.lexeme = (s.token? d).map Token.lexeme := by
  cases s with
  | blockComment body => simp [token?, Function.comp_def]
  | _ => rfl

/-- Where segments stand decides the positions of their tokens only. -/
theorem Segment.map_tokensFrom (segments : List Segment) (c d : Cursor) :
    (tokensFrom c segments).map Token.lexeme = (tokensFrom d segments).map Token.lexeme := by
  induction segments generalizing c d with
  | nil => rfl
  | cons s segments ih =>
    have hs := s.map_token? c d
    rw [tokensFrom, tokensFrom, List.map_append, List.map_append, ih _ (d.advanceBy s.text.length)]
    revert hs
    cases s.token? c <;> cases s.token? d <;> simp

/-- A token among those of segments is the token of one of them. By induction on the segments. -/
theorem Segment.exists_of_tokensFrom {c : Cursor} {segments : List Segment}
    {before after : List Token} {t : Token} (h : tokensFrom c segments = before ++ t :: after)
    (ht : t.isSignificant = true) : ∃ front word back,
      segments = front ++ .token t.kind word :: back ∧ tokensFrom c front = before ∧
        tokensFrom (c.advanceBy (front.flatMap text).length) (.token t.kind word :: back) =
          t :: after := by
  induction segments generalizing c before with
  | nil => cases before <;> cases h
  | cons s segments ih =>
    have hsplit : (∃ front, before = (s.token? c).toList ++ front ∧
        tokensFrom (c.advanceBy s.text.length) segments = front ++ t :: after) ∨
        before = [] ∧ s.token? c = some t ∧
          tokensFrom (c.advanceBy s.text.length) segments = after := by
      rw [tokensFrom] at h
      cases hs : s.token? c with
      | none => exact .inl ⟨before, rfl, by rwa [hs] at h⟩
      | some u =>
        rw [hs] at h
        cases before with
        | nil =>
          obtain ⟨rfl, hrest⟩ := List.cons.inj h
          exact .inr ⟨rfl, rfl, hrest⟩
        | cons v before =>
          obtain ⟨rfl, hrest⟩ := List.cons.inj h
          exact .inl ⟨before, rfl, hrest⟩
    obtain ⟨front, rfl, hrest⟩ | ⟨rfl, htoken, rfl⟩ := hsplit
    · obtain ⟨read, word, back, rfl, rfl, hback⟩ := ih hrest
      refine ⟨s :: read, word, back, rfl, rfl, ?_⟩
      rwa [List.flatMap_cons, List.length_append, Cursor.advanceBy_add]
    · cases s with
      | token kind word =>
        cases htoken
        exact ⟨[], word, segments, rfl, rfl, rfl⟩
      | blockComment body =>
        obtain ⟨found, -, rfl⟩ := Option.map_eq_some_iff.mp htoken
        cases ht
      | _ => cases htoken

/-- A semicolon behind a token is one more token. -/
theorem TokenStream.ofString_insert {source : String} {read after : List Segment}
    (h : Scan.Runs (Cursor.ofString source) (read ++ after))
    (htext : source.toList = (read ++ after).flatMap Segment.text) {kind : TokenKind}
    {text : List Char} (hlast : read.getLast? = some (.token kind text)) :
    ∃ s location, ofString (String.ofList (read.flatMap Segment.text ++
        ';' :: after.flatMap Segment.text)) = .ok s ∧
      s.rest.map Token.lexeme = (Segment.tokensFrom (Cursor.ofString source) read ++
        (⟨.punctuator .semicolon, ";", location⟩ : Token) ::
          Segment.tokensFrom (cursorAfter source read) after).map Token.lexeme := by
  obtain ⟨hold, hleft⟩ := h.of_append
  have hne : read.flatMap Segment.text ≠ [] := hold.flatMap_ne_nil fun hnil => by
    rw [hnil] at hlast
    cases hlast
  rw [List.flatMap_append] at htext
  generalize hsource' :
    String.ofList (read.flatMap Segment.text ++ ';' :: after.flatMap Segment.text) = source'
  have htext' : source'.toList = read.flatMap Segment.text ++ ';' :: after.flatMap Segment.text := by
    rw [← hsource', String.toList_ofList]
  let c := Cursor.ofString source
  let d := Cursor.ofString source'
  have hexact : d.IsExact := Cursor.isExact_ofString source'
  have hold' : Scan.Runs d read := by
    refine hold.cut hexact htext htext' ⟨[], _, _, rfl, rfl, ?_⟩ ?_ ?_ fun _ => rfl
    · rintro ch ⟨⟩
      rfl
    · rintro _ _ _ ⟨⟩
    · intro s hs hline
      cases hlast.symm.trans hs
      cases hline
  have hrest : (d.advanceBy (read.flatMap Segment.text).length).rest =
      ';' :: after.flatMap Segment.text := by
    rw [Cursor.advanceBy_rest]
    exact (congrArg (List.drop _) htext').trans List.drop_left
  have hmark := Scan.runs_mark (p := .semicolon) rfl hrest
  let e := (d.advanceBy (read.flatMap Segment.text).length).advanceBy 1
  have hleft' : Scan.Runs e after := by
    refine hleft.move ((hexact.advanceBy _).advanceBy 1) ?_ ?_ fun hnil => ?_
    · rw [Cursor.advanceBy_rest]
      exact (congrArg (List.drop _) htext).trans List.drop_left
    · rw [Cursor.advanceBy_rest, hrest]
      rfl
    · rw [Cursor.advanceBy_before, List.append_eq_nil_iff, List.reverse_eq_nil_iff] at hnil
      exact absurd ((List.take_left.symm.trans (congrArg (List.take _) htext.symm)).trans hnil.1) hne
  obtain ⟨finish, hlex⟩ := ofString_runs (hold'.append (hmark.append hleft'))
    (by rw [htext', List.flatMap_append]; rfl)
  refine ⟨_, (d.advanceBy (read.flatMap Segment.text).length).location, hlex, ?_⟩
  rw [Segment.tokensFrom_append, Segment.tokensFrom_append, List.map_append, List.map_append,
    List.map_append, List.map_cons, Segment.map_tokensFrom read d c,
    Segment.map_tokensFrom after _ (cursorAfter source read)]
  rfl

end Ecma
