import Ecma.Proofs.Token.Tiling

/-! What a scan finds in a text whose end is cut off, or goes on otherwise: up to the cut the same
segments, if a character stands there that goes on with none of them. -/

namespace Ecma

/-- A character that goes on with no segment but a comment. -/
def stops (ch : Char) : Bool :=
  ch == ';' || ch == ')' || ch == '\x7d' || ch == '\r'

theorem stops_iff {ch : Char} : stops ch = true ↔ ch ∈ [';', ')', '\x7d', '\r'] := by
  simp [stops, or_assoc]

/-- Only a private name starts with a hash. -/
theorem TokenText.after_hash {kind : TokenKind} {text : List Char} (h : TokenText kind text)
    {more : List Char} (htext : text = '#' :: more) :
    ∃ first rest, more = first :: rest ∧ isIdentifierStart first = true := by
  cases h with
  | word hfirst =>
    cases htext
    exact absurd rfl (ne_of_isIdentifierStart hfirst (isIdentifierStart_mark (by decide)))
  | privateName hfirst =>
    cases htext
    exact ⟨_, _, rfl, hfirst⟩
  | punctuator p =>
    obtain ⟨first, hfirst, -, -, hhash, -⟩ := Scan.head_punctuator p
    rw [htext] at hfirst
    cases hfirst
    exact absurd rfl hhash
  | string hquote =>
    cases htext
    rcases hquote with h | h <;> cases h
  | number hfirst =>
    subst htext
    cases hfirst
  | lineBreak h =>
    subst htext
    rcases h with h | ⟨ch, h, hch⟩
    · cases h
    · cases h
      cases hch

/-- Only line breaks start with a blank. -/
theorem TokenText.starts {kind : TokenKind} {text : List Char} (h : TokenText kind text) :
    (kind = .lineTerminator ∧ IsLineBreak text) ∨ ∃ first more, text = first :: more ∧
      isWhitespace first = false ∧ isLineTerminator first = false := by
  cases h with
  | word hfirst =>
    exact .inr ⟨_, _, rfl, isWhitespace_of_isIdentifierStart hfirst,
      isLineTerminator_of_isIdentifierStart hfirst⟩
  | privateName => exact .inr ⟨_, _, rfl, by decide, by decide⟩
  | punctuator p =>
    obtain ⟨first, hfirst, hspace, hline, -⟩ := Scan.head_punctuator p
    obtain ⟨more, hmore⟩ := List.head?_eq_some_iff.mp hfirst
    exact .inr ⟨first, more, hmore, hspace, hline⟩
  | string hquote =>
    refine .inr ⟨_, _, rfl, ?_⟩
    rcases hquote with rfl | rfl <;> decide
  | number hfirst =>
    obtain ⟨first, more, rfl, hliteral⟩ := startsNumber_literal hfirst
    obtain ⟨hspace, hline, -⟩ := Scan.startsLiteral_class hliteral
    exact .inr ⟨first, more, rfl, hspace, hline⟩
  | lineBreak h => exact .inl ⟨rfl, h⟩

/-- The second text goes as the first one does, up to its end or a stop. -/
def Cut (l l' : List Char) : Prop :=
  ∃ shared old new, l = shared ++ old ∧ l' = shared ++ new ∧ Scan.Ahead (stops · = true) new

namespace Cut

variable {l l' : List Char}

theorem append (h : Cut l l') (text : List Char) : Cut (text ++ l) (text ++ l') := by
  obtain ⟨shared, old, new, rfl, rfl, hnew⟩ := h
  exact ⟨text ++ shared, old, new, (List.append_assoc ..).symm, (List.append_assoc ..).symm, hnew⟩

/-- The same character comes next, or a stop or the end. -/
theorem head (h : Cut l l') : l'.head? = l.head? ∨ Scan.Ahead (stops · = true) l' := by
  obtain ⟨shared, old, new, rfl, rfl, hnew⟩ := h
  cases shared with
  | nil => exact .inr hnew
  | cons ch shared => exact .inl rfl

/-- What comes next has a property, if it had it and stops have it. -/
theorem ahead (h : Cut l l') {follow : Char → Prop} (hl : Scan.Ahead follow l)
    (hstop : ∀ ch, stops ch = true → follow ch) : Scan.Ahead follow l' := by
  rcases h.head with heq | hstops
  · rwa [Scan.Ahead, heq]
  · exact hstops.mono hstop

/-- Without a stop in it, a text starts the second one only if it starts the first one. -/
theorem begins (h : Cut l l') (start : List Char)
    (hstart : ∀ ch ∈ start, stops ch = false) (hbegins : start <+: l') : start <+: l := by
  obtain ⟨shared, old, new, rfl, rfl, hnew⟩ := h
  rcases List.prefix_or_prefix_of_prefix hbegins (List.prefix_append shared new) with h | ⟨more, rfl⟩
  · exact h.trans (List.prefix_append _ _)
  · cases more with
    | nil =>
      rw [List.append_nil]
      exact List.prefix_append _ _
    | cons ch more =>
      obtain ⟨tail, rfl⟩ := (List.prefix_append_right_inj shared).mp hbegins
      exact absurd (hnew ch rfl) (by simp [hstart ch])

end Cut

namespace Scan

variable {α β : Type} {x : Scan α} {f : α → Scan β}

/-- A scan moves past a text and gives a value wherever the text stands, if what comes next is cut
off or not. -/
def Reads (x : Scan α) (text tail : List Char) (a : α) : Prop :=
  ∀ {d : Cursor} {tail' : List Char}, Cut tail tail' → d.rest = text ++ tail' →
    x d = .ok a (d.advanceBy text.length)

theorem Reads.bind {text text' tail : List Char} {a : α} {b : β}
    (hx : x.Reads text (text' ++ tail) a) (hf : (f a).Reads text' tail b) :
    (x >>= f).Reads (text ++ text') tail b := by
  intro d tail' hcut hd
  rw [List.append_assoc] at hd
  rw [bind_ok (hx (hcut.append text') hd), List.length_append, Cursor.advanceBy_add]
  exact hf hcut (by rw [Cursor.advanceBy_rest, hd, List.drop_left])

/-- Characters that are known already are passed over. -/
theorem Reads.skip {text tail : List Char} {a : α} (h : x.Reads text tail a) (before : List Char) :
    (skip before.length >>= fun _ => x).Reads (before ++ text) tail a :=
  Reads.bind (x := Scan.skip before.length) (a := ()) (fun _ _ => rfl) h

/-- What a scan gives depends on the text that it moves past and on what comes next, where a stop is
as good as anything else that ended it. -/
class Local (x : Scan α) : Prop where
  reads : ∀ {c a c'}, x c = .ok a c' →
    ∃ text tail, c.rest = text ++ tail ∧ c' = c.advanceBy text.length ∧ x.Reads text tail a

instance (a : α) : (pure a : Scan α).Local :=
  ⟨fun h => by cases h; exact ⟨[], _, rfl, rfl, fun _ _ => rfl⟩⟩

instance (kind : LexErrorKind) : (fail kind : Scan α).Local :=
  ⟨fun h => by cases h⟩

instance [hx : x.Local] [hf : ∀ a, (f a).Local] : (x >>= f).Local := by
  refine ⟨fun h => ?_⟩
  obtain ⟨a, c₁, hxc, hfc⟩ := bind_eq_ok h
  obtain ⟨text, tail, hc, rfl, hreads⟩ := hx.reads hxc
  obtain ⟨text', tail', hc', rfl, hreads'⟩ := (hf a).reads hfc
  rw [Cursor.advanceBy_rest, hc, List.drop_left] at hc'
  subst hc'
  exact ⟨text ++ text', tail', by rw [hc, List.append_assoc],
    by rw [List.length_append, Cursor.advanceBy_add], hreads.bind hreads'⟩

instance {b : Prop} [Decidable b] {y : Scan α} [x.Local] [y.Local] :
    (if b then x else y).Local := by
  split <;> infer_instance

theorem local_take {p : Char → Bool} (hp : ∀ ch, stops ch = true → p ch = false) :
    (take p).Local := by
  refine ⟨fun {c a c'} h => ?_⟩
  cases h
  refine ⟨c.span p, c.rest.dropWhile p, List.takeWhile_append_dropWhile.symm, rfl,
    fun {d tail'} hcut hd => ?_⟩
  have hspan : d.span p = c.span p := by
    have hall : ∀ ch ∈ c.span p, p ch = true := fun ch hch => List.mem_takeWhile_imp hch
    have hnext : tail'.takeWhile p = [] := by
      cases tail' with
      | nil => rfl
      | cons ch tail =>
        have hch := hcut.ahead (head?_dropWhile (p := p) c.rest) hp ch rfl
        exact List.takeWhile_cons_of_neg (by rw [hch]; exact Bool.false_ne_true)
    rw [Cursor.span, hd, List.takeWhile_append_of_pos hall, hnext, List.append_nil]
  rw [take_eq, hspan]

theorem local_eat {ch : Char} (hch : stops ch = false) : (eat ch).Local := by
  refine ⟨fun {c a c'} h => ?_⟩
  rw [eat, get_bind] at h
  split at h
  · next hpeek =>
    cases h
    obtain ⟨tail, hc⟩ : ∃ tail, c.rest = ch :: tail := by
      rwa [Cursor.peek?, beq_iff_eq, List.head?_eq_some_iff] at hpeek
    refine ⟨[ch], tail, hc, rfl, fun {d tail'} _ hd => ?_⟩
    rw [eat, get_bind, if_pos (by rw [Cursor.peek?, hd]; simp)]
    rfl
  · next hpeek =>
    cases h
    refine ⟨[], c.rest, rfl, rfl, fun {d tail'} hcut hd => ?_⟩
    rw [eat, get_bind, if_neg]
    · rfl
    · rw [Cursor.peek?, hd, List.nil_append, beq_iff_eq]
      intro hhead
      rcases hcut.head with heq | hstop
      · exact hpeek (by rw [Cursor.peek?, ← heq, hhead, beq_self_eq_true])
      · exact Bool.false_ne_true (hch.symm.trans (hstop ch hhead))

/-- The next character is looked at, and nothing is wrong with a stop. -/
theorem local_check (bad : Option Char → Bool) (hnone : bad none = false)
    (hstop : ∀ ch, stops ch = true → bad (some ch) = false) (kind : LexErrorKind) (a : α) :
    (get >>= fun c => if bad c.peek? = true then (fail kind : Scan Unit) >>= fun _ => pure a
      else pure a : Scan α).Local := by
  refine ⟨fun {c b c'} h => ?_⟩
  rw [get_bind] at h
  split at h
  · obtain ⟨_, _, hfail, -⟩ := bind_eq_ok h
    cases hfail
  · next hgood =>
    cases h
    refine ⟨[], c.rest, rfl, rfl, fun {d tail'} hcut hd => ?_⟩
    have hd' : bad d.peek? = false := by
      rw [Cursor.peek?, hd, List.nil_append]
      rcases hcut.head with heq | hstops
      · rw [heq]
        exact Bool.eq_false_of_not_eq_true hgood
      · cases hhead : tail'.head? with
        | none => exact hnone
        | some ch => exact hstop ch (hstops ch hhead)
    rw [get_bind, if_neg (by rw [hd']; exact Bool.false_ne_true)]
    rfl

/-! ### Numbers and words -/

theorem stops_not {p : Char → Bool} (h : [';', ')', '\x7d', '\r'].all (!p ·) = true) :
    ∀ ch, stops ch = true → p ch = false := by
  intro ch hch
  have := List.all_eq_true.mp h ch (stops_iff.mp hch)
  simpa using this

instance : (eat '.').Local := local_eat rfl
instance : (eat '+').Local := local_eat rfl
instance : (eat '-').Local := local_eat rfl
instance : (eat 'n').Local := local_eat rfl

instance : (take isDigitOrSeparator).Local := local_take (stops_not rfl)

instance (digits : List Char) : (checkSeparators digits).Local := by
  unfold checkSeparators; infer_instance

instance : fractionPart.Local := by unfold fractionPart; infer_instance

instance : signedDigits.Local := by unfold signedDigits; infer_instance

instance : exponentPart.Local := by
  refine ⟨fun {c b c'} h => ?_⟩
  by_cases hc : Ahead (fun ch => ¬ (ch = 'e' ∨ ch = 'E')) c.rest
  · rw [exponentPart_bare hc] at h
    cases h
    refine ⟨[], c.rest, rfl, rfl, fun {d tail'} hcut hd => exponentPart_bare ?_⟩
    rw [hd]
    refine hcut.ahead hc fun ch hch => ?_
    have hmem := stops_iff.mp hch
    fin_cases hmem <;> decide
  · obtain ⟨mark, tail, hrest, hmark⟩ := exists_of_not_ahead hc
    rw [exponentPart_marked hrest hmark] at h
    obtain ⟨text, tail', hc', rfl, hreads⟩ :=
      Local.reads (x := signedDigits >>= fun _ => pure true) h
    rw [Cursor.advanceBy_rest, hrest, List.drop_one, List.tail_cons] at hc'
    refine ⟨mark :: text, tail', by rw [hrest, hc']; rfl,
      by rw [List.length_cons, Nat.add_comm, Cursor.advanceBy_add], fun {d l} hl hd => ?_⟩
    rw [exponentPart_marked hd hmark]
    exact hreads.skip [mark] hl hd

instance (legacy : Bool) : (decimalRest legacy).Local := by unfold decimalRest; infer_instance

instance : decimalLiteral.Local := by unfold decimalLiteral; infer_instance

instance : word.Local := by
  have : (take isIdentifierContinue).Local := local_take (stops_not (by decide))
  have (text : List Char) := local_check (· == some '\\') rfl (stops_not rfl) .identifierEscape
    (wordKind (String.ofList text))
  unfold word
  infer_instance

theorem splitRadix?_cut {l l' : List Char} (h : Cut l l') (hl : splitRadix? l = none) :
    splitRadix? l' = none := by
  cases hsplit : splitRadix? l' with
  | none => rfl
  | some split =>
    obtain ⟨mark, rfl, -, -, -, hsplits⟩ := splitRadix?_eq_some hsplit
    have hmark : stops mark = false := by
      cases hstop : stops mark with
      | false => rfl
      | true =>
        have hmem := stops_iff.mp hstop
        fin_cases hmem <;> cases hsplit
    obtain ⟨tail, rfl⟩ := h.begins ['0', mark] (by simpa using ⟨rfl, hmark⟩)
      (List.prefix_append ['0', mark] split.2)
    rw [List.cons_append, List.cons_append, hsplits] at hl
    cases hl

instance (radix : Nat) : (take fun c => isDigitIn radix c || c == '_').Local :=
  local_take (stops_not rfl)

instance : numericLiteral.Local := by
  have hend (kind : TokenKind) := local_check (·.any fun c => isIdentifierStart c || c.isDigit) rfl
    (stops_not (by decide)) .invalidNumber kind
  refine ⟨fun {c kind c'} h => ?_⟩
  rw [numericLiteral, get_bind] at h
  cases hsplit : splitRadix? c.rest with
  | none =>
    rw [hsplit] at h
    have hdecimal : (decimalLiteral >>= fun kind => get >>= fun c =>
        if (c.peek?.any fun ch => isIdentifierStart ch || ch.isDigit) = true then
          (fail .invalidNumber : Scan Unit) >>= fun _ => pure kind
        else pure kind).Local := inferInstance
    obtain ⟨text, tail, hc, rfl, hreads⟩ := hdecimal.reads h
    refine ⟨text, tail, hc, rfl, fun {d l} hl hd => ?_⟩
    rw [numericLiteral, get_bind, hd, splitRadix?_cut (hl.append text) (hc ▸ hsplit)]
    exact hreads hl hd
  | some split =>
    obtain ⟨radix, tail⟩ := split
    rw [hsplit] at h
    obtain ⟨mark, hmark, -, -, -, hsplits⟩ := splitRadix?_eq_some hsplit
    have hdigits : ((take (fun c => isDigitIn radix c || c == '_') >>= fun digits =>
        checkSeparators digits >>= fun _ => eat 'n' >>= fun b =>
          if b = true then pure TokenKind.bigIntLiteral else pure TokenKind.numericLiteral) >>=
        fun kind => get >>= fun c =>
          if (c.peek?.any fun ch => isIdentifierStart ch || ch.isDigit) = true then
            (fail .invalidNumber : Scan Unit) >>= fun _ => pure kind
          else pure kind).Local := inferInstance
    obtain ⟨text, tail', hc, rfl, hreads⟩ := hdigits.reads (c := c.advanceBy 2) h
    rw [Cursor.advanceBy_rest, hmark] at hc
    refine ⟨['0', mark] ++ text, tail', ?_, ?_, fun {d l} hl hd => ?_⟩
    · rw [hmark, List.append_assoc, ← hc]
      rfl
    · rw [List.length_append, Cursor.advanceBy_add]
      rfl
    · rw [numericLiteral, get_bind, hd, List.append_assoc, List.cons_append, List.cons_append,
        List.nil_append, hsplits]
      exact hreads.skip ['0', mark] hl hd

/-! ### Tokens -/

variable {c c' : Cursor} {ch : Char} {kind : TokenKind} {rest : List Char}

theorem text_unique {text text' tail tail' : List Char} (h : c.rest = text ++ tail)
    (h' : c.rest = text' ++ tail') (heq : c.advanceBy text.length = c.advanceBy text'.length) :
    text = text' ∧ tail = tail' := by
  have htail : tail = tail' := by
    have hdrop : (c.advanceBy text.length).rest = tail := by
      rw [Cursor.advanceBy_rest, h, List.drop_left]
    rw [← hdrop, heq, Cursor.advanceBy_rest, h', List.drop_left]
  subst htail
  exact ⟨List.append_cancel_right (h.symm.trans h'), rfl⟩

/-- A point and a digit behind it are not cut apart. -/
def KeepsPoint (l l' : List Char) : Prop :=
  ∀ digit, digit.isDigit = true → ['.', digit] <+: l → l'.head? = some '.' → ['.', digit] <+: l'

theorem stops_punctuator (p : Punctuator) :
    p.text.toList.any stops = false ∨ p.text.toList.length = 1 := by
  cases p <;> first | exact .inr rfl | exact .inl rfl

/-- The longest punctuator stays the longest one. -/
theorem find?_cut {p : Punctuator} {tail tail' : List Char} (hcut : Cut tail tail')
    (h : Punctuator.byLength.find? (fun q => q.text.toList.isPrefixOf (p.text.toList ++ tail)) =
      some p) :
    Punctuator.byLength.find? (fun q => q.text.toList.isPrefixOf (p.text.toList ++ tail')) =
      some p := by
  obtain ⟨-, before, after, hlist, hbefore⟩ := List.find?_eq_some_iff_append.mp h
  refine List.find?_eq_some_iff_append.mpr ⟨?_, before, after, hlist, fun q hq => ?_⟩
  · exact List.isPrefixOf_iff_prefix.mpr (List.prefix_append _ _)
  rw [Bool.not_eq_true', Bool.eq_false_iff]
  intro hbegins
  rw [List.isPrefixOf_iff_prefix] at hbegins
  have hlonger : ¬ q.text.toList <+: p.text.toList ++ tail := by
    simpa only [Bool.not_eq_true', Bool.eq_false_iff, ne_eq, List.isPrefixOf_iff_prefix]
      using hbefore q hq
  rcases stops_punctuator q with hstops | hlength
  · refine hlonger ((hcut.append _).begins _ (fun ch hch => ?_) hbegins)
    simpa using List.any_eq_false.mp hstops ch hch
  · obtain ⟨first, hfirst, -⟩ := head_punctuator p
    have hshort : q.text.toList <+: p.text.toList := by
      refine List.prefix_of_prefix_length_le hbegins (List.prefix_append _ _) ?_
      rw [hlength]
      exact List.length_pos_iff.mpr fun hnil => by rw [hnil] at hfirst; cases hfirst
    exact hlonger (hshort.trans (List.prefix_append _ _))

theorem isLoneQuestion_iff : (c.startsWith ['?', '.'] && (c.peekNth? 2).any Char.isDigit) = true ↔
    ∃ digit, digit.isDigit = true ∧ ['?', '.', digit] <+: c.rest := by
  rw [Bool.and_eq_true, Cursor.startsWith, List.isPrefixOf_iff_prefix, Cursor.peekNth?]
  constructor
  · rintro ⟨⟨tail, htail⟩, hdigit⟩
    rw [← htail] at hdigit ⊢
    cases tail with
    | nil => cases hdigit
    | cons digit tail => exact ⟨digit, hdigit, tail, rfl⟩
  · rintro ⟨digit, hdigit, tail, htail⟩
    rw [← htail]
    exact ⟨⟨digit :: tail, rfl⟩, hdigit⟩

theorem stops_digit (h : ch.isDigit = true) : stops ch = false := by
  have hmem := mem_of_isDigit h
  fin_cases hmem <;> rfl

theorem punctuator_eq {p : Punctuator}
    (hlone : ¬ ∃ digit, digit.isDigit = true ∧ ['?', '.', digit] <+: c.rest)
    (hfind : Punctuator.byLength.find? (fun q => q.text.toList.isPrefixOf c.rest) = some p) :
    punctuator ch c = .ok (.punctuator p) (c.advanceBy p.text.toList.length) := by
  have hfind' : Punctuator.byLength.find? (fun p => c.startsWith p.text.toList) = some p := hfind
  rw [punctuator, get_bind, if_neg (isLoneQuestion_iff.not.mpr hlone), hfind',
    String.length_toList]
  rfl

theorem reads_punctuator {p : Punctuator} {tail : List Char} (hc : c.rest = p.text.toList ++ tail)
    (h : punctuator ch c = .ok (.punctuator p) c') {d : Cursor} {tail' : List Char}
    (hcut : Cut tail tail') (hpoint : p = .question → KeepsPoint tail tail')
    (hd : d.rest = p.text.toList ++ tail') :
    punctuator ch d = .ok (.punctuator p) (d.advanceBy p.text.toList.length) := by
  by_cases hlone : ∃ digit, digit.isDigit = true ∧ ['?', '.', digit] <+: c.rest
  · rw [punctuator, get_bind, if_pos (isLoneQuestion_iff.mpr hlone)] at h
    obtain rfl : Punctuator.question = p := by
      injection h with h
      injection h
    obtain ⟨digit, hdigit, hbegins⟩ := hlone
    rw [hc] at hbegins
    have htail : ['.', digit] <+: tail := (List.prefix_append_right_inj ['?']).mp hbegins
    by_cases hhead : tail'.head? = some '.'
    · have hbegins' : ['?', '.', digit] <+: d.rest := by
        rw [hd]
        exact (List.prefix_append_right_inj ['?']).mpr (hpoint rfl digit hdigit htail hhead)
      rw [punctuator, get_bind, if_pos (isLoneQuestion_iff.mpr ⟨digit, hdigit, hbegins'⟩)]
      rfl
    · have hstops : Ahead (stops · = true) tail' := by
        refine hcut.head.resolve_left fun heq => hhead ?_
        obtain ⟨more, rfl⟩ := htail
        exact heq
      refine punctuator_eq ?_ ?_
      · rintro ⟨digit', -, hbegins'⟩
        rw [hd] at hbegins'
        obtain ⟨more, hmore⟩ := (List.prefix_append_right_inj ['?']).mp hbegins'
        exact hhead (by rw [← hmore]; rfl)
      · rw [hd]
        exact find?_cut ⟨[], [], tail', rfl, rfl, hstops⟩ (find?_punctuator .question)
  · have hfind : Punctuator.byLength.find? (fun q => q.text.toList.isPrefixOf c.rest) = some p := by
      rw [punctuator, get_bind, if_neg (isLoneQuestion_iff.not.mpr hlone)] at h
      cases hfind : Punctuator.byLength.find? fun p => c.startsWith p.text.toList with
      | none =>
        rw [hfind] at h
        cases h
      | some q =>
        rw [hfind] at h
        cases h
        exact hfind
    refine punctuator_eq ?_ ?_
    · rintro ⟨digit, hdigit, hbegins⟩
      rw [hd] at hbegins
      refine hlone ⟨digit, hdigit, hc ▸ (hcut.append _).begins _ ?_ hbegins⟩
      simpa [stops_digit hdigit] using by decide
    · rw [hd]
      exact find?_cut hcut (hc ▸ hfind)

/-- What is read where the text stands is read elsewhere, too. -/
theorem Local.reads_text [hx : x.Local] {a : α} {text tail : List Char} (hc : c.rest = text ++ tail)
    (h : x c = .ok a (c.advanceBy text.length)) : x.Reads text tail a := by
  obtain ⟨text', tail', hc', heq, hreads⟩ := hx.reads h
  obtain ⟨rfl, rfl⟩ := text_unique hc hc' heq
  exact hreads

theorem reads_stringLiteral (hquote : ch = '\'' ∨ ch = '"') {text tail : List Char}
    (hc : c.rest = text ++ tail) (hrest : c.rest = ch :: rest)
    (h : stringLiteral ch c = .ok kind (c.advanceBy text.length)) :
    (stringLiteral ch).Reads text tail kind := by
  obtain ⟨n, closed, hlength⟩ : ∃ n closed, stringLength ch rest = (n, closed) := ⟨_, _, rfl⟩
  rw [stringLiteral_eq hrest hlength] at h
  cases closed with
  | false => cases h
  | true =>
    obtain ⟨body, after, rfl, rfl, hbody⟩ := stringBody_of_stringLength hlength
    have htext : c.rest = ch :: (body ++ [ch]) ++ after := by rw [hrest]; simp
    have heq : c.advanceBy (ch :: (body ++ [ch])).length = c.advanceBy text.length := by
      injection h with hkind hcursor
      rw [← hcursor]
      simp
    obtain ⟨rfl, rfl⟩ := text_unique htext hc heq
    have hbounds : ch ≠ '\\' ∧ ch ≠ '\n' ∧ ch ≠ '\r' := by
      rcases hquote with rfl | rfl <;> decide
    intro d tail' _ hd
    have hd' : d.rest = ch :: (body ++ ch :: tail') := by rw [hd]; simp
    rw [stringLiteral_eq hd' (hbody.stringLength hbounds.1 hbounds.2.1 hbounds.2.2 tail')]
    simp only [if_true, List.length_cons, List.length_append, List.length_nil]
    injection h with hkind
    rw [← hkind]
    rfl

theorem reads_significant {text tail : List Char} (hc : c.rest = ch :: text ++ tail)
    (hkind : TokenText kind (ch :: text))
    (h : significant ch c = .ok kind (c.advanceBy (ch :: text).length)) {d : Cursor}
    {tail' : List Char} (hcut : Cut tail tail') (hpoint : KeepsPoint tail tail')
    (hd : d.rest = ch :: text ++ tail') :
    significant ch d = .ok kind (d.advanceBy (ch :: text).length) := by
  have hnext : c.peekNth? 1 = (text ++ tail).head? := by
    rw [Cursor.peekNth?, hc, List.cons_append, List.getElem?_cons_succ, List.head?_eq_getElem?]
  have hnext' : d.peekNth? 1 = (text ++ tail').head? := by
    rw [Cursor.peekNth?, hd, List.cons_append, List.getElem?_cons_succ, List.head?_eq_getElem?]
  have hsame (hne : text ≠ []) : d.peekNth? 1 = c.peekNth? 1 := by
    rw [hnext, hnext', List.head?_append_of_ne_nil _ hne, List.head?_append_of_ne_nil _ hne]
  have hnone {p : Char → Bool} (hp : ∀ ch, stops ch = true → p ch = false)
      (hc : (c.peekNth? 1).any p = false) : (d.peekNth? 1).any p = false := by
    have hahead : Ahead (p · = false) (text ++ tail) := fun ch hch => by
      rw [hnext, hch] at hc
      exact hc
    have hahead' := (hcut.append text).ahead hahead hp
    rw [hnext']
    cases hhead : (text ++ tail').head? with
    | none => rfl
    | some ch => exact hahead' ch hhead
  unfold significant at h ⊢
  rw [get_bind] at h ⊢
  split_ifs at h with hquote hdigit hpointed hhash htick hword
  · rw [if_pos hquote]
    exact reads_stringLiteral hquote hc hc h hcut hd
  · rw [if_neg hquote, if_pos hdigit]
    exact Local.reads_text hc h hcut hd
  · have hne : text ≠ [] := by
      rintro rfl
      have hend := (numericLiteral_end h).2
      rw [Cursor.advanceBy_rest, hc, List.drop_left] at hend
      rw [hnext] at hpointed
      obtain ⟨-, hdigit⟩ := hpointed
      cases tail with
      | nil => cases hdigit
      | cons digit tail => exact Bool.false_ne_true ((hend digit rfl).symm.trans hdigit)
    rw [if_neg hquote, if_neg hdigit, if_pos ⟨hpointed.1, by rw [hsame hne]; exact hpointed.2⟩]
    exact Local.reads_text hc h hcut hd
  · have hne : text ≠ [] := by
      rintro rfl
      obtain ⟨_, _, hmore, -⟩ := hkind.after_hash (congrArg (· :: []) hhash.1)
      cases hmore
    have : (take isIdentifierContinue).Local := local_take (stops_not (by decide))
    rw [if_neg hquote, if_neg hdigit, if_neg (by rw [hsame hne]; exact hpointed),
      if_pos ⟨hhash.1, by rw [hsame hne]; exact hhash.2⟩]
    have hname : (take isIdentifierContinue >>= fun _ => pure TokenKind.privateName).Reads text tail
        kind := by
      refine Local.reads_text (c := c.advanceBy 1) ?_ ?_
      · rw [Cursor.advanceBy_rest, hc]
        rfl
      · rw [← Cursor.advanceBy_add, Nat.add_comm]
        exact h
    exact hname.skip [ch] hcut hd
  · cases h
  all_goals
    have hpointed' : ¬ (ch = '.' ∧ (d.peekNth? 1).any Char.isDigit = true) := fun h => hpointed
      ⟨h.1, by
        cases hany : (c.peekNth? 1).any Char.isDigit with
        | true => rfl
        | false => exact (hnone (stops_not rfl) hany).symm.trans h.2⟩
    have hhash' : ¬ (ch = '#' ∧ (d.peekNth? 1).any isIdentifierStart = true) := fun h => hhash
      ⟨h.1, by
        cases hany : (c.peekNth? 1).any isIdentifierStart with
        | true => rfl
        | false => exact (hnone (stops_not (by decide)) hany).symm.trans h.2⟩
  · rw [if_neg hquote, if_neg hdigit, if_neg hpointed', if_neg hhash', if_neg htick, if_pos hword]
    exact Local.reads_text hc h hcut hd
  · rw [if_neg hquote, if_neg hdigit, if_neg hpointed', if_neg hhash', if_neg htick, if_neg hword]
    obtain ⟨p, tail₁, rfl, hc', heq⟩ := punctuator_ok h
    obtain ⟨htext, rfl⟩ := text_unique hc hc' heq
    rw [htext] at hd ⊢
    exact reads_punctuator hc' h hcut (fun _ => hpoint) hd

/-! ### Segments -/

/-- A step on a character that starts no blank, comment or hashbang finds a token. -/
theorem step_found (hc : c.rest = ch :: rest) (hspace : isWhitespace ch = false)
    (hline : isLineTerminator ch = false) (hslash : c.startsWith ['/', '/'] = false)
    (hstar : c.startsWith ['/', '*'] = false) (hbang : c.startsWith ['#', '!'] = false) :
    step c = (significant ch >>= fun kind => get >>= fun c' =>
      pure (.found (tokenFrom c kind c'))) c := by
  have hpeek : c.peek? = some ch := by rw [Cursor.peek?, hc]; rfl
  unfold step
  simp only [get_bind, hpeek, hspace, hline, hslash, hstar, hbang, Bool.false_eq_true, if_false,
    and_false]

/-- A number that starts with a point goes on behind it. -/
theorem step_point (hc : c.rest = '.' :: ch :: rest) (hch : ch.isDigit = true) {r : Step}
    (h : step c = .ok r c') : c' ≠ c.advanceBy 1 := by
  rintro rfl
  have hstarts (second : Char) : c.startsWith ['/', second] = false := by
    rw [Cursor.startsWith, hc]
    rfl
  rw [step_found hc (by decide) (by decide) (hstarts _) (hstarts _) (by rw [Cursor.startsWith, hc]; rfl)]
    at h
  obtain ⟨kind, c₁, hkind, h⟩ := bind_eq_ok h
  rw [get_bind] at h
  obtain rfl : c₁ = c.advanceBy 1 := by injection h
  have hdigit : (c.peekNth? 1).any Char.isDigit = true := by
    rw [Cursor.peekNth?, hc]
    exact hch
  have hnumber : numericLiteral c = .ok kind (c.advanceBy 1) := by
    unfold significant at hkind
    rw [get_bind] at hkind
    simpa [hdigit] using hkind
  have hend := (numericLiteral_end hnumber).2 ch (by rw [Cursor.advanceBy_rest, hc]; rfl)
  exact Bool.false_ne_true (hend.symm.trans hch)

end Scan

namespace Segment

/-- The segment goes up to the end of its line. -/
def isLine : Segment → Bool
  | .lineComment _ | .hashbang _ => true
  | _ => false

variable {s : Segment} {before before' after after' : List Char}

theorem Fits.cut (h : s.Fits before after) (hcut : Cut after after')
    (hline : s.isLine = true → Scan.Ahead (isLineTerminator · = true) after')
    (hbefore : before = [] → before' = []) : s.Fits before' after' := by
  cases h with
  | space hne hall hafter => exact .space hne hall (hcut.ahead hafter (Scan.stops_not rfl))
  | lineComment hall => exact .lineComment hall (hline rfl)
  | hashbang hstart hall => exact .hashbang (hbefore hstart) hall (hline rfl)
  | blockComment h => exact .blockComment h
  | token h hslash hstar hcr =>
    refine .token h (fun hbegins => hslash ?_) (fun hbegins => hstar ?_) fun heq hhead => ?_
    · exact (hcut.append _).begins _ (by simp [stops]) hbegins
    · exact (hcut.append _).begins _ (by simp [stops]) hbegins
    · rcases hcut.head with hsame | hstops
      · exact hcr heq (hsame ▸ hhead)
      · exact absurd (hstops '\n' hhead) (by decide)

end Segment

namespace Scan

theorem takeWhile_ahead {p : Char → Bool} {text after : List Char} (hall : ∀ ch ∈ text, p ch = true)
    (hafter : Ahead (p · = false) after) : (text ++ after).takeWhile p = text := by
  rw [List.takeWhile_append_of_pos hall]
  cases after with
  | nil => exact List.append_nil text
  | cons ch after =>
    rw [List.takeWhile_cons_of_neg (by rw [hafter ch rfl]; exact Bool.false_ne_true),
      List.append_nil]

theorem takeWhile_line {body after : List Char} (hall : ∀ ch ∈ body, isLineTerminator ch = false)
    (hafter : Ahead (isLineTerminator · = true) after) :
    (body ++ after).takeWhile (fun ch => !isLineTerminator ch) = body :=
  takeWhile_ahead (by simpa using hall) (hafter.mono (by simp))

theorem step_lineComment {body after : List Char} {c : Cursor}
    (hc : c.rest = '/' :: '/' :: (body ++ after)) (hall : ∀ ch ∈ body, isLineTerminator ch = false)
    (hafter : Ahead (isLineTerminator · = true) after) :
    step c = .ok .dropped (c.advanceBy ('/' :: '/' :: body).length) := by
  have hpeek : c.peek? = some '/' := by rw [Cursor.peek?, hc]; rfl
  have hstarts : c.startsWith ['/', '/'] = true := by rw [Cursor.startsWith, hc]; rfl
  unfold step
  rw [get_bind, hpeek]
  simp only [show isWhitespace '/' = false from by decide, show isLineTerminator '/' = false from by decide,
    hstarts, Bool.false_eq_true, if_false, if_true]
  rw [bind_ok (lineComment_eq hc (by decide) (by decide)), takeWhile_line hall hafter]
  rfl

theorem startsWith_eq_false {c : Cursor} {start l : List Char} (hc : c.rest = l)
    (h : ¬ start <+: l) : c.startsWith start = false := by
  rwa [Cursor.startsWith, hc, Bool.eq_false_iff, ne_eq, List.isPrefixOf_iff_prefix]

/-- No token starts as a hashbang does. -/
theorem not_bang {kind : TokenKind} {text tail : List Char} (h : TokenText kind text) {c : Cursor}
    (hc : c.rest = text ++ tail) : c.startsWith ['#', '!'] = false := by
  refine startsWith_eq_false hc fun ⟨more, hmore⟩ => ?_
  obtain ⟨ch, text, rfl⟩ := List.exists_cons_of_ne_nil h.ne_nil
  obtain ⟨rfl, hmore⟩ := List.cons.inj hmore
  obtain ⟨first, rest, rfl, hfirst⟩ := h.after_hash rfl
  cases hmore
  exact absurd hfirst (by decide)

/-- A step passes a segment wherever it stands, if what comes next is cut off or not. -/
theorem step_cut {s : Segment} {before after after' : List Char} {c d : Cursor} (hexact : d.IsExact)
    (hc : c.rest = s.text ++ after) (hfits : s.Fits before after)
    (h : step c = .ok ((s.token? c).elim .dropped .found) (c.advanceBy s.text.length))
    (hcut : Cut after after') (hpoint : KeepsPoint after after') (hd : d.rest = s.text ++ after')
    (hfits' : s.Fits d.before.reverse after') :
    step d = .ok ((s.token? d).elim .dropped .found) (d.advanceBy s.text.length) := by
  cases hfits' with
  | @space text hne hall hafter =>
    obtain ⟨ch, more, rfl⟩ := List.exists_cons_of_ne_nil hne
    have hpeek : d.peek? = some ch := by rw [Cursor.peek?, hd]; rfl
    have hspan : d.span isWhitespace = ch :: more := by
      rw [Cursor.span, hd]
      exact takeWhile_ahead hall hafter
    unfold step
    rw [get_bind, hpeek]
    simp only [hall ch List.mem_cons_self, if_true]
    rw [bind_ok (take_eq _ _), hspan]
    rfl
  | lineComment hall hafter => exact step_lineComment hd hall hafter
  | @hashbang body hbefore hall hafter =>
    have hd' : d.rest = '#' :: '!' :: (body ++ after') := hd
    have hoffset : d.location.offset = 0 := by
      rw [hexact, List.reverse_eq_nil_iff.mp hbefore]
      rfl
    have hpeek : d.peek? = some '#' := by rw [Cursor.peek?, hd']; rfl
    have hstarts : d.startsWith ['#', '!'] = true := by rw [Cursor.startsWith, hd']; rfl
    have hnot (second : Char) : d.startsWith ['/', second] = false := by
      rw [Cursor.startsWith, hd']
      rfl
    unfold step
    rw [get_bind, hpeek]
    simp only [show isWhitespace '#' = false by decide, show isLineTerminator '#' = false by decide,
      hnot, hstarts, hoffset, Bool.false_eq_true, if_false, and_self, if_true]
    rw [bind_ok (lineComment_eq hd' (by decide) (by decide)), takeWhile_line hall hafter]
    rfl
  | @blockComment body hfree =>
    have hd' : d.rest = '/' :: '*' :: (body ++ '*' :: '/' :: after') := by
      rw [hd]
      simp [Segment.text]
    have hpeek : d.peek? = some '/' := by rw [Cursor.peek?, hd]; rfl
    have hnot : d.startsWith ['/', '/'] = false := by rw [Cursor.startsWith, hd]; rfl
    have hstarts : d.startsWith ['/', '*'] = true := by rw [Cursor.startsWith, hd]; rfl
    unfold step
    rw [get_bind, hpeek]
    simp only [show isWhitespace '/' = false from by decide, show isLineTerminator '/' = false from by decide,
      hnot, hstarts, Bool.false_eq_true, if_false, if_true]
    rw [bind_ok (blockComment_eq hd' hfree)]
    cases (Segment.blockComment body).token? d <;> rfl
  | @token kind text htext hslash' hstar' hcr' =>
    rcases htext.starts with ⟨rfl, hbreak⟩ | ⟨ch, more, rfl, hspace, hline⟩
    · exact step_isLineBreak hbreak hd hcr'
    · cases hfits with
      | token _ hslash hstar hcr =>
        rw [step_found hc hspace hline (startsWith_eq_false hc hslash)
          (startsWith_eq_false hc hstar) (not_bang htext hc)] at h
        obtain ⟨kind', c₁, hkind, h⟩ := bind_eq_ok h
        rw [get_bind] at h
        have hc₁ : c₁ = c.advanceBy (ch :: more).length := by injection h
        have hkind' : kind' = kind := by
          injection h with h
          injection h with h
          injection h
        subst hc₁ hkind'
        rw [step_significant hd hspace hline (startsWith_eq_false hd hslash')
          (startsWith_eq_false hd hstar') (not_bang htext hd)
          (reads_significant hc htext hkind hcut hpoint hd), hd]
        simp only [Segment.text, List.take_left]
        rfl

end Scan

end Ecma
