import Ecma.Proofs.Syntax.Parallel

/-! A stretch of source text that stands in two texts. What a production takes from the stretch in the
first text it takes from it in the second one, whatever stands around it: either it takes the brace
that ends the stretch, or both runs have the same result and go on together. -/

namespace Ecma

/-- The number of bytes of some characters. -/
def byteCount (text : List Char) : Nat :=
  (text.map Char.utf8Size).sum

theorem byteCount_append (text more : List Char) :
    byteCount (text ++ more) = byteCount text + byteCount more := by
  simp [byteCount]

/-! ### Slices -/

namespace Parse

/-- What stands before the slice is passed over. -/
theorem slice_append_right (before text : List Char) {start stop offset : Nat}
    (hstart : offset + byteCount before ≤ start) (hstop : offset + byteCount before ≤ stop) :
    slice start stop offset (before ++ text) =
      slice start stop (offset + byteCount before) text := by
  induction before generalizing offset with
  | nil => rfl
  | cons c before ih =>
    have hsize := c.utf8Size_pos
    rw [byteCount, List.map_cons, List.sum_cons, ← byteCount] at hstart hstop ⊢
    rw [List.cons_append, slice, if_neg (by omega), if_pos (by omega), ih (by omega) (by omega),
      Nat.add_assoc]

/-- What stands behind the slice is left. -/
theorem slice_append_left (text after : List Char) {start stop offset : Nat}
    (hstop : stop ≤ offset + byteCount text) :
    slice start stop offset (text ++ after) = slice start stop offset text := by
  induction text generalizing offset with
  | nil =>
    cases after with
    | nil => rfl
    | cons c after => exact if_pos (by simpa [byteCount] using hstop)
  | cons c text ih =>
    rw [byteCount, List.map_cons, List.sum_cons, ← byteCount] at hstop
    rw [List.cons_append, slice, slice, ih (by omega)]

theorem slice_add (text : List Char) (start stop offset d : Nat) :
    slice (start + d) (stop + d) (offset + d) text = slice start stop offset text := by
  induction text generalizing offset with
  | nil => rfl
  | cons c text ih =>
    have hnext : offset + d + c.utf8Size = offset + c.utf8Size + d := by omega
    simp only [slice, hnext, ih, Nat.add_le_add_iff_right, Nat.add_lt_add_iff_right]

/-- A slice of a text is one of a longer text. -/
theorem slice_within (before text after : List Char) {start stop : Nat}
    (hstop : stop ≤ byteCount text) :
    slice (byteCount before + start) (byteCount before + stop) 0 (before ++ text ++ after) =
      slice start stop 0 text := by
  have hbefore : slice (byteCount before + start) (byteCount before + stop) 0
      (before ++ (text ++ after)) = slice (byteCount before + start) (byteCount before + stop)
        (0 + byteCount before) (text ++ after) :=
    slice_append_right before (text ++ after) (by omega) (by omega)
  have hshift := slice_add (text ++ after) start stop 0 (byteCount before)
  rw [List.append_assoc, hbefore, Nat.add_comm _ start, Nat.add_comm _ stop, hshift]
  exact slice_append_left text after (by omega)

/-- All of a text. -/
theorem slice_self (text : List Char) {stop offset : Nat}
    (hstop : offset + byteCount text ≤ stop) : slice 0 stop offset text = text := by
  induction text generalizing offset with
  | nil => rfl
  | cons c text ih =>
    have hsize := c.utf8Size_pos
    rw [byteCount, List.map_cons, List.sum_cons, ← byteCount] at hstop
    rw [slice, if_neg (by omega), if_neg (by omega), ih (by omega)]

/-- The text between two others. -/
theorem slice_between (before text after : List Char) :
    slice (byteCount before) (byteCount before + byteCount text) 0 (before ++ text ++ after) =
      text := by
  have hslice : slice (byteCount before + 0) (byteCount before + byteCount text) 0
      (before ++ text ++ after) = slice 0 (byteCount text) 0 text :=
    slice_within before text after (Nat.le_refl _)
  rwa [slice_self _ (Nat.le_of_eq (Nat.zero_add _)), Nat.add_zero] at hslice

end Parse

/-! ### Excerpts -/

/-- A stretch of source text that stands in two texts, with what stands around it there. -/
structure Excerpt where
  before : List Char
  text : List Char
  after : List Char
  /-- The tokens behind the stretch. -/
  rest : List Token
  before' : List Char
  after' : List Char
  rest' : List Token

namespace Excerpt

variable (i : Excerpt)

/-- The first text. -/
def source : List Char :=
  i.before ++ i.text ++ i.after

/-- The second text. -/
def source' : List Char :=
  i.before' ++ i.text ++ i.after'

/-- The number of tokens behind the stretch in the first text. -/
def left : Nat :=
  i.rest.countP Token.isSignificant

/-- The same surroundings in the second text. -/
def around (c : Surroundings) : Surroundings :=
  { c with source := i.source' }

/-- Two offsets are those of the same place in the stretch. -/
class Marks (n n' : Nat) : Prop where
  exists_offset : ∃ k ≤ byteCount i.text,
    n = byteCount i.before + k ∧ n' = byteCount i.before' + k

/-- The same token of the stretch in both texts. -/
structure Same (t t' : Token) : Prop where
  kind : t'.kind = t.kind
  text : t'.text = t.text
  start : i.Marks t.location.offset t'.location.offset
  stop : i.Marks t.endOffset t'.endOffset

/-- The tokens of the two texts from a place in the stretch on, which ends with a closing brace. -/
inductive Along : List Token → List Token → Prop
  | last {t t' : Token} (h : i.Same t t') (closes : t.kind = .punctuator .rightBrace) :
    Along (t :: i.rest) (t' :: i.rest')
  | more {t t' : Token} {l l' : List Token} (h : i.Same t t') (hl : Along l l') :
    Along (t :: l) (t' :: l')

/-- Two runs have come to the same place in the stretch. -/
structure Joined (s t : ParseState) : Prop where
  tokens : i.Along s.tokens.rest t.tokens.rest
  previousEnd : i.Marks s.tokens.previousEnd t.tokens.previousEnd
  references : t.references.map Prod.fst = s.references.map Prod.fst
  declared : t.declared = s.declared

/-- The first run has taken the brace at the end of the stretch. -/
def Past (s : ParseState) : Prop :=
  s.tokens.remaining ≤ i.left

/-- From two states, either the first run takes the brace at the end, or both have the same result
and stay together, with a number of tokens taken that the result tells. -/
def Leads {α : Type} (taken : α → Nat) (p q : Parse α) (c : Surroundings) (s t : ParseState) :
    Prop :=
  p.Yields c s fun a s' => i.Past s' ∨ (s'.tokens.remaining + taken a ≤ s.tokens.remaining ∧
    ∃ t', q (i.around c) t = .ok (a, t') ∧ i.Joined s' t')

/-- Wherever two runs are together with fewer than `bound - slack` tokens to come in the second one,
they have the same result and stay together, and `taken` tokens are taken at least. -/
class Agrees {α : Type} (bound slack taken : Nat) (p q : Parse α) : Prop where
  moves : p.Moves 0 0
  leads : ∀ c s t, c.source = i.source → i.Joined s t → t.tokens.remaining + slack < bound →
    i.Leads (fun _ => taken) p q c s t

end Excerpt

/-- Results that tell that a token has been taken. -/
class Signal (α : Type) where
  taken : α → Bool

instance : Signal Bool := ⟨id⟩

instance {α : Type} : Signal (Option α) := ⟨Option.isSome⟩

instance {α β : Type} : Signal (Turn α β) := ⟨fun t => !Parse.isDone t⟩

/-- The runs agree, and the result tells that a token is taken. -/
class Excerpt.Signals (i : Excerpt) {α : Type} [Signal α] (bound slack : Nat) (p q : Parse α) :
    Prop where
  moves : p.Moves 0 0
  leads : ∀ c s t, c.source = i.source → i.Joined s t → t.tokens.remaining + slack < bound →
    i.Leads (fun a => (Signal.taken a).toNat) p q c s t

open Parse

namespace Excerpt

variable {i : Excerpt} {α β : Type} {p q : Parse α} {f k : α → Parse β} {c : Surroundings}
  {bound slack m n : Nat}

/-! ### Tokens of the two runs -/

theorem Same.isSignificant {t t' : Token} (h : i.Same t t') : t'.isSignificant = t.isSignificant := by
  rw [Token.isSignificant, Token.isSignificant, h.kind]

theorem isSignificant_closing {t : Token} (h : t.kind = .punctuator .rightBrace) :
    t.isSignificant = true := by
  rw [Token.isSignificant, h]
  rfl

/-- The next token of both runs, and what is left of the stretch behind it. -/
theorem Along.next {l l' : List Token} (h : i.Along l l') : ∃ t t' m m',
    TokenStream.firstSignificant l = some (t, m) ∧ TokenStream.firstSignificant l' = some (t', m') ∧
      i.Same t t' ∧ (i.Along m m' ∨
        t.kind = .punctuator .rightBrace ∧ m = i.rest ∧ m' = i.rest') := by
  induction h with
  | @last t t' h closes =>
    have ht := isSignificant_closing closes
    exact ⟨t, t', i.rest, i.rest', by rw [TokenStream.firstSignificant, if_pos ht],
      by rw [TokenStream.firstSignificant, if_pos (h.isSignificant.trans ht)], h,
      .inr ⟨closes, rfl, rfl⟩⟩
  | @more t t' l l' h hl ih =>
    cases ht : t.isSignificant with
    | true =>
      exact ⟨t, t', l, l', by rw [TokenStream.firstSignificant, if_pos ht],
        by rw [TokenStream.firstSignificant, if_pos (h.isSignificant.trans ht)], h, .inl hl⟩
    | false =>
      have ht' := h.isSignificant.trans ht
      rw [TokenStream.firstSignificant, TokenStream.firstSignificant, ht, ht']
      exact ih

/-- The tokens of the stretch that are still to come. -/
theorem Along.significant {l l' : List Token} (h : i.Along l l') : ∃ front front' closing closing',
    l.filter Token.isSignificant = front ++ closing :: i.rest.filter Token.isSignificant ∧
    l'.filter Token.isSignificant = front' ++ closing' :: i.rest'.filter Token.isSignificant ∧
    List.Forall₂ i.Same front front' ∧ i.Same closing closing' ∧
    closing.kind = .punctuator .rightBrace := by
  induction h with
  | @last t t' h closes =>
    have ht := isSignificant_closing closes
    refine ⟨[], [], t, t', ?_, ?_, .nil, h, closes⟩
    · rw [List.filter_cons_of_pos ht, List.nil_append]
    · rw [List.filter_cons_of_pos (h.isSignificant.trans ht), List.nil_append]
  | @more t t' l l' h hl ih =>
    obtain ⟨front, front', closing, closing', hl, hl', hfront, hclosing, closes⟩ := ih
    cases ht : t.isSignificant with
    | true =>
      refine ⟨t :: front, t' :: front', closing, closing', ?_, ?_, .cons h hfront, hclosing, closes⟩
      · rw [List.filter_cons_of_pos ht, hl, List.cons_append]
      · rw [List.filter_cons_of_pos (h.isSignificant.trans ht), hl', List.cons_append]
    | false =>
      refine ⟨front, front', closing, closing', ?_, ?_, hfront, hclosing, closes⟩
      · rw [List.filter_cons_of_neg (by simp [ht]), hl]
      · rw [List.filter_cons_of_neg (by simp [h.isSignificant.trans ht]), hl']

/-- The same token stands first, line terminators included. -/
theorem Along.head {l l' : List Token} (h : i.Along l l') :
    ∃ t t' m m', l = t :: m ∧ l' = t' :: m' ∧ i.Same t t' := by
  cases h with
  | last h _ => exact ⟨_, _, _, _, rfl, rfl, h⟩
  | more h _ => exact ⟨_, _, _, _, rfl, rfl, h⟩

variable {s t s' t' : ParseState}

/-- The number of tokens to come differs by those behind the stretch only. -/
theorem Joined.remaining (h : i.Joined s t) : ∃ k, s.tokens.remaining = k + 1 + i.left ∧
    t.tokens.remaining = k + 1 + i.rest'.countP Token.isSignificant := by
  obtain ⟨front, front', closing, closing', hl, hl', hfront, -, -⟩ := h.tokens.significant
  refine ⟨front.length, ?_, ?_⟩
  · rw [TokenStream.remaining, List.countP_eq_length_filter, hl, left,
      List.countP_eq_length_filter, List.length_append, List.length_cons]
    omega
  · rw [TokenStream.remaining, List.countP_eq_length_filter, hl',
      List.countP_eq_length_filter, List.length_append, List.length_cons, hfront.length_eq]
    omega

/-- As many tokens are taken in the second run as in the first. -/
theorem Joined.remaining_eq (h : i.Joined s t) (h' : i.Joined s' t') :
    t'.tokens.remaining + s.tokens.remaining = t.tokens.remaining + s'.tokens.remaining := by
  obtain ⟨k, hs, ht⟩ := h.remaining
  obtain ⟨k', hs', ht'⟩ := h'.remaining
  omega

/-- The next tokens of both runs. -/
theorem Joined.peek? (h : i.Joined s t) : ∃ u u', s.tokens.peek? = some u ∧
    t.tokens.peek? = some u' ∧ i.Same u u' := by
  obtain ⟨u, u', m, m', hs, ht, hsame, -⟩ := h.tokens.next
  exact ⟨u, u', by rw [TokenStream.peek?, hs]; rfl, by rw [TokenStream.peek?, ht]; rfl, hsame⟩

theorem Joined.peekKind? (h : i.Joined s t) : t.tokens.peekKind? = s.tokens.peekKind? := by
  obtain ⟨u, u', hs, ht, hsame⟩ := h.peek?
  rw [TokenStream.peekKind?, TokenStream.peekKind?, hs, ht, Option.map_some, Option.map_some,
    hsame.kind]

/-- Taking the next token: it may be the brace at the end of the stretch. -/
theorem Joined.next? (h : i.Joined s t) : ∃ u u' tokens tokens',
    s.tokens.next? = some (u, tokens) ∧ t.tokens.next? = some (u', tokens') ∧ i.Same u u' ∧
      (i.Joined { s with tokens } { t with tokens := tokens' } ∨
        u.kind = .punctuator .rightBrace ∧ tokens.rest = i.rest ∧ tokens'.rest = i.rest') := by
  obtain ⟨u, u', m, m', hs, ht, hsame, hnext⟩ := h.tokens.next
  refine ⟨u, u', _, _, congrArg _ hs, congrArg _ ht, hsame, hnext.imp_left fun hl => ?_⟩
  exact ⟨hl, hsame.stop, h.references, h.declared⟩

/-- Both runs see the same token ahead, up to the brace. -/
theorem Joined.peekNth? (h : i.Joined s t) {j : Nat} (hj : i.left + j < s.tokens.remaining) :
    ∃ u u', s.tokens.peekNth? j = some u ∧ t.tokens.peekNth? j = some u' ∧ i.Same u u' ∧
      (i.left + (j + 1) < s.tokens.remaining ∨ u.kind = .punctuator .rightBrace) := by
  obtain ⟨front, front', closing, closing', hl, hl', hfront, hclosing, closes⟩ :=
    h.tokens.significant
  have hlength := hfront.length_eq
  have hremaining : s.tokens.remaining = front.length + (i.left + 1) := by
    rw [TokenStream.remaining, List.countP_eq_length_filter, hl, left,
      List.countP_eq_length_filter, List.length_append, List.length_cons]
  simp only [TokenStream.peekNth?_eq, TokenStream.significant, hl, hl']
  rcases Nat.lt_or_ge j front.length with hlt | hge
  · refine ⟨front[j], front'.get ⟨j, by omega⟩, ?_, ?_, ?_, .inl (by omega)⟩
    · rw [List.getElem?_append_left hlt, List.getElem?_eq_getElem hlt]
    · rw [List.getElem?_append_left (by omega), List.getElem?_eq_getElem (by omega), List.get_eq_getElem]
    · exact List.Forall₂.get hfront hlt (by omega)
  · obtain rfl : j = front.length := by omega
    refine ⟨closing, closing', ?_, ?_, hclosing, .inr closes⟩
    · simp
    · simp [hlength]

/-! ### Steps -/

theorem Leads.mono {m n : α → Nat} (h : i.Leads m p q c s t) (hn : ∀ a, n a ≤ m a) :
    i.Leads n p q c s t :=
  Yields.mono h fun a _ h => h.imp_right fun h =>
    ⟨Nat.le_trans (Nat.add_le_add_left (hn a) _) h.1, h.2⟩

theorem Leads.pure (h : i.Joined s t) (a : α) :
    i.Leads (fun _ => 0) (Pure.pure a) (Pure.pure a) c s t :=
  Yields.pure (.inr ⟨Nat.le_refl _, t, rfl, h⟩)

theorem Leads.bind {m : α → Nat} {n : β → Nat} (h : i.Leads m p q c s t)
    (hmoves : ∀ a, (f a).Moves 0 0)
    (hf : ∀ a s' t', s'.tokens.remaining + m a ≤ s.tokens.remaining → i.Joined s' t' →
      i.Leads (fun b => n b - m a) (f a) (k a) c s' t') :
    i.Leads n (p >>= f) (q >>= k) c s t := by
  refine Yields.bind h fun a s' h' => ?_
  rcases h' with hpast | ⟨htaken, t', heq, hjoined⟩
  · refine ((hmoves a).yields c s').mono fun b s'' h'' => .inl ?_
    exact Nat.le_trans h''.remaining hpast
  · refine Yields.mono (hf a s' t' htaken hjoined) fun b s'' h'' => h''.imp_right fun h'' => ?_
    obtain ⟨htaken', t'', heq', hjoined'⟩ := h''
    dsimp only at htaken'
    exact ⟨by omega, t'', by rw [bind_of_ok heq, heq'], hjoined'⟩

/-- Both runs go on from where they are. -/
theorem Leads.of_eq {n : β → Nat} {a : α} (hp : p.Yields c s fun b s' => b = a ∧ s' = s)
    (hq : q (i.around c) t = .ok (a, t)) (hf : i.Leads n (f a) (k a) c s t) :
    i.Leads n (p >>= f) (q >>= k) c s t := by
  refine Yields.bind hp fun b s' h => ?_
  obtain ⟨rfl, rfl⟩ := h
  exact Yields.mono hf fun b s'' h => by rwa [bind_of_ok hq]

/-- A look at the tokens tells the same in both runs, which go on from where they are. -/
theorem Leads.ask {n : β → Nat} {P : α → Prop} (hp : i.Leads (fun _ => 0) p q c s t)
    (hjoined : i.Joined s t) (hsame : p.Yields c s fun a s' => s' = s ∧ P a)
    (hf : ∀ a t', P a → i.Joined s t' → t'.tokens.remaining = t.tokens.remaining →
      i.Leads n (f a) (k a) c s t') :
    i.Leads n (p >>= f) (q >>= k) c s t := by
  refine Yields.bind (Yields.and hp hsame) fun a s' h => ?_
  obtain ⟨hpast | ⟨-, t', heq, hjoined'⟩, rfl, ha⟩ := h
  · obtain ⟨j, hj, -⟩ := hjoined.remaining
    have hle : s'.tokens.remaining ≤ i.left := hpast
    omega
  · have hremaining := hjoined.remaining_eq hjoined'
    refine Yields.mono (hf a t' ha hjoined' (by omega)) fun b s'' h => ?_
    rwa [bind_of_ok heq]

theorem Agrees.weaken (h : i.Agrees bound slack m p q) {slack' m' : Nat} (hs : slack ≤ slack')
    (hm : m' ≤ m) : i.Agrees bound slack' m' p q :=
  ⟨h.moves, fun c s t hc hjoined hlt => (h.leads c s t hc hjoined (by omega)).mono fun _ => hm⟩

instance (priority := low) [h : i.Agrees bound 0 m p q] : i.Agrees bound 1 m p q :=
  h.weaken (Nat.zero_le _) (Nat.le_refl _)

/-- Where the brace at the end of the stretch is still to come, both runs have the same result. -/
theorem Agrees.exists_joined (h : i.Agrees bound slack m p q) {a : α} (heq : p c s = .ok (a, s'))
    (hleft : i.left < s'.tokens.remaining) (hc : c.source = i.source) (hjoined : i.Joined s t)
    (hlt : t.tokens.remaining + slack < bound) : ∃ t', q (i.around c) t = .ok (a, t') ∧
      i.Joined s' t' ∧ t'.tokens.remaining + m ≤ t.tokens.remaining := by
  obtain hpast | ⟨htaken, t', ht', hjoined'⟩ := h.leads c s t hc hjoined hlt a s' heq
  · exact absurd hpast (Nat.not_le.mpr hleft)
  · have htaken : s'.tokens.remaining + m ≤ s.tokens.remaining := htaken
    have hremaining := hjoined.remaining_eq hjoined'
    exact ⟨t', ht', hjoined', by omega⟩

theorem Agrees.free (h : i.Agrees bound slack 1 p q) : i.Agrees bound slack 0 p q :=
  h.weaken (Nat.le_refl _) (Nat.zero_le _)

instance (priority := low) [h : i.Agrees bound slack 1 p q] : i.Agrees bound slack 0 p q :=
  h.free

theorem Agrees.bind {slack' m' n : Nat} (hp : i.Agrees bound slack m p q)
    (hf : ∀ a, i.Agrees bound slack' m' (f a) (k a)) (hs : slack' ≤ slack + m)
    (hn : n ≤ m + m') : i.Agrees bound slack n (p >>= f) (q >>= k) := by
  have := hp.moves
  refine ⟨.step fun a => (hf a).moves, fun c s t hc hjoined hlt => ?_⟩
  refine (hp.leads c s t hc hjoined hlt).bind (fun a => (hf a).moves)
    fun a s' t' htaken hjoined' => ?_
  have hremaining := hjoined.remaining_eq hjoined'
  exact ((hf a).leads c s' t' hc hjoined' (by omega)).mono fun _ => by omega

/-- A token is taken by the first step. -/
theorem Agrees.first [hp : i.Agrees bound slack 1 p q] (hf : ∀ a, i.Agrees bound 1 0 (f a) (k a)) :
    i.Agrees bound slack 1 (p >>= f) (q >>= k) :=
  hp.bind hf (by omega) (by omega)

/-- A token is taken by a later step. -/
theorem Agrees.later [hp : i.Agrees bound slack 0 p q]
    (hf : ∀ a, i.Agrees bound slack 1 (f a) (k a)) :
    i.Agrees bound slack 1 (p >>= f) (q >>= k) :=
  hp.bind hf (by omega) (by omega)

theorem Agrees.step [hp : i.Agrees bound slack 0 p q]
    (hf : ∀ a, i.Agrees bound slack 0 (f a) (k a)) :
    i.Agrees bound slack 0 (p >>= f) (q >>= k) :=
  hp.bind hf (by omega) (by omega)

instance [i.Agrees bound slack 0 p q] [hf : ∀ a, i.Agrees bound slack 0 (f a) (k a)] :
    i.Agrees bound slack 0 (p >>= f) (q >>= k) :=
  .step hf

instance [i.Agrees bound slack 0 p q] [hf : ∀ a, i.Agrees bound slack 1 (f a) (k a)] :
    i.Agrees bound slack 1 (p >>= f) (q >>= k) :=
  .later hf

instance [i.Agrees bound slack 1 p q] [hf : ∀ a, i.Agrees bound 1 0 (f a) (k a)] :
    i.Agrees bound slack 1 (p >>= f) (q >>= k) :=
  .first hf

instance (priority := high) [p.Fails] : i.Agrees bound slack m p q :=
  ⟨inferInstance, fun _ _ _ _ _ _ => Yields.fail⟩

instance (a : α) : i.Agrees bound slack 0 (pure a) (pure a) :=
  ⟨inferInstance, fun _ _ _ _ hjoined _ => .pure hjoined a⟩

instance {b : Prop} [Decidable b] {p' q' : Parse α} [i.Agrees bound slack m p q]
    [i.Agrees bound slack m p' q'] :
    i.Agrees bound slack m (if b then p else p') (if b then q else q') := by
  split <;> infer_instance

instance {f : α → β} [i.Agrees bound slack m p q] : i.Agrees bound slack m (f <$> p) (f <$> q) := by
  have hp : i.Agrees bound slack m p q := inferInstance
  rw [map_eq_pure_bind, map_eq_pure_bind]
  have hpure (a : α) : i.Agrees bound slack 0 (pure (f a)) (pure (f a)) := inferInstance
  exact hp.bind hpure (by omega) (by omega)

/-- A check that rejects the text, or passes. -/
theorem Agrees.guard {b : Prop} [Decidable b] {y y' : Parse β} [p.Fails]
    (hy : i.Agrees bound slack m y y') :
    i.Agrees bound slack m (if b then p >>= f else y) (if b then q >>= k else y') := by
  split <;> infer_instance

/-- A step that is left out in some cases. -/
theorem Agrees.optional {b : Prop} [Decidable b] {p q : Parse Unit} {f k : Unit → Parse β}
    [i.Agrees bound slack 0 p q] (hf : ∀ u, i.Agrees bound slack 0 (f u) (k u)) :
    i.Agrees bound slack 0 (if b then p >>= f else f ()) (if b then q >>= k else k ()) := by
  split
  · exact .step hf
  · exact hf ()

/-! ### Surroundings -/

/-- The change of the surroundings has nothing to do with the source text. -/
def KeepsSource (φ : Surroundings → Surroundings) : Prop :=
  ∀ c source, φ { c with source } = { φ c with source } ∧ (φ c).source = c.source

theorem Agrees.within {φ : Surroundings → Surroundings} (h : i.Agrees bound slack m p q)
    (hφ : KeepsSource φ) : i.Agrees bound slack m (withReader φ p) (withReader φ q) := by
  have := h.moves
  refine ⟨inferInstance, fun c s t hc hjoined hlt => Yields.withReader ?_⟩
  refine Yields.mono (h.leads (φ c) s t ((hφ c []).2.trans hc) hjoined hlt) fun a s' h' => ?_
  refine h'.imp_right fun h' => ⟨h'.1, h'.2.imp fun t' h'' => ⟨?_, h''.2⟩⟩
  change q (φ (i.around c)) t = _
  rw [show φ (i.around c) = i.around (φ c) from (hφ c _).1]
  exact h''.1

theorem Agrees.allowIn (h : i.Agrees bound slack m p q) :
    i.Agrees bound slack m p.allowIn q.allowIn :=
  h.within fun _ _ => ⟨rfl, rfl⟩

instance [h : i.Agrees bound slack m p q] : i.Agrees bound slack m p.allowIn q.allowIn :=
  h.allowIn

/-- What is known of the surroundings besides the source text is the same in both runs. -/
theorem Agrees.read {f k : Surroundings → Parse β}
    (h : ∀ c, i.Agrees bound slack m (f c) (k (i.around c))) :
    i.Agrees bound slack m (read >>= f) (read >>= k) :=
  ⟨⟨fun c s => Yields.read ((h c).moves.yields c s)⟩,
    fun c s t hc hjoined hlt => (h c).leads c s t hc hjoined hlt⟩

instance : i.Agrees bound slack 0 strict strict :=
  .read fun c => inferInstanceAs (i.Agrees bound slack 0 (pure c.strict) (pure c.strict))

/-! ### Tokens -/

/-- What is read from the state is the same in both runs. -/
theorem Agrees.reads {r : ParseState → α} (h : ∀ {s t}, i.Joined s t → r t = r s) :
    i.Agrees bound slack 0 (do return r (← get)) (do return r (← get)) := by
  refine ⟨inferInstance, fun c s t hc hjoined hlt a s' heq => ?_⟩
  cases heq
  exact .inr ⟨Nat.le_refl _, t, congrArg (fun a => Except.ok (a, t)) (h hjoined), hjoined⟩

instance : i.Agrees bound slack 0 Parse.peekKind? Parse.peekKind? :=
  .reads Joined.peekKind?

instance (kind : TokenKind) : i.Agrees bound slack 0 (atKind kind) (atKind kind) :=
  .reads fun h => by rw [TokenStream.check, TokenStream.check, h.peekKind?]

instance (x : Punctuator) : i.Agrees bound slack 0 (atPunct x) (atPunct x) := by
  unfold atPunct; infer_instance

instance (x : Keyword) : i.Agrees bound slack 0 (atKeyword x) (atKeyword x) := by
  unfold atKeyword; infer_instance

instance : i.Agrees bound slack 0 atEnd atEnd := by
  refine .reads fun h => ?_
  obtain ⟨u, u', hs, ht, -⟩ := h.peek?
  rw [TokenStream.isAtEnd, TokenStream.isAtEnd, hs, ht]
  rfl

instance : i.Agrees bound slack 0 lineTerminatorBefore lineTerminatorBefore := by
  refine .reads fun h => ?_
  obtain ⟨u, u', m, m', hs, ht, hsame⟩ := h.tokens.head
  rw [TokenStream.lineTerminatorBefore, TokenStream.lineTerminatorBefore, hs, ht]
  exact congrArg (· == _) hsame.kind

instance : i.Agrees bound slack 0 varNames varNames :=
  .reads Joined.declared

/-- What is made of the next token does not depend on where it stands. -/
theorem Agrees.peek? {f k : Option Token → Parse β}
    (hnone : (f none).Moves 0 0)
    (h : ∀ kind text l l', i.Agrees bound slack m (f (some ⟨kind, text, l⟩))
      (k (some ⟨kind, text, l'⟩))) :
    i.Agrees bound slack m (Parse.peek? >>= f) (Parse.peek? >>= k) := by
  have hmoves (u? : Option Token) : (f u?).Moves 0 0 := by
    cases u? with
    | none => exact hnone
    | some u => exact (h u.kind u.text u.location u.location).moves
  refine ⟨.step hmoves, fun c s t hc hjoined hlt => ?_⟩
  obtain ⟨u, u', hs, ht, hsame⟩ := hjoined.peek?
  have hu' : u' = ⟨u.kind, u.text, u'.location⟩ := by
    rw [← hsame.kind, ← hsame.text]
  refine Yields.bind (P := fun u? s' => u? = some u ∧ s' = s) (fun u? s' heq => ?_)
    fun u? s' h' => ?_
  · cases heq
    exact ⟨hs, rfl⟩
  · obtain ⟨rfl, rfl⟩ := h'
    have hlead := (h u.kind u.text u.location u'.location).leads c s' t hc hjoined hlt
    rw [← hu'] at hlead
    refine Yields.mono hlead fun b s'' h'' => ?_
    have heq : Parse.peek? (i.around c) t = .ok (some u', t) :=
      congrArg (fun u? => Except.ok (u?, t)) ht
    rwa [bind_of_ok heq]

/-- What is made of the next token does not depend on where it stands. -/
theorem Agrees.peek {f k : Token → Parse β}
    (h : ∀ kind text l l', i.Agrees bound slack m (f ⟨kind, text, l⟩) (k ⟨kind, text, l'⟩)) :
    i.Agrees bound slack m (Parse.peek >>= f) (Parse.peek >>= k) := by
  unfold Parse.peek
  rw [bind_assoc, bind_assoc]
  exact .peek? inferInstance fun kind text l l' => h kind text l l'

instance (word : String) : i.Agrees bound slack 0 (atWord word) (atWord word) :=
  .peek? inferInstance fun kind text _ _ =>
    inferInstanceAs (i.Agrees bound slack 0 (pure (kind == .identifier && text == word))
      (pure (kind == .identifier && text == word)))

/-- Where the next token stands does not matter. -/
theorem Agrees.at {f k : Location → Parse β}
    (h : ∀ l l', i.Agrees bound slack m (f l) (k l')) :
    i.Agrees bound slack m (location >>= f) (location >>= k) := by
  refine ⟨.step fun l => (h l l).moves, fun c s t hc hjoined hlt => ?_⟩
  exact (h _ _).leads c s t hc hjoined hlt

/-- Where the next token stands is known. -/
theorem Agrees.marked {f k : Location → Parse β} (hmoves : (location >>= f).Moves 0 0)
    (h : ∀ l l', i.Marks l.offset l'.offset → i.Agrees bound slack m (f l) (k l')) :
    i.Agrees bound slack m (location >>= f) (location >>= k) := by
  refine ⟨hmoves, fun c s t hc hjoined hlt => ?_⟩
  obtain ⟨u, u', hs, ht, hsame⟩ := hjoined.peek?
  refine (h s.tokens.location t.tokens.location ?_).leads c s t hc hjoined hlt
  rw [TokenStream.location, TokenStream.location, hs, ht]
  exact hsame.start

/-- A token is taken, which may be the brace at the end of the stretch. -/
theorem Agrees.advance {f k : Token → Parse β}
    (h : ∀ kind text l l', i.Agrees bound 1 0 (f ⟨kind, text, l⟩) (k ⟨kind, text, l'⟩)) :
    i.Agrees bound slack 1 (Parse.advance >>= f) (Parse.advance >>= k) := by
  have hmoves (u : Token) : (f u).Moves 0 0 := (h u.kind u.text u.location u.location).moves
  refine ⟨.step hmoves, fun c s t hc hjoined hlt => ?_⟩
  obtain ⟨u, u', tokens, tokens', hs, ht, hsame, hnext⟩ := hjoined.next?
  have hfirst : Parse.advance c s = .ok (u, { s with tokens }) := by
    unfold Parse.advance
    rw [bind_of_ok (rfl : (get : Parse ParseState) c s = .ok (s, s)), hs]
    rfl
  have hsecond : Parse.advance (i.around c) t = .ok (u', { t with tokens := tokens' }) := by
    unfold Parse.advance
    rw [bind_of_ok (rfl : (get : Parse ParseState) (i.around c) t = .ok (t, t)), ht]
    rfl
  refine Yields.bind (P := fun b s' => b = u ∧ s' = { s with tokens }) (fun b s' heq => ?_)
    fun b s' h' => ?_
  · cases hfirst.symm.trans heq
    exact ⟨rfl, rfl⟩
  obtain ⟨rfl, rfl⟩ := h'
  rcases hnext with hjoined' | ⟨-, hrest, -⟩
  · have hu' : u' = ⟨b.kind, b.text, u'.location⟩ := by
      rw [← hsame.kind, ← hsame.text]
    have hremaining := hjoined.remaining_eq hjoined'
    have htaken := TokenStream.remaining_of_next? hs
    have hlead := (h b.kind b.text b.location u'.location).leads c _ _ hc hjoined'
      (by dsimp only at hremaining ⊢; omega)
    rw [← hu'] at hlead
    refine Yields.mono hlead fun a s'' h'' => h''.imp_right fun h'' => ?_
    rw [bind_of_ok hsecond]
    have htaken' := h''.1
    exact ⟨by dsimp only at htaken' ⊢; omega, h''.2⟩
  · refine ((hmoves b).yields c _).mono fun a s'' h'' => .inl (Nat.le_trans h''.remaining ?_)
    rw [TokenStream.remaining, hrest, left]

instance : i.Agrees bound slack 1 Parse.skip Parse.skip := by
  refine ⟨inferInstance, fun c s t hc hjoined hlt => ?_⟩
  obtain ⟨u, u', tokens, tokens', hs, ht, hsame, hnext⟩ := hjoined.next?
  have hfirst : Parse.skip c s = .ok ((), { s with tokens }) := by
    unfold Parse.skip
    rw [bind_of_ok (rfl : (get : Parse ParseState) c s = .ok (s, s)), hs]
    rfl
  have hsecond : Parse.skip (i.around c) t = .ok ((), { t with tokens := tokens' }) := by
    unfold Parse.skip
    rw [bind_of_ok (rfl : (get : Parse ParseState) (i.around c) t = .ok (t, t)), ht]
    rfl
  intro b s' heq
  cases hfirst.symm.trans heq
  rcases hnext with hjoined' | ⟨-, hrest, -⟩
  · exact .inr ⟨Nat.le_of_eq (TokenStream.remaining_of_next? hs).symm, _, hsecond, hjoined'⟩
  · refine .inl (Nat.le_of_eq ?_)
    rw [TokenStream.remaining, hrest, left]

/-! ### Results that tell of a token -/

instance (priority := low) [Signal α] [h : i.Signals bound slack p q] :
    i.Agrees bound slack 0 p q :=
  ⟨h.moves, fun c s t hc hjoined hlt => (h.leads c s t hc hjoined hlt).mono fun _ => Nat.zero_le _⟩

theorem Signals.ofFirst [Signal α] (h : i.Agrees bound slack 1 p q) : i.Signals bound slack p q :=
  ⟨h.moves, fun c s t hc hjoined hlt => (h.leads c s t hc hjoined hlt).mono fun _ => Bool.toNat_le _⟩

instance (priority := low) [Signal α] [h : i.Agrees bound slack 1 p q] :
    i.Signals bound slack p q :=
  .ofFirst h

instance (priority := low) [Signal α] [h : i.Signals bound 0 p q] : i.Signals bound 1 p q :=
  ⟨h.moves, fun c s t hc hjoined hlt => h.leads c s t hc hjoined (by omega)⟩

theorem Signals.pure [Signal α] {a : α} (ha : Signal.taken a = false) :
    i.Signals bound slack (Pure.pure a) (Pure.pure a) := by
  refine ⟨inferInstance, fun _ _ t _ hjoined _ => Yields.pure (.inr ⟨?_, t, rfl, hjoined⟩)⟩
  simp only [ha, Bool.toNat_false, Nat.add_zero, Nat.le_refl]

instance (b : β) : i.Signals bound slack (pure (.done b : Turn α β)) (pure (.done b)) :=
  .pure rfl

instance : i.Signals bound slack (pure (none : Option α)) (pure none) :=
  .pure rfl

instance : i.Signals bound slack (pure false) (pure false) :=
  .pure rfl

theorem Signals.later [Signal β] [hp : i.Agrees bound slack 0 p q]
    (hf : ∀ a, i.Signals bound slack (f a) (k a)) : i.Signals bound slack (p >>= f) (q >>= k) := by
  have := hp.moves
  refine ⟨.step fun a => (hf a).moves, fun c s t hc hjoined hlt => ?_⟩
  refine (hp.leads c s t hc hjoined hlt).bind (fun a => (hf a).moves)
    fun a s' t' htaken hjoined' => ?_
  have hremaining := hjoined.remaining_eq hjoined'
  exact ((hf a).leads c s' t' hc hjoined' (by omega)).mono fun _ => by omega

instance [Signal β] [i.Agrees bound slack 0 p q] [hf : ∀ a, i.Signals bound slack (f a) (k a)] :
    i.Signals bound slack (p >>= f) (q >>= k) :=
  .later hf

instance [Signal α] {b : Prop} [Decidable b] {p' q' : Parse α} [i.Signals bound slack p q]
    [i.Signals bound slack p' q'] :
    i.Signals bound slack (if b then p else p') (if b then q else q') := by
  split <;> infer_instance

/-- A check that rejects the text, or passes. -/
theorem Signals.guard [Signal β] {b : Prop} [Decidable b] {y y' : Parse β} [p.Fails]
    (hy : i.Signals bound slack y y') :
    i.Signals bound slack (if b then p >>= f else y) (if b then q >>= k else y') := by
  split
  · exact ⟨inferInstance, fun _ _ _ _ _ _ => Yields.fail⟩
  · exact hy

/-- What comes after a step of which the result tells whether it takes a token. -/
theorem Signals.leads_bind [Signal α] (hp : i.Signals bound slack p q) {n : β → Nat} {t : ParseState}
    (hn : ∀ b, n b ≤ 1) (hyes : ∀ a, Signal.taken a = true → i.Agrees bound 1 0 (f a) (k a))
    (hno : ∀ a, Signal.taken a = false → (f a).Moves 0 0 ∧ ∀ c s t, c.source = i.source →
      i.Joined s t → t.tokens.remaining + slack < bound → i.Leads n (f a) (k a) c s t)
    (hc : c.source = i.source) (hjoined : i.Joined s t) (hlt : t.tokens.remaining + slack < bound) :
    i.Leads n (p >>= f) (q >>= k) c s t := by
  refine (hp.leads c s t hc hjoined hlt).bind (fun a => ?_) fun a s' t' htaken hjoined' => ?_
  · cases ha : Signal.taken a with
    | true => exact (hyes a ha).moves
    | false => exact (hno a ha).1
  have hremaining := hjoined.remaining_eq hjoined'
  cases ha : Signal.taken a with
  | true =>
    rw [ha] at htaken
    have htaken : s'.tokens.remaining + 1 ≤ s.tokens.remaining := htaken
    refine ((hyes a ha).leads c s' t' hc hjoined' (by omega)).mono fun b => ?_
    have := hn b
    have hone : true.toNat = 1 := rfl
    omega
  | false =>
    rw [ha] at htaken
    have htaken : s'.tokens.remaining ≤ s.tokens.remaining := htaken
    exact ((hno a ha).2 c s' t' hc hjoined' (by omega)).mono fun _ => Nat.sub_le _ _

/-- What comes after a step of which the result tells whether it takes a token. -/
theorem Agrees.fork [Signal α] [hp : i.Signals bound slack p q] (hm : m ≤ 1)
    (hyes : ∀ a, Signal.taken a = true → i.Agrees bound 1 0 (f a) (k a))
    (hno : ∀ a, Signal.taken a = false → i.Agrees bound slack m (f a) (k a)) :
    i.Agrees bound slack m (p >>= f) (q >>= k) := by
  have := hp.moves
  refine ⟨.step fun a => ?_, fun c s t hc hjoined hlt => ?_⟩
  · cases ha : Signal.taken a with
    | true => exact (hyes a ha).moves
    | false => exact (hno a ha).moves
  · exact hp.leads_bind (fun _ => hm) hyes (fun a ha => ⟨(hno a ha).moves, (hno a ha).leads⟩) hc
      hjoined hlt

/-- What comes after a step of which the result tells whether it takes a token. -/
theorem Signals.fork [Signal α] [Signal β] [hp : i.Signals bound slack p q]
    (hyes : ∀ a, Signal.taken a = true → i.Agrees bound 1 0 (f a) (k a))
    (hno : ∀ a, Signal.taken a = false → i.Signals bound slack (f a) (k a)) :
    i.Signals bound slack (p >>= f) (q >>= k) := by
  have := hp.moves
  refine ⟨.step fun a => ?_, fun c s t hc hjoined hlt => ?_⟩
  · cases ha : Signal.taken a with
    | true => exact (hyes a ha).moves
    | false => exact (hno a ha).moves
  · exact hp.leads_bind (fun _ => Bool.toNat_le _) hyes
      (fun a ha => ⟨(hno a ha).moves, (hno a ha).leads⟩) hc hjoined hlt

/-- What comes after a step that takes a token if it has a result. -/
theorem Signals.option [Signal β] {p q : Parse (Option α)} {f k : Option α → Parse β}
    [i.Signals bound slack p q] (hnone : i.Signals bound slack (f none) (k none))
    (hsome : ∀ a, i.Agrees bound 1 0 (f (some a)) (k (some a))) :
    i.Signals bound slack (p >>= f) (q >>= k) := by
  refine .fork (fun a? ha => ?_) fun a? ha => ?_
  · cases a? with
    | none => cases ha
    | some a => exact hsome a
  · cases a? with
    | none => exact hnone
    | some a => cases ha

instance (kind : TokenKind) : i.Signals bound slack (eatKind kind) (eatKind kind) := by
  have taken (b : Bool) : i.Signals bound slack
      (if b = true then Parse.skip >>= fun _ => Pure.pure true else Pure.pure false)
      (if b = true then Parse.skip >>= fun _ => Pure.pure true else Pure.pure false) := by
    have hskip : i.Agrees bound slack 1 (Parse.skip >>= fun _ => (Pure.pure true : Parse Bool))
        (Parse.skip >>= fun _ => Pure.pure true) := inferInstance
    infer_instance
  exact .later taken

instance (x : Punctuator) : i.Signals bound slack (eat x) (eat x) := by
  unfold eat; infer_instance

instance (x : Keyword) : i.Signals bound slack (eatKeyword x) (eatKeyword x) := by
  unfold eatKeyword; infer_instance

/-- A token is taken if it is there. -/
theorem Agrees.eat {kind : TokenKind} {x x' y y' : Parse β} (hm : m ≤ 1)
    (hx : i.Agrees bound 1 0 x x') (hy : i.Agrees bound slack m y y') :
    i.Agrees bound slack m (eatKind kind >>= fun b => if b = true then x else y)
      (eatKind kind >>= fun b => if b = true then x' else y') := by
  refine .fork hm (fun b hb => ?_) fun b hb => ?_
  · obtain rfl : b = true := hb
    exact hx
  · obtain rfl : b = false := hb
    exact hy

/-- A token is taken if it is there. -/
theorem Signals.eat [Signal β] {kind : TokenKind} {x x' y y' : Parse β}
    (hx : i.Agrees bound 1 0 x x') (hy : i.Signals bound slack y y') :
    i.Signals bound slack (eatKind kind >>= fun b => if b = true then x else y)
      (eatKind kind >>= fun b => if b = true then x' else y') := by
  refine .fork (fun b hb => ?_) fun b hb => ?_
  · obtain rfl : b = true := hb
    exact hx
  · obtain rfl : b = false := hb
    exact hy

/-- A token is taken unless it is not there. -/
theorem Agrees.eatNot {kind : TokenKind} {x x' y y' : Parse β} (hm : m ≤ 1)
    (hx : i.Agrees bound 1 0 x x') (hy : i.Agrees bound slack m y y') :
    i.Agrees bound slack m (eatKind kind >>= fun b => if (!b) = true then y else x)
      (eatKind kind >>= fun b => if (!b) = true then y' else x') := by
  refine .fork hm (fun b hb => ?_) fun b hb => ?_
  · obtain rfl : b = true := hb
    exact hx
  · obtain rfl : b = false := hb
    exact hy

/-- A token is taken unless it is not there. -/
theorem Signals.eatNot [Signal β] {kind : TokenKind} {x x' y y' : Parse β}
    (hx : i.Agrees bound 1 0 x x') (hy : i.Signals bound slack y y') :
    i.Signals bound slack (eatKind kind >>= fun b => if (!b) = true then y else x)
      (eatKind kind >>= fun b => if (!b) = true then y' else x') := by
  refine .fork (fun b hb => ?_) fun b hb => ?_
  · obtain rfl : b = true := hb
    exact hx
  · obtain rfl : b = false := hb
    exact hy

/-- A token that has to be there. -/
theorem Agrees.expectKind {kind : TokenKind} : i.Agrees bound slack 1
    (do if !(← eatKind kind) then unexpected : Parse Unit)
    (do if !(← eatKind kind) then unexpected) :=
  .eatNot (Nat.le_refl 1) inferInstance inferInstance

instance (x : Punctuator) : i.Agrees bound slack 1 (expect x) (expect x) := .expectKind

instance (x : Keyword) : i.Agrees bound slack 1 (expectKeyword x) (expectKeyword x) := .expectKind

/-- By induction on the turns of the first run: each of them takes a token before the next one, so
there are enough turns in the second run. -/
theorem Agrees.loop {turn turn' : α → Parse (Turn α β)}
    (h : ∀ a, i.Signals bound slack (turn a) (turn' a)) {fuel : Nat} {a : α} :
    i.Agrees bound slack 0 (Parse.loop turn fuel a) (Parse.loop turn' bound a) := by
  have hmoves (fuel : Nat) (a : α) : (Parse.loop turn fuel a).Moves 0 0 :=
    .loop fun a => (h a).moves
  refine ⟨hmoves fuel a, fun c s t hc hjoined hlt => ?_⟩
  suffices hturns : ∀ fuel' ≤ bound, t.tokens.remaining + slack < fuel' →
      i.Leads (fun _ => 0) (Parse.loop turn fuel a) (Parse.loop turn' fuel' a) c s t from
    hturns bound (Nat.le_refl _) hlt
  clear hlt
  intro fuel' hbound hlt
  induction fuel generalizing s t a fuel' with
  | zero => exact Yields.fail (p := throw _)
  | succ fuel ih =>
    obtain ⟨fuel', rfl⟩ := Nat.exists_eq_add_one_of_ne_zero (Nat.ne_zero_of_lt hlt)
    refine Leads.bind ((h a).leads c s t hc hjoined (by omega)) (fun r => ?_)
      fun r s' t' htaken hjoined' => ?_
    · cases r with
      | again a => exact hmoves fuel a
      | done b => exact inferInstanceAs ((pure b : Parse β).Moves 0 0)
    · have hremaining := hjoined.remaining_eq hjoined'
      cases r with
      | again a =>
        have htaken : s'.tokens.remaining + 1 ≤ s.tokens.remaining := htaken
        exact (ih s' t' hjoined' fuel' (by omega) (by omega)).mono fun _ => Nat.zero_le _
      | done b => exact Yields.pure (.inr ⟨Nat.le_refl _, t', rfl, hjoined'⟩)

/-! ### Changes of the state -/

instance (names : List String) :
    i.Agrees bound slack 0 (modify fun s => { s with declared := names } : Parse PUnit)
      (modify fun s => { s with declared := names }) := by
  refine ⟨inferInstance, fun c s t hc hjoined hlt a s' heq => ?_⟩
  cases heq
  exact .inr ⟨Nat.le_refl _, _, rfl, hjoined.tokens, hjoined.previousEnd, hjoined.references, rfl⟩

instance (name : String) : i.Agrees bound slack 0 (declareVar name) (declareVar name) := by
  refine ⟨inferInstance, fun c s t hc hjoined hlt a s' heq => ?_⟩
  cases heq
  exact .inr ⟨Nat.le_refl _, _, rfl, hjoined.tokens, hjoined.previousEnd, hjoined.references,
    congrArg (addName · name) hjoined.declared⟩

/-- The same private names are in use in both runs, at places that do not matter. -/
theorem Agrees.references {r r' : List (String × Location)}
    (h : r'.map Prod.fst = r.map Prod.fst) :
    i.Agrees bound slack 0 (modify fun s => { s with references := r } : Parse PUnit)
      (modify fun s => { s with references := r' }) := by
  refine ⟨inferInstance, fun c s t hc hjoined hlt a s' heq => ?_⟩
  cases heq
  exact .inr ⟨Nat.le_refl _, _, rfl, hjoined.tokens, hjoined.previousEnd, h, hjoined.declared⟩

theorem Agrees.get {f k : ParseState → Parse β}
    (h : ∀ s t, t.references.map Prod.fst = s.references.map Prod.fst →
      i.Agrees bound slack m (f s) (k t)) :
    i.Agrees bound slack m (get >>= f) (get >>= k) :=
  ⟨⟨fun c s => (h s s rfl).moves.yields c s⟩,
    fun c s t hc hjoined hlt => (h s t hjoined.references).leads c s t hc hjoined hlt⟩

instance : i.Agrees bound slack 0 omitSemicolon omitSemicolon := by
  refine ⟨inferInstance, fun c s t hc hjoined hlt a s' heq => ?_⟩
  cases heq
  exact .inr ⟨Nat.le_refl _, _, rfl, hjoined.tokens, hjoined.previousEnd, hjoined.references,
    hjoined.declared⟩

instance : i.Agrees bound slack 0 semicolon semicolon := by unfold semicolon; infer_instance

/-- The text between two places of a stretch. -/
theorem Marks.slice_eq {start start' stop stop' : Nat} (h : i.Marks start start')
    (hstop : i.Marks stop stop') :
    slice start' stop' 0 i.source' = slice start stop 0 i.source := by
  obtain ⟨n, -, rfl, rfl⟩ := h.exists_offset
  obtain ⟨m, hm, rfl, rfl⟩ := hstop.exists_offset
  rw [source, source', slice_within _ _ _ hm, slice_within _ _ _ hm]

/-- The source text from a place in the stretch on is the same. -/
instance {start start' : Nat} [h : i.Marks start start'] :
    i.Agrees bound slack 0 (sourceSince start) (sourceSince start') := by
  refine ⟨inferInstance, fun c s t hc hjoined hlt a s' heq => ?_⟩
  cases heq
  refine .inr ⟨Nat.le_refl _, t, ?_, hjoined⟩
  change Except.ok (String.ofList (slice _ t.tokens.previousEnd 0 i.source'), t) =
    .ok (String.ofList (slice _ s.tokens.previousEnd 0 c.source), t)
  rw [hc, h.slice_eq hjoined.previousEnd]

/-! ### Identifiers, literals and early errors -/

instance {xs : List α} {step step' : α → PUnit → Parse (ForInStep PUnit)}
    [h : ∀ a u, i.Agrees bound slack 0 (step a u) (step' a u)] :
    i.Agrees bound slack 0 (forIn xs PUnit.unit step : Parse PUnit)
      (forIn xs PUnit.unit step') := by
  induction xs with
  | nil => exact inferInstanceAs (i.Agrees bound slack 0 (pure PUnit.unit) (pure PUnit.unit))
  | cons x xs ih =>
    rw [List.forIn_cons, List.forIn_cons]
    refine .step fun r => ?_
    cases r with
    | done u => exact inferInstanceAs (i.Agrees bound slack 0 (pure u) (pure u))
    | yield u => exact ih

section

variable (l l' : Location) (kind : TokenKind) (text : String)

instance : i.Agrees bound slack 0 (checkReference ⟨kind, text, l⟩)
    (checkReference ⟨kind, text, l'⟩) := by
  unfold checkReference; infer_instance

instance (name : String) : i.Agrees bound slack 0 (checkBinding name l) (checkBinding name l') := by
  unfold checkBinding; infer_instance

instance : i.Agrees bound slack 0 (stringValue ⟨kind, text, l⟩) (stringValue ⟨kind, text, l'⟩) := by
  refine .step fun isStrict => ?_
  dsimp only
  split <;> infer_instance

instance : i.Agrees bound slack 0 (numericValue ⟨kind, text, l⟩)
    (numericValue ⟨kind, text, l'⟩) := by
  unfold numericValue; infer_instance

instance (e : Expr) : i.Agrees bound slack 0 (checkTarget e l) (checkTarget e l') := by
  unfold checkTarget
  split <;> infer_instance

instance (first : Bool) (e : Expr) :
    i.Agrees bound slack 0 (checkUpdateTarget first e l) (checkUpdateTarget first e l') := by
  unfold checkUpdateTarget
  split <;> infer_instance

instance (name : String) : i.Agrees bound slack 0 (referPrivate name l) (referPrivate name l') := by
  refine .read fun c => ?_
  dsimp only [around]
  split
  · refine ⟨inferInstance, fun c s t hc hjoined hlt a s' heq => ?_⟩
    cases heq
    refine .inr ⟨Nat.le_refl _, _, rfl, hjoined.tokens, hjoined.previousEnd, ?_, hjoined.declared⟩
    simp only [List.map_append, hjoined.references, List.map_cons, List.map_nil]
  · infer_instance

end

instance (topLevel : Bool) (taken : List String) (body : List Stmt) :
    i.Agrees bound slack 0 (checkDeclarations topLevel taken body)
      (checkDeclarations topLevel taken body) := by
  unfold checkDeclarations
  split <;> infer_instance

instance : i.Agrees bound slack 1 bindingIdentifier bindingIdentifier := by
  refine .peek fun kind text l l' => ?_
  dsimp only
  split
  · exact .later fun _ => .first fun _ => inferInstance
  · exact .later fun _ => .guard (.first fun _ => inferInstance)
  · infer_instance
  · infer_instance
  · infer_instance

end Excerpt

end Ecma
