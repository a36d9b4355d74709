import Ecma.Proofs.Syntax.Blind
import Ecma.Proofs.Syntax.Omission

/-! Two runs of the parser side by side, on tokens without positions: the second run has one more
semicolon among its tokens. Either the runs go on together, or the first one has taken more than the
tokens in front of the semicolon without a pause there. -/

namespace Ecma

namespace Parse

variable {α β : Type} {p q : Parse α} {f : α → Parse β}

/-- A check of what is known already: it does not look at the tokens. -/
class Steady (p : Parse α) : Prop where
  yields : ∀ c s, p.Yields c s fun a s' => s' = s ∧ ∀ t, p c t = .ok (a, t)

instance (priority := low) [p.Fails] : p.Steady :=
  ⟨fun _ _ => .fail⟩

instance (a : α) : (pure a : Parse α).Steady :=
  ⟨fun _ _ => .pure ⟨rfl, fun _ => rfl⟩⟩

instance : (read : Parse Surroundings).Steady :=
  ⟨fun _ _ _ _ heq => by cases heq; exact ⟨rfl, fun _ => rfl⟩⟩

theorem Steady.bind [hp : p.Steady] (hf : ∀ a, (f a).Steady) : (p >>= f).Steady := by
  refine ⟨fun c s => .bind (hp.yields c s) fun a s' h => ?_⟩
  obtain ⟨rfl, heq⟩ := h
  refine ((hf a).yields c s').mono fun b s'' h => ⟨h.1, fun t => ?_⟩
  rw [bind_of_ok (heq t)]
  exact h.2 t

instance [p.Steady] [hf : ∀ a, (f a).Steady] : (p >>= f).Steady :=
  .bind hf

instance {b : Prop} [Decidable b] [p.Steady] [q.Steady] : (if b then p else q).Steady := by
  split <;> infer_instance

theorem Steady.guard {b : Prop} [Decidable b] {q : Parse β} [p.Fails] (hq : q.Steady) :
    (if b then p >>= f else q).Steady := by
  split <;> infer_instance

instance {φ : Surroundings → Surroundings} [h : p.Steady] : (withReader φ p : Parse α).Steady :=
  ⟨fun c s => h.yields (φ c) s⟩

instance {xs : List α} {step : α → PUnit → Parse (ForInStep PUnit)}
    [h : ∀ a u, (step a u).Steady] : (forIn xs PUnit.unit step : Parse PUnit).Steady := by
  induction xs with
  | nil => exact inferInstanceAs (pure PUnit.unit : Parse PUnit).Steady
  | cons x xs ih =>
    rw [List.forIn_cons]
    refine .bind fun r => ?_
    cases r with
    | done u => exact inferInstanceAs (pure u : Parse PUnit).Steady
    | yield u => exact ih

instance : strict.Steady := by unfold strict; infer_instance

instance (t : Token) : (checkReference t).Steady := by unfold checkReference; infer_instance

instance (name : String) (l : Location) : (checkBinding name l).Steady := by
  unfold checkBinding; infer_instance

instance (t : Token) : (stringValue t).Steady := by
  refine .bind fun b => ?_
  split <;> infer_instance

instance (t : Token) : (numericValue t).Steady := by unfold numericValue; infer_instance

instance (topLevel : Bool) (taken : List String) (body : List Stmt) :
    (checkDeclarations topLevel taken body).Steady := by
  unfold checkDeclarations
  split <;> infer_instance

instance (e : Expr) (l : Location) : (checkTarget e l).Steady := by
  unfold checkTarget
  split <;> infer_instance

instance (first : Bool) (e : Expr) (l : Location) : (checkUpdateTarget first e l).Steady := by
  unfold checkUpdateTarget
  split <;> infer_instance

end Parse

/-- A semicolon and the tokens that it is put in front of, all of them without positions. -/
structure Insertion where
  stop : Token
  rest : List Token
  kind_stop : stop.kind = .punctuator .semicolon
  bare : ∀ t ∈ stop :: rest, t.location = default

namespace Insertion

variable (i : Insertion)

/-- The number of tokens behind the semicolon. -/
def left : Nat :=
  i.rest.countP Token.isSignificant

/-- The tokens of the two runs, where the semicolon is not the next one. -/
inductive Near : List Token → List Token → Prop
  | ahead (tokens : List Token) {t : Token} (ht : t.isSignificant = true) :
    Near (tokens ++ t :: i.rest) (tokens ++ t :: i.stop :: i.rest)
  | behind (tokens : List Token) : Near tokens tokens

/-- The tokens of the two runs. -/
inductive Place : List Token → List Token → Prop
  | near {l l' : List Token} (h : i.Near l l') : Place l l'
  | here : Place i.rest (i.stop :: i.rest)

/-- The two runs have come to the same point, and the first one has not left out a semicolon at the
insertion if that is still to come. -/
structure Joined (s t : ParseState) : Prop where
  place : i.Place s.tokens.rest t.tokens.rest
  bare : ∀ u ∈ t.tokens.rest, u.location = default
  finish : s.tokens.finish = default ∧ t.tokens.finish = default
  references : t.references = s.references
  declared : t.declared = s.declared
  fresh : s.tokens.rest = t.tokens.rest ∨ ∀ o ∈ s.omitted, o.remaining ≠ i.left

/-- The semicolon is the next token of the second run. -/
structure Here (s t : ParseState) : Prop where
  first : s.tokens.rest = i.rest
  second : t.tokens.rest = i.stop :: i.rest

/-- The first run has come `taken` tokens behind the insertion or further, and has not left out a
semicolon there. -/
structure Passed (taken : Nat) (s : ParseState) : Prop where
  remaining : s.tokens.remaining + taken ≤ i.left
  omitted : ∀ o ∈ s.omitted, o.remaining ≠ i.left

/-- From two states, either the first run passes the insertion, or both have the same result and
stay together. -/
def Leads {α : Type} (taken : Nat) (p q : Parse α) (c : Surroundings) (s t : ParseState) : Prop :=
  p.Yields c s fun a s' =>
    i.Passed taken s' ∨ ∃ t', q c t = .ok (a, t') ∧ i.Joined s' t'

variable {i} {s s' t : ParseState} {d e m n : Nat}

/-! ### Places -/

/-- The runs see the same next token. -/
theorem Near.first {l l' : List Token} (h : i.Near l l') :
    (TokenStream.firstSignificant l = none ∧ TokenStream.firstSignificant l' = none) ∨
      ∃ t r r', TokenStream.firstSignificant l = some (t, r) ∧
        TokenStream.firstSignificant l' = some (t, r') ∧ i.Place r r' := by
  cases h with
  | behind =>
    cases hfirst : TokenStream.firstSignificant l with
    | none => exact .inl ⟨rfl, rfl⟩
    | some next => exact .inr ⟨next.1, next.2, next.2, rfl, rfl, .near (.behind _)⟩
  | @ahead tokens t ht =>
    refine .inr ?_
    induction tokens with
    | nil =>
      exact ⟨t, i.rest, i.stop :: i.rest, by simp [TokenStream.firstSignificant, ht],
        by simp [TokenStream.firstSignificant, ht], .here⟩
    | cons u tokens ih =>
      cases hu : u.isSignificant with
      | true =>
        exact ⟨u, _, _, by simp [TokenStream.firstSignificant, hu],
          by simp [TokenStream.firstSignificant, hu], .near (.ahead tokens ht)⟩
      | false =>
        obtain ⟨t', r, r', h, h', hplace⟩ := ih
        exact ⟨t', r, r', by simpa [TokenStream.firstSignificant, hu] using h,
          by simpa [TokenStream.firstSignificant, hu] using h', hplace⟩

theorem Near.remaining {l l' : List Token} (h : i.Near l l') :
    l = l' ∨ i.left < l.countP Token.isSignificant := by
  cases h with
  | ahead tokens ht =>
    refine .inr ?_
    rw [List.countP_append, List.countP_cons_of_pos ht, left]
    omega
  | behind => exact .inl rfl

theorem Place.subset {l l' : List Token} (h : i.Place l l') : l ⊆ l' := by
  cases h with
  | near h =>
    cases h with
    | ahead tokens ht => exact fun u hu => by simp at hu ⊢; tauto
    | behind => exact List.Subset.refl _
  | here => exact List.subset_cons_self _ _

theorem isSignificant_stop (i : Insertion) : i.stop.isSignificant = true := by
  simp [Token.isSignificant, i.kind_stop]

theorem Passed.later (h : i.Passed e s) (hmoves : s.Moves m n s') (hd : d ≤ e + m)
    (he : 0 < e + n) : i.Passed d s' := by
  have htaken := hmoves.remaining
  have hleft := h.remaining
  refine ⟨by omega, fun o ho => ?_⟩
  rcases hmoves.omitted o ho with ho | ⟨-, ho⟩
  · exact h.omitted o ho
  · omega

namespace Joined

theorem cases (h : i.Joined s t) : i.Near s.tokens.rest t.tokens.rest ∨ i.Here s t := by
  have hplace := h.place
  generalize hs : s.tokens.rest = l, ht : t.tokens.rest = l' at hplace
  cases hplace with
  | near h => exact .inl h
  | here => exact .inr ⟨hs, ht⟩

/-- In front of the semicolon the first run is as good as behind the insertion. -/
theorem passed (h : i.Joined s t) (hhere : i.Here s t) : i.Passed 0 s := by
  refine ⟨?_, h.fresh.resolve_left fun heq => ?_⟩
  · rw [TokenStream.remaining, hhere.first]
    exact Nat.le_refl _
  · rw [hhere.first, hhere.second] at heq
    exact absurd (congrArg List.length heq) (by simp)

/-- Both runs take the same token. -/
theorem next? (h : i.Joined s t) (hnear : i.Near s.tokens.rest t.tokens.rest) :
    (s.tokens.next? = none ∧ t.tokens.next? = none) ∨
      ∃ u tokens tokens', s.tokens.next? = some (u, tokens) ∧ t.tokens.next? = some (u, tokens') ∧
        i.Joined { s with tokens } { t with tokens := tokens' } := by
  rcases hnear.first with ⟨hs, ht⟩ | ⟨u, r, r', hs, ht, hplace⟩
  · exact .inl (by simp only [TokenStream.next?, hs, ht, Option.map_none, and_self])
  · refine .inr ⟨u, _, _, by rw [TokenStream.next?, hs]; rfl, by rw [TokenStream.next?, ht]; rfl, ?_⟩
    obtain ⟨-, skipped, hrest⟩ := TokenStream.firstSignificant_split ht
    refine ⟨hplace, fun u hu => h.bare u ?_, h.finish, h.references, h.declared, ?_⟩
    · rw [hrest]
      exact List.mem_append_right _ (List.mem_cons_of_mem _ hu)
    · refine h.fresh.imp_left fun heq => ?_
      rw [heq, ht] at hs
      cases hs
      rfl

theorem location (h : i.Joined s t) :
    s.tokens.location = default ∧ t.tokens.location = default := by
  have hlocation {tokens : TokenStream} (hbare : ∀ u ∈ tokens.rest, u.location = default)
      (hfinish : tokens.finish = default) : tokens.location = default := by
    rw [TokenStream.location, TokenStream.peek?]
    cases hfirst : TokenStream.firstSignificant tokens.rest with
    | none => exact hfinish
    | some next =>
      obtain ⟨-, skipped, hrest⟩ := TokenStream.firstSignificant_split hfirst
      exact hbare next.1 (by simp [hrest])
  exact ⟨hlocation (fun u hu => h.bare u (h.place.subset hu)) h.finish.1,
    hlocation h.bare h.finish.2⟩

end Joined

theorem Here.peekKind? (h : i.Here s t) :
    t.tokens.peekKind? = some (.punctuator .semicolon) := by
  rw [TokenStream.peekKind?, TokenStream.peek?, h.second, TokenStream.firstSignificant,
    if_pos i.isSignificant_stop, Option.map_some, Option.map_some, i.kind_stop]

theorem Here.atKind (h : i.Here s t) {kind : TokenKind} (hkind : kind ≠ .punctuator .semicolon)
    (c : Surroundings) : Parse.atKind kind c t = .ok (false, t) := by
  change Except.ok (t.tokens.peekKind? == some kind, t) = _
  rw [h.peekKind?, beq_eq_false_iff_ne.mpr fun heq => hkind (Option.some.inj heq).symm]

theorem Here.lineTerminatorBefore (h : i.Here s t) (c : Surroundings) :
    Parse.lineTerminatorBefore c t = .ok (false, t) := by
  change Except.ok (t.tokens.lineTerminatorBefore, t) = _
  simp only [TokenStream.lineTerminatorBefore, h.second, i.kind_stop]
  rfl

theorem Near.peek? (h : i.Near s.tokens.rest t.tokens.rest) :
    t.tokens.peek? = s.tokens.peek? := by
  rcases h.first with ⟨hs, ht⟩ | ⟨_, _, _, hs, ht, -⟩ <;>
    simp only [TokenStream.peek?, hs, ht, Option.map_none, Option.map_some]

theorem Near.lineTerminatorBefore (h : i.Near s.tokens.rest t.tokens.rest) :
    t.tokens.lineTerminatorBefore = s.tokens.lineTerminatorBefore := by
  rw [TokenStream.lineTerminatorBefore, TokenStream.lineTerminatorBefore]
  generalize s.tokens.rest = l, t.tokens.rest = l' at h
  cases h with
  | ahead tokens ht => cases tokens <;> rfl
  | behind => rfl

/-! ### Steps -/

variable {α β : Type} {p q : Parse α} {f k : α → Parse β} {c : Surroundings}

/-- If the first run passes the insertion in the first step, the second one must not lead back. -/
theorem Leads.bind (h : i.Leads e p q c s t)
    (hlater : ∀ a s', i.Passed e s' → (f a).Yields c s' fun _ s'' => i.Passed d s'')
    (hf : ∀ a s' t', i.Joined s' t' → i.Leads d (f a) (k a) c s' t') :
    i.Leads d (p >>= f) (q >>= k) c s t := by
  refine Parse.Yields.bind h fun a s' h' => ?_
  rcases h' with hpassed | ⟨t', heq, hjoined⟩
  · exact (hlater a s' hpassed).mono fun _ _ h => .inl h
  · exact (hf a s' t' hjoined).mono fun b s'' h => by rwa [Parse.bind_of_ok heq]

/-- After a question that both runs give the same answer to. -/
theorem Leads.ask (h : p.Yields c s fun a s' => s' = s ∧ p c t = .ok (a, t))
    (hf : ∀ a, i.Leads d (f a) (k a) c s t) : i.Leads d (p >>= f) (p >>= k) c s t := by
  refine Parse.Yields.bind h fun a s' h' => ?_
  obtain ⟨rfl, heq⟩ := h'
  exact (hf a).mono fun b s'' h => by rwa [Parse.bind_of_ok heq]

theorem Leads.weaken (h : i.Leads e p q c s t) (hd : d ≤ e) : i.Leads d p q c s t :=
  Parse.Yields.mono h fun _ _ h => h.imp_left fun h => ⟨by have := h.remaining; omega, h.omitted⟩

/-- A production that takes a token in front of the semicolon is past it then. -/
theorem Joined.leads_here (hjoined : i.Joined s t) (hhere : i.Here s t)
    (h : p.Yields c s fun _ s' => s.Moves m n s') (hd : d ≤ m) (hn : 0 < n) :
    i.Leads d p q c s t :=
  h.mono fun _ _ h => .inl ((hjoined.passed hhere).later h (by omega) (by omega))

variable (i)

/-- A production of the first run and the same one of the second run. It takes `m` tokens and leaves
no semicolon out before it has taken `n`; and from every common point of the two runs, either the first
one comes `d` tokens behind the insertion, or both have the same result and stay together. -/
class Agrees (m n d : Nat) (p q : Parse α) : Prop where
  moves : p.Moves m n
  leads : ∀ c s t, c.source = [] → i.Joined s t → i.Leads d p q c s t

/-- The two runs end in front of the semicolon together, if at all. -/
abbrev Free (p q : Parse α) : Prop :=
  i.Agrees 0 0 1 p q

/-- The first run may end in front of the semicolon alone, and has not left it out then. -/
abbrev Firm (p q : Parse α) : Prop :=
  i.Agrees 0 1 0 p q

/-- A production that begins with a token of its own. -/
abbrev First (p q : Parse α) : Prop :=
  i.Agrees 1 1 1 p q

/-- The same from states with a next token, which the runs have in common. -/
class AgreesNext (m n d : Nat) (p q : Parse α) : Prop where
  moves : ∀ c {s u rest}, s.tokens.significant = u :: rest →
    p.Yields c s fun _ s' => s.Moves m n s'
  leads : ∀ c s t {u rest}, c.source = [] → i.Joined s t → i.Near s.tokens.rest t.tokens.rest →
    s.tokens.significant = u :: rest → i.Leads d p q c s t

/-- Both runs get the same answer, and take no token for it. -/
class Shares (p : Parse α) : Prop where
  unmoved : ∀ c s, p.Yields c s fun _ s' => s' = s
  yields : ∀ c s t, c.source = [] → i.Joined s t → p.Yields c s fun a _ => p c t = .ok (a, t)

/-- The same where the semicolon is not the next token. -/
class SharesNear (p : Parse α) : Prop where
  unmoved : ∀ c s, p.Yields c s fun _ s' => s' = s
  yields : ∀ c s t, c.source = [] → i.Joined s t → i.Near s.tokens.rest t.tokens.rest →
    p.Yields c s fun a _ => p c t = .ok (a, t)

variable {i} {m' n' d' : Nat}

theorem Agrees.weaken (h : i.Agrees m n d p q) (hm : m' ≤ m) (hn : n' ≤ n) (hd : d' ≤ d) :
    i.Agrees m' n' d' p q :=
  ⟨h.moves.mono hm hn, fun c s t hc hjoined => (h.leads c s t hc hjoined).weaken hd⟩

theorem Agrees.ofFirst (h : i.First p q) : i.Free p q :=
  h.weaken (Nat.zero_le _) (Nat.zero_le _) (Nat.le_refl _)

instance (priority := low) [h : i.First p q] : i.Free p q :=
  h.ofFirst

instance (priority := low) [h : i.First p q] : i.Firm p q :=
  h.weaken (Nat.zero_le _) (Nat.le_refl _) (Nat.zero_le _)

instance (priority := low) [p.Fails] : i.Agrees m n d p q :=
  ⟨inferInstance, fun _ _ _ _ _ => Parse.Yields.fail⟩

/-- A production that is looked at from states with a next token. -/
instance (priority := low) [h : i.Agrees m n d p q] : i.AgreesNext m n d p q :=
  ⟨fun c s _ _ _ => h.moves.yields c s, fun c s t _ _ hc hjoined _ _ => h.leads c s t hc hjoined⟩

theorem AgreesNext.weaken (h : i.AgreesNext m n d p q) (hm : m' ≤ m) (hn : n' ≤ n) (hd : d' ≤ d) :
    i.AgreesNext m' n' d' p q :=
  ⟨fun c _ _ _ hnext => (h.moves c hnext).mono fun _ _ h => h.mono hm hn,
    fun c s t _ _ hc hjoined hnear hnext => (h.leads c s t hc hjoined hnear hnext).weaken hd⟩

/-- In front of the semicolon it is enough that a token is taken before one is left out. -/
theorem Agrees.ofNear (hmoves : p.Moves m n)
    (h : ∀ c s t, c.source = [] → i.Joined s t → i.Near s.tokens.rest t.tokens.rest →
      i.Leads d p q c s t) (hn : 0 < n) (hd : d ≤ m) : i.Agrees m n d p q := by
  refine ⟨hmoves, fun c s t hc hjoined => ?_⟩
  rcases hjoined.cases with hnear | hhere
  · exact h c s t hc hjoined hnear
  · exact hjoined.leads_here hhere (hmoves.yields c s) hd hn

/-! ### Questions -/

instance (priority := low) [h : p.Steady] : i.Shares p :=
  ⟨fun c s => (h.yields c s).mono fun _ _ h => h.1,
    fun c s t _ _ => (h.yields c s).mono fun _ _ h => h.2 t⟩

instance (priority := low) [h : i.Shares p] : i.SharesNear p :=
  ⟨h.unmoved, fun c s t hc hjoined _ => h.yields c s t hc hjoined⟩

/-- The answer is known, so the state is. -/
theorem moves_of_unmoved (h : ∀ c s, p.Yields c s fun _ s' => s' = s) : p.Moves 0 n :=
  ⟨fun c s => (h c s).mono fun _ _ h => h ▸ .refl n s⟩

instance (priority := low) [h : i.Shares p] : i.Agrees 0 n d p p :=
  ⟨moves_of_unmoved h.unmoved, fun c s t hc hjoined =>
    ((h.unmoved c s).and (h.yields c s t hc hjoined)).mono fun _ _ h' =>
      .inr ⟨t, h'.2, h'.1 ▸ hjoined⟩⟩

instance (priority := low) [h : i.SharesNear p] : i.Firm p p := by
  refine .ofNear (moves_of_unmoved h.unmoved) (fun c s t hc hjoined hnear => ?_) Nat.one_pos
    (Nat.le_refl _)
  exact ((h.unmoved c s).and (h.yields c s t hc hjoined hnear)).mono fun _ _ h' =>
    .inr ⟨t, h'.2, h'.1 ▸ hjoined⟩

theorem Shares.bind [hp : i.Shares p] (hf : ∀ a, i.Shares (f a)) : i.Shares (p >>= f) := by
  refine ⟨fun c s => .bind (hp.unmoved c s) fun a s' h => h ▸ (hf a).unmoved c s', ?_⟩
  intro c s t hc hjoined
  refine .bind ((hp.unmoved c s).and (hp.yields c s t hc hjoined)) fun a s' h => ?_
  obtain ⟨rfl, heq⟩ := h
  exact ((hf a).yields c s' t hc hjoined).mono fun b s'' h => by rwa [Parse.bind_of_ok heq]

theorem SharesNear.bind [hp : i.SharesNear p] (hf : ∀ a, i.SharesNear (f a)) :
    i.SharesNear (p >>= f) := by
  refine ⟨fun c s => .bind (hp.unmoved c s) fun a s' h => h ▸ (hf a).unmoved c s', ?_⟩
  intro c s t hc hjoined hnear
  refine .bind ((hp.unmoved c s).and (hp.yields c s t hc hjoined hnear)) fun a s' h => ?_
  obtain ⟨rfl, heq⟩ := h
  exact ((hf a).yields c s' t hc hjoined hnear).mono fun b s'' h => by rwa [Parse.bind_of_ok heq]

instance [i.Shares p] [hf : ∀ a, i.Shares (f a)] : i.Shares (p >>= f) :=
  .bind hf

instance [i.SharesNear p] [hf : ∀ a, i.SharesNear (f a)] : i.SharesNear (p >>= f) :=
  .bind hf

/-! ### One step after another -/

theorem Leads.step (h : i.Leads d p q c s t) (hc : c.source = [])
    (hf : ∀ a, i.Agrees m' n' d' (f a) (k a)) (hn : 0 < d + n') (he : e ≤ d + m') (he' : e ≤ d') :
    i.Leads e (p >>= f) (q >>= k) c s t :=
  h.bind (fun a s' h => ((hf a).moves.yields c s').mono fun _ _ h' => h.later h' he hn)
    fun a s' t' hjoined => ((hf a).leads c s' t' hc hjoined).weaken he'

theorem Agrees.bind {m'' n'' d'' : Nat} (h : i.Agrees m n d p q)
    (hf : ∀ a, i.Agrees m' n' d' (f a) (k a)) (hn : 0 < d + n')
    (hsum : m'' ≤ m + m' ∧ n'' ≤ n ∧ n'' ≤ m + n' ∧ d'' ≤ d + m' ∧ d'' ≤ d') :
    i.Agrees m'' n'' d'' (p >>= f) (q >>= k) :=
  ⟨(h.moves.bind fun a => (hf a).moves).mono hsum.1 (by omega), fun c s t hc hjoined =>
    (h.leads c s t hc hjoined).step hc hf hn hsum.2.2.2.1 hsum.2.2.2.2⟩

theorem Agrees.free [hp : i.Free p q] (hf : ∀ a, i.Free (f a) (k a)) : i.Free (p >>= f) (q >>= k) :=
  hp.bind hf (by omega) (by omega)

theorem Agrees.firm [hp : i.Firm p q] (hf : ∀ a, i.Firm (f a) (k a)) : i.Firm (p >>= f) (q >>= k) :=
  hp.bind hf (by omega) (by omega)

/-- The first token is taken by the first step. -/
theorem Agrees.first [hp : i.First p q] (hf : ∀ a, i.Free (f a) (k a)) :
    i.First (p >>= f) (q >>= k) :=
  hp.bind hf (by omega) (by omega)

/-- The first token is taken by a later step. -/
theorem Agrees.later [hp : i.Firm p q] (hf : ∀ a, i.First (f a) (k a)) :
    i.First (p >>= f) (q >>= k) :=
  hp.bind hf (by omega) (by omega)

instance [i.Free p q] [hf : ∀ a, i.Free (f a) (k a)] : i.Free (p >>= f) (q >>= k) :=
  .free hf

instance [i.Firm p q] [hf : ∀ a, i.Firm (f a) (k a)] : i.Firm (p >>= f) (q >>= k) :=
  .firm hf

instance [i.Firm p q] [hf : ∀ a, i.First (f a) (k a)] : i.First (p >>= f) (q >>= k) :=
  .later hf

instance [i.First p q] [hf : ∀ a, i.Free (f a) (k a)] : i.First (p >>= f) (q >>= k) :=
  .first hf

section

variable {b : Prop} [Decidable b] {p' q' : Parse α}

instance [i.Shares p] [i.Shares p'] : i.Shares (if b then p else p') := by
  split <;> infer_instance

instance [i.SharesNear p] [i.SharesNear p'] : i.SharesNear (if b then p else p') := by
  split <;> infer_instance

instance [i.Agrees m n d p q] [i.Agrees m n d p' q'] :
    i.Agrees m n d (if b then p else p') (if b then q else q') := by
  split <;> infer_instance

/-- A check that rejects the text, or passes. -/
theorem Agrees.guard {y y' : Parse β} [p.Fails] (h : i.Agrees m n d y y') :
    i.Agrees m n d (if b then p >>= f else y) (if b then q >>= k else y') := by
  split <;> infer_instance

/-- A step that is left out in some cases. -/
theorem Agrees.optional {p q : Parse Unit} {f k : Unit → Parse β} [i.Firm p q]
    (hf : ∀ u, i.Firm (f u) (k u)) :
    i.Firm (if b then p >>= f else f ()) (if b then q >>= k else k ()) := by
  split
  · exact .firm hf
  · exact hf ()

end

instance {g : α → β} [h : i.Agrees m n d p q] : i.Agrees m n d (g <$> p) (g <$> q) := by
  have := h.moves
  refine ⟨inferInstance, fun c s t hc hjoined => ?_⟩
  rw [map_eq_pure_bind, map_eq_pure_bind]
  exact .bind (h.leads c s t hc hjoined) (fun a s' h => .pure h)
    fun a s' t' hjoined => .pure (.inr ⟨t', rfl, hjoined⟩)

theorem Agrees.within {φ : Surroundings → Surroundings} (h : i.Agrees m n d p q)
    (hφ : ∀ c, c.source = [] → (φ c).source = []) :
    i.Agrees m n d (withReader φ p) (withReader φ q) := by
  have := h.moves
  exact ⟨inferInstance, fun c s t hc => h.leads (φ c) s t (hφ c hc)⟩

instance [h : i.Agrees m n d p q] : i.Agrees m n d p.allowIn q.allowIn :=
  h.within fun _ h => h

/-! ### What is read off the state -/

instance : i.Shares Parse.location := by
  refine ⟨fun _ _ => .unmoved, fun c s t _ hjoined a s' heq => ?_⟩
  cases heq
  refine congrArg (fun l => Except.ok (l, t)) ?_
  rw [hjoined.location.1, hjoined.location.2]

instance : i.Shares Parse.varNames := by
  refine ⟨fun _ _ => .unmoved, fun c s t _ hjoined a s' heq => ?_⟩
  cases heq
  exact congrArg (fun names => Except.ok (names, t)) hjoined.declared

/-- There is no source text to take a part of. -/
instance (start : Nat) : i.Shares (Parse.sourceSince start) := by
  refine ⟨fun _ _ => .unmoved, fun c s t hc _ a s' heq => ?_⟩
  cases heq
  change Except.ok (String.ofList (Parse.slice start t.tokens.previousEnd 0 c.source), t) =
    Except.ok (String.ofList (Parse.slice start s.tokens.previousEnd 0 c.source), t)
  rw [hc, Parse.slice, Parse.slice]

/-- What is read off the next token. -/
theorem SharesNear.ofNext {g : ParseState → α}
    (h : ∀ {s t : ParseState}, t.tokens.peek? = s.tokens.peek? → g t = g s) :
    i.SharesNear (do return g (← get)) := by
  refine ⟨fun _ _ => .unmoved, fun c s t _ _ hnear a s' heq => ?_⟩
  cases heq
  exact congrArg (fun a => Except.ok (a, t)) (h hnear.peek?)

theorem peekKind?_congr {s t : ParseState} (h : t.tokens.peek? = s.tokens.peek?) :
    t.tokens.peekKind? = s.tokens.peekKind? :=
  congrArg (Option.map Token.kind) h

instance : i.SharesNear Parse.peek? := .ofNext id

instance : i.SharesNear Parse.peekKind? := .ofNext peekKind?_congr

instance : i.SharesNear Parse.atEnd := .ofNext fun h => congrArg Option.isNone h

instance (kind : TokenKind) : i.SharesNear (Parse.atKind kind) :=
  .ofNext fun h => congrArg (· == some kind) (peekKind?_congr h)

instance (q : Punctuator) : i.SharesNear (Parse.atPunct q) := by
  unfold Parse.atPunct; infer_instance

instance (k : Keyword) : i.SharesNear (Parse.atKeyword k) := by
  unfold Parse.atKeyword; infer_instance

instance (word : String) : i.SharesNear (Parse.atWord word) := by
  refine .bind fun u => ?_
  cases u <;> infer_instance

instance : i.SharesNear Parse.lineTerminatorBefore := by
  refine ⟨fun _ _ => .unmoved, fun c s t _ _ hnear a s' heq => ?_⟩
  cases heq
  exact congrArg (fun b => Except.ok (b, t)) hnear.lineTerminatorBefore

/-! ### The next token -/

theorem skip_eq (c : Surroundings) (s : ParseState) :
    Parse.skip c s = .ok ((), match s.tokens.next? with
      | some (_, tokens) => { s with tokens }
      | none => s) := by
  change (match s.tokens.next? with
    | some (_, tokens) => modify fun s => { s with tokens }
    | none => pure () : Parse Unit) c s = _
  cases s.tokens.next? <;> rfl

theorem leads_skip (hjoined : i.Joined s t) (hnear : i.Near s.tokens.rest t.tokens.rest) :
    i.Leads d Parse.skip Parse.skip c s t := by
  intro a s' heq
  rw [skip_eq] at heq
  cases heq
  refine .inr ⟨_, skip_eq c t, ?_⟩
  rcases hjoined.next? hnear with ⟨hs, ht⟩ | ⟨_, _, _, hs, ht, hnext⟩
  · rwa [hs, ht]
  · rwa [hs, ht]

instance : i.Firm Parse.skip Parse.skip :=
  .ofNear inferInstance (fun _ _ _ _ hjoined hnear => leads_skip hjoined hnear) Nat.one_pos
    (Nat.le_refl _)

/-- The next token is passed over. -/
theorem AgreesNext.skip {f k : Unit → Parse β} (hf : ∀ u, i.Free (f u) (k u)) :
    i.AgreesNext 1 1 1 (Parse.skip >>= f) (Parse.skip >>= k) :=
  ⟨fun _ _ _ _ hnext => .skip_then (m := 0) (n := 0) (fun u => (hf u).moves) hnext,
    fun _ _ _ _ _ hc hjoined hnear _ =>
      (leads_skip (d := 1) hjoined hnear).step hc hf (by omega) (by omega) (by omega)⟩

instance {f k : Unit → Parse β} [hf : ∀ u, i.Free (f u) (k u)] :
    i.AgreesNext 1 1 1 (Parse.skip >>= f) (Parse.skip >>= k) :=
  .skip hf

/-- The first step begins with the next token. -/
theorem AgreesNext.first [hp : i.AgreesNext 1 1 1 p q] (hf : ∀ a, i.Free (f a) (k a)) :
    i.AgreesNext 1 1 1 (p >>= f) (q >>= k) :=
  ⟨fun c _ _ _ hnext => .bind (hp.moves c hnext) fun a s' h =>
      ((hf a).moves.yields c s').mono fun _ _ h' => (h.trans h').mono (by omega) (by omega),
    fun c s t _ _ hc hjoined hnear hnext =>
      (hp.leads c s t hc hjoined hnear hnext).step hc hf (by omega) (by omega) (by omega)⟩

/-- A question before the next token is taken. -/
theorem AgreesNext.ask [hp : i.SharesNear p] (hf : ∀ a, i.AgreesNext m n d (f a) (k a)) :
    i.AgreesNext m n d (p >>= f) (p >>= k) := by
  refine ⟨fun c s u rest hnext => .bind (hp.unmoved c s) fun a s' h => ?_,
    fun c s t u rest hc hjoined hnear hnext => ?_⟩
  · obtain rfl := h
    exact (hf a).moves c hnext
  · exact .ask ((hp.unmoved c s).and (hp.yields c s t hc hjoined hnear)) fun a =>
      (hf a).leads c s t hc hjoined hnear hnext

instance [i.SharesNear p] [hf : ∀ a, i.AgreesNext m n d (f a) (k a)] :
    i.AgreesNext m n d (p >>= f) (p >>= k) :=
  .ask hf

instance {b : Prop} [Decidable b] {p' q' : Parse α} [i.AgreesNext m n d p q]
    [i.AgreesNext m n d p' q'] :
    i.AgreesNext m n d (if b then p else p') (if b then q else q') := by
  split <;> infer_instance

/-- A question whose answer tells that there is a next token, if it satisfies `P`. -/
theorem Agrees.next {P : α → Prop} [hp : i.SharesNear p]
    (hseen : ∀ {c s}, p.Yields c s fun a _ => P a → ∃ u rest, s.tokens.significant = u :: rest)
    (hnext : ∀ a, P a → i.AgreesNext m n d (f a) (k a))
    (hother : ∀ a, ¬P a → i.Agrees m n d (f a) (k a)) (hn : 0 < n) (hd : d ≤ m) :
    i.Agrees m n d (p >>= f) (p >>= k) := by
  have hmoves : (p >>= f).Moves m n := by
    refine ⟨fun c s => .bind ((hp.unmoved c s).and hseen) fun a s' h => ?_⟩
    obtain ⟨rfl, hsees⟩ := h
    by_cases ha : P a
    · obtain ⟨u, rest, htokens⟩ := hsees ha
      exact (hnext a ha).moves c htokens
    · exact (hother a ha).moves.yields c s'
  refine .ofNear hmoves (fun c s t hc hjoined hnear => ?_) hn hd
  refine Parse.Yields.bind (((hp.unmoved c s).and (hp.yields c s t hc hjoined hnear)).and hseen)
    fun a s' h => ?_
  obtain ⟨⟨rfl, heq⟩, hsees⟩ := h
  suffices hleads : i.Leads d (f a) (k a) c s' t from
    hleads.mono fun b s'' h => by rwa [Parse.bind_of_ok heq]
  by_cases ha : P a
  · obtain ⟨u, rest, htokens⟩ := hsees ha
    exact (hnext a ha).leads c s' t hc hjoined hnear htokens
  · exact (hother a ha).leads c s' t hc hjoined

theorem seen_peek : Parse.peek.Yields c s fun _ _ => ∃ u rest, s.tokens.significant = u :: rest := by
  refine Parse.yields_peek.mono fun u s' h => ⟨u, ?_⟩
  exact List.head?_eq_some_iff.mp (TokenStream.peek?_eq s.tokens ▸ h.2)

theorem seen_peekKind? : Parse.peekKind?.Yields c s fun kind _ =>
    kind.isSome → ∃ u rest, s.tokens.significant = u :: rest := by
  refine Parse.yields_peekKind?.mono fun kind s' h hsome => ?_
  obtain ⟨kind, rfl⟩ := Option.isSome_iff_exists.mp hsome
  obtain ⟨u, rest, hnext, -⟩ := TokenStream.exists_next h.2.symm
  exact ⟨u, rest, hnext⟩

theorem seen_atKind {kind : TokenKind} : (Parse.atKind kind).Yields c s fun b _ =>
    b = true → ∃ u rest, s.tokens.significant = u :: rest := by
  refine Parse.Yields.atKind.mono fun b s' h hb => ?_
  obtain ⟨u, rest, hnext, -⟩ := TokenStream.exists_next (beq_iff_eq.mp (h.2.symm.trans hb))
  exact ⟨u, rest, hnext⟩

theorem seen_nthIs {q : Punctuator} : (Parse.nthIs n q).Yields c s fun b s' =>
    s' = s ∧ (b = true → ∃ u rest, s.tokens.significant = u :: rest) := by
  refine Parse.Yields.nthIs.mono fun b s' h => ⟨h.1, fun hb => ?_⟩
  obtain ⟨u, hu, -⟩ := h.2 hb
  refine List.exists_cons_of_ne_nil fun hnil => ?_
  rw [hnil] at hu
  cases hu

instance : i.SharesNear Parse.peek := by
  refine .bind fun u => ?_
  cases u <;> infer_instance

theorem Agrees.peek {f k : Token → Parse β} (h : ∀ u, i.AgreesNext 1 1 1 (f u) (k u)) :
    i.First (Parse.peek >>= f) (Parse.peek >>= k) :=
  .next (P := fun _ => True) (seen_peek.mono fun _ _ h _ => h) (fun u _ => h u) (by simp)
    (by omega) (by omega)

/-- A look at the next token, where the semicolon has an answer of its own. -/
theorem Agrees.look {P : α → Prop} (answer : α) [hp : i.SharesNear p]
    (hseen : ∀ {c s}, p.Yields c s fun a _ => P a → ∃ u rest, s.tokens.significant = u :: rest)
    (hstop : ∀ c {s t}, i.Here s t → p c t = .ok (answer, t))
    (hnext : ∀ a, P a → i.AgreesNext 1 1 1 (f a) (k a))
    (hother : ∀ a, ¬P a → i.Free (f a) (k a) ∧ i.Free (f a) (k answer)) :
    i.Free (p >>= f) (p >>= k) := by
  have hmoves {c : Surroundings} {s : ParseState} {a : α} (ha : P a)
      (hsees : P a → ∃ u rest, s.tokens.significant = u :: rest) :
      (f a).Yields c s fun _ s' => s.Moves 1 1 s' := by
    obtain ⟨u, rest, htokens⟩ := hsees ha
    exact (hnext a ha).moves c htokens
  refine ⟨⟨fun c s => .bind ((hp.unmoved c s).and hseen) fun a s' h => ?_⟩,
    fun c s t hc hjoined => ?_⟩
  · obtain ⟨rfl, hsees⟩ := h
    by_cases ha : P a
    · exact (hmoves ha hsees).mono fun _ _ h => h.mono (Nat.zero_le _) (Nat.zero_le _)
    · exact (hother a ha).1.moves.yields c s'
  rcases hjoined.cases with hnear | hhere
  · refine Parse.Yields.bind (((hp.unmoved c s).and (hp.yields c s t hc hjoined hnear)).and hseen)
      fun a s' h => ?_
    obtain ⟨⟨rfl, heq⟩, hsees⟩ := h
    suffices hleads : i.Leads 1 (f a) (k a) c s' t from
      hleads.mono fun b s'' h => by rwa [Parse.bind_of_ok heq]
    by_cases ha : P a
    · obtain ⟨u, rest, htokens⟩ := hsees ha
      exact (hnext a ha).leads c s' t hc hjoined hnear htokens
    · exact (hother a ha).1.leads c s' t hc hjoined
  · refine Parse.Yields.bind ((hp.unmoved c s).and hseen) fun a s' h => ?_
    obtain ⟨rfl, hsees⟩ := h
    by_cases ha : P a
    · exact hjoined.leads_here hhere (hmoves ha hsees) (Nat.le_refl _) Nat.one_pos
    · refine ((hother a ha).2.leads c s' t hc hjoined).mono fun b s'' h => ?_
      rwa [Parse.bind_of_ok (hstop c hhere)]

/-- A step that may take no token: at the semicolon the second run has the answer for that. -/
theorem Agrees.tail {a : α} (hmoves : p.Moves 0 0)
    (hnear : ∀ c s t, c.source = [] → i.Joined s t → i.Near s.tokens.rest t.tokens.rest →
      i.Leads 1 p q c s t)
    (hhere : ∀ c s, p.Yields c s fun b s' => (b = a ∧ s' = s) ∨ s.Moves 1 1 s')
    (hstop : ∀ c {s t}, i.Here s t → q c t = .ok (a, t)) : i.Free p q := by
  refine ⟨hmoves, fun c s t hc hjoined => ?_⟩
  rcases hjoined.cases with hat | hhere'
  · exact hnear c s t hc hjoined hat
  · refine (hhere c s).mono fun b s' h => ?_
    rcases h with ⟨rfl, rfl⟩ | h
    · exact .inr ⟨t, hstop c hhere', hjoined⟩
    · exact .inl ((hjoined.passed hhere').later h (by omega) (by omega))

/-- A step for a next token that is no semicolon. -/
theorem Agrees.fork {kind : TokenKind} (hkind : kind ≠ .punctuator .semicolon)
    {p' q' : Parse α} (hp : i.AgreesNext 1 1 1 p q) (hp' : i.Free p' q') :
    i.Free (do if ← Parse.atKind kind then p else p')
      (do if ← Parse.atKind kind then q else q') := by
  refine .look (P := (· = true)) _ seen_atKind (fun c _ _ h => h.atKind hkind c) (fun b hb => ?_)
    fun b hb => ?_
  · simpa only [hb, if_true] using hp
  · simpa only [hb, Bool.false_eq_true, if_false, and_self] using hp'

/-! ### Tokens that have to be there -/

instance (kind : TokenKind) : i.Firm (Parse.eatKind kind) (Parse.eatKind kind) := by
  unfold Parse.eatKind; infer_instance

instance (q : Punctuator) : i.Firm (Parse.eat q) (Parse.eat q) := by
  unfold Parse.eat; infer_instance

/-- A token that is no semicolon. -/
theorem free_eatKind {kind : TokenKind} (h : kind ≠ .punctuator .semicolon) :
    i.Free (Parse.eatKind kind) (Parse.eatKind kind) :=
  .fork h inferInstance inferInstance

theorem free_eat {q : Punctuator} (h : q ≠ .semicolon) : i.Free (Parse.eat q) (Parse.eat q) :=
  free_eatKind fun heq => h (TokenKind.punctuator.inj heq)

instance (k : Keyword) : i.Free (Parse.eatKeyword k) (Parse.eatKeyword k) :=
  free_eatKind (by simp)

instance (k : Keyword) : i.Firm (Parse.eatKeyword k) (Parse.eatKeyword k) := by
  unfold Parse.eatKeyword; infer_instance

/-- Where the token is not taken, the runs go on from where they are. -/
theorem leads_eat {kind : TokenKind} {f k : Bool → Parse β} (hc : c.source = [])
    (hjoined : i.Joined s t) (hnear : i.Near s.tokens.rest t.tokens.rest)
    (htrue : i.Free (f true) (k true)) (hfalse : i.Leads 1 (f false) (k false) c s t) :
    i.Leads 1 (Parse.eatKind kind >>= f) (Parse.eatKind kind >>= k) c s t := by
  have hat : i.SharesNear (Parse.atKind kind) := inferInstance
  unfold Parse.eatKind
  rw [bind_assoc, bind_assoc]
  refine .ask ((hat.unmoved c s).and (hat.yields c s t hc hjoined hnear)) fun b => ?_
  cases b with
  | true =>
    simp only [if_true, bind_assoc, pure_bind]
    exact (leads_skip (d := 1) hjoined hnear).step hc (fun _ => htrue) (by omega) (by omega)
      (by omega)
  | false =>
    simp only [Bool.false_eq_true, if_false, pure_bind]
    exact hfalse

theorem first_expectKind {kind : TokenKind} :
    i.First (do if !(← Parse.eatKind kind) then Parse.unexpected : Parse Unit)
      (do if !(← Parse.eatKind kind) then Parse.unexpected) := by
  refine .ofNear Parse.moves_expectKind (fun c s t hc hjoined hnear => ?_) Nat.one_pos (Nat.le_refl _)
  exact leads_eat hc hjoined hnear (inferInstanceAs (i.Free (pure ()) (pure ())))
    (Parse.Yields.fail (p := Parse.unexpected))

instance (q : Punctuator) : i.First (Parse.expect q) (Parse.expect q) := first_expectKind

instance (k : Keyword) : i.First (Parse.expectKeyword k) (Parse.expectKeyword k) := first_expectKind

instance : i.First Parse.advance Parse.advance := by
  have hadvance (c : Surroundings) (s : ParseState) : Parse.advance c s = match s.tokens.next? with
      | some (u, tokens) => .ok (u, { s with tokens })
      | none => Parse.fail (α := Token) .unexpectedEnd c s := by
    change (match s.tokens.next? with
      | some (u, tokens) => do
        modify fun s => { s with tokens }
        return u
      | none => Parse.fail .unexpectedEnd : Parse Token) c s = _
    cases s.tokens.next? <;> rfl
  refine .ofNear inferInstance (fun c s t _ hjoined hnear => ?_) Nat.one_pos (Nat.le_refl _)
  intro a s' heq
  rw [hadvance] at heq
  rcases hjoined.next? hnear with ⟨hs, -⟩ | ⟨u, tokens, tokens', hs, ht, hnext⟩
  · rw [hs] at heq
    exact absurd heq (Parse.Fails.yields (p := Parse.fail .unexpectedEnd) c s a s')
  · rw [hs] at heq
    cases heq
    exact .inr ⟨{ t with tokens := tokens' }, by rw [hadvance, ht], hnext⟩

instance : i.First Parse.bindingIdentifier Parse.bindingIdentifier := by
  refine .peek fun u => ?_
  split <;> infer_instance

/-! ### Semicolons -/

/-- The first run leaves out no semicolon at the insertion before it has come there. -/
theorem leads_omitSemicolon (hjoined : i.Joined s t) (hnear : i.Near s.tokens.rest t.tokens.rest) :
    i.Leads 1 Parse.omitSemicolon Parse.omitSemicolon c s t := by
  intro a s' heq
  cases heq
  refine .inr ⟨_, rfl, hjoined.place, hjoined.bare, hjoined.finish, hjoined.references,
    hjoined.declared, ?_⟩
  rcases hnear.remaining with heq | hlt
  · exact .inl heq
  · refine hjoined.fresh.imp_right fun h o ho => ?_
    rcases List.mem_cons.mp ho with rfl | ho
    · exact Nat.ne_of_gt hlt
    · exact h o ho

theorem Here.eat (h : i.Here s t) (c : Surroundings) : ∃ tokens : TokenStream,
    Parse.eat .semicolon c t = .ok (true, { t with tokens }) ∧ tokens.rest = i.rest ∧
      tokens.finish = t.tokens.finish := by
  refine ⟨{ t.tokens with rest := i.rest, previousEnd := i.stop.endOffset }, ?_, rfl, rfl⟩
  have hcheck : Parse.atKind (.punctuator .semicolon) c t = .ok (true, t) := by
    change Except.ok (t.tokens.peekKind? == some _, t) = _
    rw [h.peekKind?, beq_self_eq_true]
  rw [Parse.eat, Parse.eatKind, Parse.bind_of_ok hcheck, if_pos rfl,
    Parse.bind_of_ok (skip_eq c t), TokenStream.next?, h.second, TokenStream.firstSignificant,
    if_pos i.isSignificant_stop]
  rfl

/-- In front of the insertion the first run leaves out the semicolon that the second one takes. -/
instance : i.Free Parse.semicolon Parse.semicolon := by
  refine ⟨inferInstance, fun c s t hc hjoined => ?_⟩
  rcases hjoined.cases with hnear | hhere
  · have ask {p : Parse Bool} [h : i.SharesNear p] :
        p.Yields c s fun b s' => s' = s ∧ p c t = .ok (b, t) :=
      (h.unmoved c s).and (h.yields c s t hc hjoined hnear)
    refine leads_eat hc hjoined hnear (inferInstanceAs (i.Free (pure ()) (pure ()))) ?_
    refine .ask ask fun _ => .ask ask fun _ => .ask ask fun _ => ?_
    split
    · exact leads_omitSemicolon hjoined hnear
    · exact Parse.Yields.fail
  · refine Parse.Yields.bind (Parse.yields_eatKind_moves 1) fun b s₁ h₁ => ?_
    obtain ⟨tokens, heat, hrest, hfinish⟩ := hhere.eat c
    cases b with
    | true =>
      exact .pure (.inl ((hjoined.passed hhere).later (h₁.1 rfl) (by omega) (by omega)))
    | false =>
      obtain rfl := h₁.2 rfl
      refine .bind .unmoved fun _ s₂ h₂ => .bind .unmoved fun _ s₃ h₃ => .bind .unmoved fun _ s₄ h₄ => ?_
      subst h₂ h₃ h₄
      split
      · intro _ s' heq
        cases heq
        have hsame : s₄.tokens.rest = tokens.rest := hhere.first.trans hrest.symm
        refine .inr ⟨{ t with tokens }, ?_, hsame ▸ .near (.behind _), fun u hu => hjoined.bare u ?_,
          ⟨hjoined.finish.1, hfinish.trans hjoined.finish.2⟩, hjoined.references, hjoined.declared,
          .inl hsame⟩
        · rw [Parse.semicolon, Parse.bind_of_ok heat]
          rfl
        · rw [hhere.second]
          exact List.mem_cons_of_mem _ (hrest ▸ hu)
      · exact .fail

/-! ### Names -/

theorem agrees_modify {φ : ParseState → ParseState} (hm : (modify φ : Parse PUnit).Moves 0 n)
    (h : ∀ {s t}, i.Joined s t → i.Joined (φ s) (φ t)) :
    i.Agrees 0 n d (modify φ : Parse PUnit) (modify φ) :=
  ⟨hm, fun _ _ t _ hjoined _ _ heq => by cases heq; exact .inr ⟨φ t, rfl, h hjoined⟩⟩

instance (names : List String) :
    i.Agrees 0 n d (modify fun s => { s with declared := names } : Parse PUnit)
      (modify fun s => { s with declared := names }) :=
  agrees_modify inferInstance fun h => { h with declared := rfl }

instance (names : List (String × Location)) :
    i.Agrees 0 n d (modify fun s => { s with references := names } : Parse PUnit)
      (modify fun s => { s with references := names }) :=
  agrees_modify inferInstance fun h => { h with references := rfl }

instance (name : String) : i.Agrees 0 n d (Parse.declareVar name) (Parse.declareVar name) :=
  agrees_modify inferInstance fun h => { h with declared := congrArg (addName · name) h.declared }

instance (name : String) (l : Location) :
    i.Free (Parse.referPrivate name l) (Parse.referPrivate name l) := by
  have : i.Free (modify fun s => { s with references := s.references ++ [(name, l)] } : Parse PUnit)
      (modify fun s => { s with references := s.references ++ [(name, l)] }) :=
    agrees_modify inferInstance
      fun h => { h with references := congrArg (· ++ [(name, l)]) h.references }
  unfold Parse.referPrivate
  infer_instance

/-- Of the state itself only the names are read. -/
theorem Agrees.get {f k : ParseState → Parse β}
    (h : ∀ s t, t.references = s.references → i.Agrees m n d (f s) (k t)) :
    i.Agrees m n d (get >>= f) (get >>= k) :=
  ⟨⟨fun c s => (h s s rfl).moves.yields c s⟩,
    fun c s t hc hjoined => (h s t hjoined.references).leads c s t hc hjoined⟩

/-! ### Loops -/

section

variable {turn turn' : α → Parse (Turn α β)} {fuel fuel' : Nat} {a : α}

theorem Agrees.loop (h : ∀ a, i.Agrees 0 n d (turn a) (turn' a)) (hn : 0 < d + n)
    (hfuel : fuel ≤ fuel') : i.Agrees 0 n d (Parse.loop turn fuel a) (Parse.loop turn' fuel' a) := by
  induction fuel generalizing fuel' a with
  | zero => exact inferInstanceAs (i.Agrees 0 n d (throw _) _)
  | succ fuel ih =>
    obtain ⟨fuel', rfl⟩ : ∃ m, fuel' = m + 1 := ⟨fuel' - 1, by omega⟩
    refine (h a).bind (fun r => (?_ : i.Agrees 0 n d _ _)) hn (by omega)
    cases r with
    | again a => exact ih (by omega)
    | done b => exact inferInstanceAs (i.Agrees 0 n d (pure b) (pure b))

/-- A loop has one turn at least. -/
theorem Agrees.firstLoop (h : ∀ a, i.First (turn a) (turn' a)) (hfuel : fuel ≤ fuel') :
    i.First (Parse.loop turn fuel a) (Parse.loop turn' fuel' a) := by
  cases fuel with
  | zero => exact inferInstanceAs (i.First (throw _) _)
  | succ fuel =>
    obtain ⟨fuel', rfl⟩ : ∃ m, fuel' = m + 1 := ⟨fuel' - 1, by omega⟩
    have := h a
    refine .first (p := turn a) (q := turn' a) fun r => ?_
    cases r with
    | again a => exact .loop (fun a => inferInstance) (by omega) (by omega)
    | done b => exact inferInstanceAs (i.Free (pure b) (pure b))

/-- A loop that ends behind a closing token: the first run takes that behind the insertion, if it has
come there alone. -/
theorem Agrees.closedLoop {q : Punctuator} {finish : α → β}
    (h : ∀ a, i.Firm (turn a) (turn' a)) (hagain : ∀ a, (turn a).Never Parse.isDone)
    (hfuel : fuel ≤ fuel') : i.First
      (Parse.loop (fun a => do if ← Parse.eat q then return .done (finish a) else turn a) fuel a)
      (Parse.loop (fun a => do if ← Parse.eat q then return .done (finish a) else turn' a) fuel' a) := by
  induction fuel generalizing fuel' a with
  | zero => exact inferInstanceAs (i.First (throw _) _)
  | succ fuel ih =>
    obtain ⟨fuel', rfl⟩ : ∃ m, fuel' = m + 1 := ⟨fuel' - 1, by omega⟩
    have hclosed (n : Nat) (a : α) : (Parse.loop (fun a => do
        if ← Parse.eat q then return .done (finish a) else turn a) n a).Moves 1 1 :=
      .closed (fun a => (h a).moves) hagain
    refine ⟨hclosed (fuel + 1) a, fun c s t hc hjoined => ?_⟩
    rcases hjoined.cases with hnear | hhere
    · rw [Parse.loop, Parse.loop, bind_assoc, bind_assoc]
      refine leads_eat hc hjoined hnear
        (inferInstanceAs (i.Free (pure (finish a)) (pure (finish a)))) ?_
      simp only [Bool.false_eq_true, if_false]
      refine Parse.Yields.bind (((h a).leads c s t hc hjoined).and ((hagain a).yields c s))
        fun r s₁ h₁ => ?_
      obtain ⟨hturn, hr⟩ := h₁
      cases r with
      | done b => cases hr
      | again a' =>
        rcases hturn with hpassed | ⟨t₁, heq, hjoined₁⟩
        · exact ((hclosed fuel a').yields c s₁).mono fun _ _ hmoves =>
            .inl (hpassed.later hmoves (by omega) (by omega))
        · have hrest := (ih (a := a') (Nat.le_of_succ_le_succ hfuel)).leads c s₁ t₁ hc hjoined₁
          refine hrest.mono fun b s₂ h₂ => h₂.imp_right fun h₂ => ?_
          obtain ⟨t₂, heq₂, hjoined₂⟩ := h₂
          exact ⟨t₂, by rwa [Parse.bind_of_ok heq], hjoined₂⟩
    · exact hjoined.leads_here hhere ((hclosed (fuel + 1) a).yields c s) (Nat.le_refl _) Nat.one_pos

end

/-! ### Looking further ahead -/

/-- The first run is `n` tokens in front of the insertion. -/
structure Before (i : Insertion) (n : Nat) (s : ParseState) : Prop where
  remaining : s.tokens.remaining = i.left + n
  omitted : ∀ o ∈ s.omitted, o.remaining ≠ i.left

theorem Before.passed (h : i.Before e s) (hmoves : s.Moves m n s') (hd : d + e ≤ m) (he : e < n) :
    i.Passed d s' := by
  have htaken := hmoves.remaining
  have hbefore := h.remaining
  refine ⟨by omega, fun o ho => ?_⟩
  rcases hmoves.omitted o ho with ho | ⟨-, ho⟩
  · exact h.omitted o ho
  · omega

theorem Before.next (h : i.Before (n + 1) s) : ∃ u rest, s.tokens.significant = u :: rest := by
  refine List.exists_cons_of_ne_nil fun hnil => ?_
  have hremaining := h.remaining
  rw [TokenStream.remaining_eq, hnil, List.length_nil] at hremaining
  omega

/-- The tokens of the two runs in front of the insertion, the semicolon, and those behind it. -/
theorem Near.significant {l l' : List Token} (h : i.Near l l') : l = l' ∨
    ∃ front, l.filter Token.isSignificant = front ++ i.rest.filter Token.isSignificant ∧
      l'.filter Token.isSignificant = front ++ i.stop :: i.rest.filter Token.isSignificant := by
  cases h with
  | @ahead tokens u hu =>
    refine .inr ⟨(tokens ++ [u]).filter Token.isSignificant, ?_, ?_⟩
    · simp [hu]
    · simp [hu, i.isSignificant_stop]
  | behind => exact .inl rfl

/-- Both runs see the same token `n` places ahead, if that is not behind the insertion. -/
theorem Joined.peekNth? (hjoined : i.Joined s t) (hnear : i.Near s.tokens.rest t.tokens.rest)
    (hn : s.tokens.rest = t.tokens.rest ∨ i.left + n ≤ s.tokens.remaining) :
    (t.tokens.peekNth? n = s.tokens.peekNth? n ∧
      (s.tokens.rest = t.tokens.rest ∨ i.left + (n + 1) ≤ s.tokens.remaining)) ∨
    (t.tokens.peekNth? n = some i.stop ∧ i.Before n s) := by
  rcases hnear.significant with heq | ⟨front, hs, ht⟩
  · exact .inl ⟨by rw [TokenStream.peekNth?, ← heq]; rfl, .inl heq⟩
  have hne : s.tokens.rest ≠ t.tokens.rest := fun heq => by
    have hlength := congrArg List.length (hs.symm.trans ((congrArg _ heq).trans ht))
    simp at hlength
  have hremaining : s.tokens.remaining = front.length + i.left := by
    rw [TokenStream.remaining_eq, TokenStream.significant, hs, List.length_append, left,
      List.countP_eq_length_filter]
  have hle := hn.resolve_left hne
  simp only [TokenStream.peekNth?_eq, TokenStream.significant, hs, ht]
  rcases Nat.lt_or_ge n front.length with hlt | hge
  · refine .inl ⟨?_, .inr (by omega)⟩
    rw [List.getElem?_append_left hlt, List.getElem?_append_left hlt]
  · refine .inr ⟨?_, by omega, hjoined.fresh.resolve_left hne⟩
    obtain rfl : n = front.length := by omega
    simp

/-- An answer that looks one token further may be another one in the second run if the semicolon is
there. -/
def Foresees (i : Insertion) (p : Parse α) (no : α) : Prop :=
  ∀ c s t, c.source = [] → i.Joined s t → i.Near s.tokens.rest t.tokens.rest →
    p.Yields c s fun a s' => s' = s ∧
      (p c t = .ok (a, t) ∨ (p c t = .ok (no, t) ∧ i.Before 1 s))

theorem foresees_peekNth? (i : Insertion) : i.Foresees (Parse.peekNth? 1) (some i.stop) := by
  intro c s t _ hjoined hnear a s' heq
  cases heq
  refine ⟨rfl, ?_⟩
  rcases hjoined.peekNth? (n := 1) hnear (hnear.remaining.imp_right id) with ⟨h, -⟩ | ⟨h, hbefore⟩
  · exact .inl (congrArg (fun a => Except.ok (a, t)) h)
  · exact .inr ⟨congrArg (fun a => Except.ok (a, t)) h, hbefore⟩

/-- What is made of the answer. -/
theorem Foresees.bind {no : α} {no' : β} (h : i.Foresees p no) (hf : ∀ a, (f a).Steady)
    (hno : f no = pure no') : i.Foresees (p >>= f) no' := by
  intro c s t hc hjoined hnear
  refine .bind (h c s t hc hjoined hnear) fun a s' h' => ?_
  obtain ⟨rfl, hanswer⟩ := h'
  refine ((hf a).yields c s').mono fun b s'' h'' => ⟨h''.1, hanswer.imp (fun heq => ?_) fun heq => ?_⟩
  · rw [Parse.bind_of_ok heq]
    exact h''.2 t
  · rw [Parse.bind_of_ok heq.1, hno]
    exact ⟨rfl, heq.2⟩

theorem Foresees.same {no : α} [h : i.SharesNear p] : i.Foresees p no :=
  fun c s t hc hjoined hnear => ((h.unmoved c s).and (h.yields c s t hc hjoined hnear)).mono
    fun _ _ h => ⟨h.1, .inl h.2⟩

theorem Foresees.ask {no : β} [hp : i.SharesNear p] (hf : ∀ a, i.Foresees (f a) no) :
    i.Foresees (p >>= f) no := by
  intro c s t hc hjoined hnear
  refine .bind ((hp.unmoved c s).and (hp.yields c s t hc hjoined hnear)) fun a s' h => ?_
  obtain ⟨rfl, heq⟩ := h
  rw [Parse.bind_of_ok heq]
  exact hf a c s' t hc hjoined hnear

/-- Where the answers differ, the insertion is behind the next token. -/
theorem Agrees.foresee {no : α} (h : i.Foresees p no) (hmoves : (p >>= f).Moves m n)
    (hsame : ∀ a c s t, c.source = [] → i.Joined s t → i.Near s.tokens.rest t.tokens.rest →
      p c s = .ok (a, s) → i.Leads d (f a) (k a) c s t)
    (hother : ∀ a c s t, c.source = [] → i.Joined s t → i.Before 1 s → p c s = .ok (a, s) →
      i.Leads d (f a) (k no) c s t)
    (hn : 0 < n) (hd : d ≤ m) : i.Agrees m n d (p >>= f) (p >>= k) := by
  refine .ofNear hmoves (fun c s t hc hjoined hnear => ?_) hn hd
  refine Parse.Yields.bind (P := fun a s' => (s' = s ∧ (p c t = .ok (a, t) ∨
    (p c t = .ok (no, t) ∧ i.Before 1 s))) ∧ p c s = .ok (a, s')) (fun a s' heq => ?_)
    fun a s' h' => ?_
  · exact ⟨h c s t hc hjoined hnear a s' heq, heq⟩
  · obtain ⟨⟨rfl, heq | ⟨heq, hbefore⟩⟩, ha⟩ := h'
    · exact (hsame a c s' t hc hjoined hnear ha).mono fun b s'' h => by
        rwa [Parse.bind_of_ok heq]
    · exact (hother a c s' t hc hjoined hbefore ha).mono fun b s'' h => by
        rwa [Parse.bind_of_ok heq]

/-- The same from states with a next token. -/
theorem AgreesNext.foresee {no : α} [p.Plain] [p.Still] (h : i.Foresees p no)
    (hsame : ∀ a, i.AgreesNext m n d (f a) (k a))
    (hother : ∀ a c s t, c.source = [] → i.Joined s t → i.Near s.tokens.rest t.tokens.rest →
      i.Before 1 s → i.Leads d (f a) (k no) c s t) :
    i.AgreesNext m n d (p >>= f) (p >>= k) := by
  refine ⟨fun c s u rest hnext => .bind .unmoved fun a s' h' => ?_,
    fun c s t u rest hc hjoined hnear hnext =>
      Parse.Yields.bind (h c s t hc hjoined hnear) fun a s' h' => ?_⟩
  · obtain rfl := h'
    exact (hsame a).moves c hnext
  · obtain ⟨rfl, heq | ⟨heq, hbefore⟩⟩ := h'
    · exact ((hsame a).leads c s' t hc hjoined hnear hnext).mono fun b s'' h => by
        rwa [Parse.bind_of_ok heq]
    · exact (hother a c s' t hc hjoined hnear hbefore).mono fun b s'' h => by
        rwa [Parse.bind_of_ok heq]

/-- What is looked for is rejected, so it is not there in the first run. -/
theorem Agrees.foreseeGuard {p : Parse Bool} {q q' : Parse α} {f k : α → Parse β} {y y' : Parse β}
    {φ : Bool → Bool} [q.Fails] (h : i.Foresees p false) (hp : p.Moves 0 n) (hφ : φ false = false)
    (hy : i.Agrees m n d y y') (hn : 0 < n) (hd : d ≤ m) :
    i.Agrees m n d (do let b ← p; if φ b = true then q >>= f else y)
      (do let b ← p; if φ b = true then q' >>= k else y') := by
  have hmoves (b : Bool) : (if φ b = true then q >>= f else y).Moves m n := .guard hy.moves
  refine .foresee h ((hp.bind hmoves).mono (by omega) (by omega)) (fun b c s t hc hjoined _ _ => ?_)
    (fun b c s t hc hjoined _ _ => ?_) hn hd
  · split
    · exact .fail
    · exact hy.leads c s t hc hjoined
  · rw [hφ]
    split
    · exact .fail
    · exact hy.leads c s t hc hjoined

end Insertion

end Ecma
