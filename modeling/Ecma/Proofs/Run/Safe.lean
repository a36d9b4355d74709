import Ecma.Proofs.Scope.Aging

/-! Safe evaluations: they take sound states to later sound states in the same context, however they
end. Safety is relative to a state, and stays true of every later one, so that what is known of a
scope before a step need not be shown again after it. In a later state scopes have aged, and names
without a value are as they were; an evaluation that binds names or gives them their first values is
safe but for those. -/

namespace Ecma

/-- What is watched for in a run: a property of the scopes and the text written, which lasts while
scopes age and text is added. -/
class Vigil where
  Holds : Scopes → String → Prop
  lasts : ∀ {s s' : Scopes} {text : String} (more : String), s.Ages s' → Holds s text →
    Holds s' (text ++ more)

/-- Nothing is watched for. -/
instance (priority := low) : Vigil :=
  ⟨fun _ _ => True, fun _ _ _ => trivial⟩

namespace State

/-- A later state in the same context, with as many calls open. -/
structure Follows (s s' : State) : Prop extends Store.Follows s.toStore s'.toStore where
  contexts : s'.contexts = s.contexts
  callDepth : s'.callDepth = s.callDepth
  site : s'.site = s.site

/-- A later state in which no name has its first value but some, and no private name that was there
is used first but those of their scopes. -/
structure PrecedesBut (but : Set (ScopeRef × String)) (s s' : State) : Prop extends
    follows : s.Follows s' where
  steady : s.scopes.Steady but s'.scopes
  reserves : Store.Reserves but s.toStore s'.toStore

/-- A later state in which no name has its first value. -/
abbrev Precedes : State → State → Prop :=
  PrecedesBut ∅

/-- A sound store, in which what is watched for holds. -/
structure Sound [Vigil] (s : State) : Prop extends Store.Sound s.toStore where
  vigil : Vigil.Holds s.scopes s.output

/-- The code at a site is being run, and the scope is one for it. -/
structure Stands (s : State) (q : ScopeRef) (l : Site) : Prop where
  site : s.site = l
  hosts : s.toStore.Hosts q l

/-- The code at a site is being run in a scope for it, and the context is strict if the function or
script around the code is. -/
structure Runs (s : State) (q : ScopeRef) (l : Site) : Prop extends stands : s.Stands q l where
  strict : s.contexts.head?.map Context.strict = some l.place.runsStrict

variable {s s' s₁ s₂ s₃ : State} {q : ScopeRef} {l : Site} {but but' : Set (ScopeRef × String)}

theorem Follows.refl (s : State) : s.Follows s :=
  ⟨.refl s.toStore, rfl, rfl, rfl⟩

theorem Follows.trans (h₁ : s₁.Follows s₂) (h₂ : s₂.Follows s₃) : s₁.Follows s₃ :=
  ⟨h₁.toFollows.trans h₂.toFollows, h₂.contexts.trans h₁.contexts, h₂.callDepth.trans h₁.callDepth,
    h₂.site.trans h₁.site⟩

/-- The scopes are as they were. -/
theorem Follows.still (h : s.Follows s') (hscopes : s'.scopes = s.scopes)
    (hreserves : Store.Reserves but s.toStore s'.toStore) : s.PrecedesBut but s' :=
  ⟨h, hscopes ▸ .refl _ _, hreserves⟩

theorem PrecedesBut.refl (but : Set (ScopeRef × String)) (s : State) : s.PrecedesBut but s :=
  ⟨.refl s, .refl _ _, .refl _ _⟩

theorem PrecedesBut.trans (h₁ : s₁.PrecedesBut but s₂) (h₂ : s₂.PrecedesBut but s₃) :
    s₁.PrecedesBut but s₃ :=
  ⟨h₁.follows.trans h₂.follows, h₁.steady.trans h₂.steady,
    h₁.reserves.trans h₁.toGrows h₂.toGrows h₂.reserves⟩

theorem PrecedesBut.mono (h : s.PrecedesBut but s') (hsub : but ⊆ but') : s.PrecedesBut but' s' :=
  ⟨h.follows, h.steady.mono hsub, h.reserves.mono hsub⟩

theorem PrecedesBut.widened (h : s.Precedes s') : s.PrecedesBut but s' :=
  h.mono (Set.empty_subset but)

/-- A step after which the store is sound, and of which the vigil takes no notice. -/
theorem Sound.next [Vigil] (hs : s.Sound) (h : s.PrecedesBut but s')
    (hsound : s'.toStore.Sound) (houtput : ∃ text, s'.output = s.output ++ text) : s'.Sound := by
  obtain ⟨text, heq⟩ := houtput
  refine ⟨hsound, ?_⟩
  rw [heq]
  exact Vigil.lasts text h.steady.ages hs.vigil

theorem Stands.mono (h : s.Stands q l) (hs : s.PrecedesBut but s') : s'.Stands q l :=
  ⟨hs.site.trans h.site, h.hosts.mono hs.toGrows⟩

theorem Stands.inner {p : ScopeRef} (h : s.Stands p l) (hq : s.Inside p q []) : s.Stands q l :=
  ⟨h.site, .inner hq h.hosts⟩

theorem Stands.enter {a : Around} (ha : a.isCode = false) (h : s.Stands q l) :
    State.Stands { s with site := l.enter a q } q (l.enter a q) :=
  ⟨rfl, .statement ha h.hosts⟩

theorem Runs.mono (h : s.Runs q l) (hs : s.PrecedesBut but s') : s'.Runs q l :=
  ⟨h.stands.mono hs, hs.contexts ▸ h.strict⟩

/-- Code may as well run in a scope inside that has no private names. -/
theorem Runs.inner {p : ScopeRef} (h : s.Runs p l) (hq : s.Inside p q []) : s.Runs q l :=
  ⟨h.stands.inner hq, h.strict⟩

/-- The code in a statement runs in the context of the statement. -/
theorem Runs.enter {a : Around} (ha : a.isCode = false) (h : s.Runs q l) :
    State.Runs { s with site := l.enter a q } q (l.enter a q) :=
  ⟨h.stands.enter ha, by rw [Site.place_enter ha]; exact h.strict⟩

/-- The code of a class runs in the context of the code around the class. -/
theorem Runs.enterClass {p : ScopeRef} {a : Around} {c : ClassDef} (hc : a.classDef? = some c)
    (h : s.Runs p l) (hq : s.Inside p q (distinctNames c.privateNames)) :
    State.Runs { s with site := l.enter a q } q (l.enter a q) := by
  refine ⟨⟨rfl, .classScope hc hq h.hosts⟩, h.strict.trans ?_⟩
  cases a with
  | heritage | classBody => rfl
  | _ => cases hc

end State

namespace Eval

/-- What is read from the scopes goes to the rest of an evaluation. -/
theorem scopes_bind {α β : Type} (f : Scopes → α) (k : α → Eval β) (s : State) :
    (scopes f >>= k) s = k (f s.scopes) s :=
  rfl

variable [Vigil] {α β : Type} {x : Eval α} {st st' : State} {P Q : α → State → Prop}
  {but but' : Set (ScopeRef × String)}

/-- An outcome with a later sound state than `st`; a value and the state have a property. -/
def LeadsBut (but : Set (ScopeRef × String)) (st : State) (Q : α → State → Prop) :
    EStateM.Result Abrupt State α → Prop
  | .ok a s => st.PrecedesBut but s ∧ s.Sound ∧ Q a s
  | .error _ s => st.PrecedesBut but s ∧ s.Sound

/-- From every sound state that `st` precedes, the evaluation leads to a later sound state, in which
no name has its first value but some. -/
def SafeBut (but : Set (ScopeRef × String)) (x : Eval α) (st : State) (Q : α → State → Prop) :
    Prop :=
  ∀ s : State, st.Precedes s → s.Sound → LeadsBut but s Q (x s)

/-- From every sound state that `st` precedes, the evaluation leads to a later sound state, in which
no name has its first value. -/
abbrev Safe (x : Eval α) (st : State) (Q : α → State → Prop) : Prop :=
  x.SafeBut ∅ st Q

/-- An evaluation that is safe from every state on. -/
class Tame (x : Eval α) : Prop where
  safe : ∀ st, x.Safe st fun _ _ => True

/-! ### Rules -/

theorem LeadsBut.after {result : EStateM.Result Abrupt State α} (hst : st.PrecedesBut but st')
    (h : LeadsBut but st' Q result) : LeadsBut but st Q result := by
  cases result with
  | ok a s => exact ⟨hst.trans h.1, h.2⟩
  | error e s => exact ⟨hst.trans h.1, h.2⟩

theorem LeadsBut.conseq {result : EStateM.Result Abrupt State α} (h : LeadsBut but st P result)
    (hPQ : ∀ a st', st.PrecedesBut but st' → P a st' → Q a st') : LeadsBut but st Q result := by
  cases result with
  | ok a s => exact ⟨h.1, h.2.1, hPQ a _ h.1 h.2.2⟩
  | error e s => exact h

theorem LeadsBut.mono {result : EStateM.Result Abrupt State α} (h : LeadsBut but st Q result)
    (hsub : but ⊆ but') : LeadsBut but' st Q result := by
  cases result with
  | ok a s => exact ⟨h.1.mono hsub, h.2⟩
  | error e s => exact ⟨h.1.mono hsub, h.2⟩

theorem SafeBut.of_ok
    (h : ∀ s : State, st.Precedes s → s.Sound → ∃ a s', x s = .ok a s' ∧ s.PrecedesBut but s' ∧
      s'.toStore.Sound ∧ s'.output = s.output ∧ Q a s') : x.SafeBut but st Q := by
  intro s hs hsound
  obtain ⟨a, s', heq, hprecedes, hsound', houtput, hQ⟩ := h s hs hsound
  rw [heq]
  exact ⟨hprecedes, hsound.next hprecedes hsound' ⟨"", by simp [houtput]⟩, hQ⟩

theorem SafeBut.mono (h : x.SafeBut but st Q) (hst : st.Precedes st') : x.SafeBut but st' Q :=
  fun s hs => h s (hst.trans hs)

theorem SafeBut.widen (h : x.SafeBut but st Q) (hsub : but ⊆ but') : x.SafeBut but' st Q :=
  fun s hs hsound => (h s hs hsound).mono hsub

theorem SafeBut.widened (h : x.Safe st Q) : x.SafeBut but st Q :=
  h.widen (Set.empty_subset but)

theorem SafeBut.conseq (h : x.SafeBut but st P)
    (hPQ : ∀ a st', st.PrecedesBut but st' → P a st' → Q a st') : x.SafeBut but st Q :=
  fun s hs hsound => (h s hs hsound).conseq fun a st' hst' => hPQ a st' (hs.widened.trans hst')

theorem SafeBut.any (h : x.SafeBut but st P) : x.SafeBut but st fun _ _ => True :=
  h.conseq fun _ _ _ _ => trivial

theorem SafeBut.pure {a : α} (h : ∀ st', st.Precedes st' → Q a st') :
    (pure a : Eval α).SafeBut but st Q :=
  fun s hs hsound => ⟨.refl _ _, hsound, h s hs⟩

theorem SafeBut.throw {e : Abrupt} : (throw e : Eval α).SafeBut but st Q :=
  fun _ _ hsound => ⟨.refl _ _, hsound⟩

/-- What the second step does from the state that the first one leaves. -/
theorem LeadsBut.bind {f : α → Eval β} {Q : β → State → Prop} (hx : LeadsBut but st P (x st))
    (hf : ∀ a st', st.PrecedesBut but st' → st'.Sound → P a st' → LeadsBut but st' Q (f a st')) :
    LeadsBut but st Q ((x >>= f) st) := by
  change LeadsBut but st Q (EStateM.bind x f st)
  unfold EStateM.bind
  cases heq : x st with
  | ok a s₁ =>
    rw [heq] at hx
    exact (hf a s₁ hx.1 hx.2.1 hx.2.2).after hx.1
  | error e s₁ =>
    rw [heq] at hx
    exact hx

/-- Two steps, each of which binds some names. -/
theorem SafeBut.seq {f : α → Eval β} {Q : β → State → Prop} {but₁ but₂ : Set (ScopeRef × String)}
    (hx : x.SafeBut but₁ st P)
    (hf : ∀ a st', st.PrecedesBut but₁ st' → P a st' → (f a).SafeBut but₂ st' Q)
    (h₁ : but₁ ⊆ but) (h₂ : but₂ ⊆ but) : (x >>= f).SafeBut but st Q := by
  intro s hs hsound
  have hfirst := hx s hs hsound
  change LeadsBut but s Q (EStateM.bind x f s)
  unfold EStateM.bind
  cases heq : x s with
  | ok a s₁ =>
    rw [heq] at hfirst
    have hlater := hs.widened.trans hfirst.1
    have hrest := hf a s₁ hlater hfirst.2.2 s₁ (.refl _ _) hfirst.2.1
    exact (hrest.mono h₂).after (hfirst.1.mono h₁)
  | error e s₁ =>
    rw [heq] at hfirst
    exact hfirst.mono h₁

theorem SafeBut.bind {f : α → Eval β} {Q : β → State → Prop} (hx : x.Safe st P)
    (hf : ∀ a st', st.Precedes st' → P a st' → (f a).SafeBut but st' Q) :
    (x >>= f).SafeBut but st Q :=
  .seq hx hf (Set.empty_subset but) Set.Subset.rfl

/-- A step of which nothing but its value is used. -/
theorem SafeBut.after {f : α → Eval β} {Q : β → State → Prop} (hx : x.Safe st P)
    (hf : ∀ a, (f a).SafeBut but st Q) : (x >>= f).SafeBut but st Q :=
  .bind hx fun a _ hst _ => (hf a).mono hst

theorem SafeBut.skip {f : α → Eval β} {Q : β → State → Prop} [x.Tame]
    (hf : ∀ a, (f a).SafeBut but st Q) : (x >>= f).SafeBut but st Q :=
  .after (Tame.safe st) hf

/-- A step that binds names, and one that does not. -/
theorem SafeBut.before {f : α → Eval β} [hf : ∀ a, (f a).Tame] (hx : x.SafeBut but st P) :
    (x >>= f).SafeBut but st fun _ _ => True :=
  .seq hx (fun a st' _ _ => (hf a).safe st') Set.Subset.rfl (Set.empty_subset but)

/-- What is done to scopes that come with the first step does not count. -/
theorem SafeBut.bindNew {f : α → Eval β} {Q : β → State → Prop} {P : State → α → State → Prop}
    {new : α → Set (ScopeRef × String)} (hx : ∀ s, st.Precedes s → x.SafeBut but s (P s))
    (hf : ∀ s a s', st.Precedes s → s.PrecedesBut but s' → P s a s' → (f a).SafeBut (new a) s' Q)
    (hnew : ∀ s a s', P s a s' → ∀ p ∈ new a,
      p ∈ but ∨ s.scopes.environments.size ≤ p.1.index) : (x >>= f).SafeBut but st Q := by
  intro s hs hsound
  have hfirst := hx s hs s (.refl _ _) hsound
  change LeadsBut but s Q (EStateM.bind x f s)
  unfold EStateM.bind
  cases heq : x s with
  | error e s₁ =>
    rw [heq] at hfirst
    exact hfirst
  | ok a s₁ =>
    rw [heq] at hfirst
    have hrest := hf s a s₁ hs hfirst.1 hfirst.2.2 s₁ (.refl _ _) hfirst.2.1
    have hforget {s₂ : State} (h : s₁.PrecedesBut (new a) s₂) : s.PrecedesBut but s₂ := by
      have hboth : s.PrecedesBut (but ∪ new a) s₂ :=
        (hfirst.1.mono Set.subset_union_left).trans (h.mono Set.subset_union_right)
      have hnew' (p : ScopeRef × String) (hp : p ∈ but ∪ new a) :=
        hp.elim .inl (hnew s a s₁ hfirst.2.2 p)
      exact ⟨hboth.follows, hboth.steady.forget hnew', hboth.reserves.forget hnew'⟩
    simp only
    cases hsecond : f a s₁ with
    | ok b s₂ =>
      rw [hsecond] at hrest
      exact ⟨hforget hrest.1, hrest.2⟩
    | error e s₂ =>
      rw [hsecond] at hrest
      exact ⟨hforget hrest.1, hrest.2⟩

theorem SafeBut.map {f : α → β} {Q : β → State → Prop} (h : x.SafeBut but st fun a => Q (f a)) :
    (f <$> x).SafeBut but st Q := by
  intro s hs hsound
  have hx := h s hs hsound
  change LeadsBut but s Q (EStateM.map f x s)
  unfold EStateM.map
  cases heq : x s <;> rw [heq] at hx <;> exact hx

/-- What the heap says is true of a state from which the rest is safe. -/
theorem SafeBut.heap {f : Heap → α} {g : α → Eval β} {Q : β → State → Prop}
    (h : ∀ st', st.Precedes st' → st'.Sound → (g (f st'.heap)).SafeBut but st' Q) :
    (heap f >>= g).SafeBut but st Q :=
  fun s hs hsound => h s hs hsound s (.refl _ _) hsound

theorem SafeBut.site {f : Site → Eval β} {Q : β → State → Prop} (h : (f st.site).SafeBut but st Q) :
    (site >>= f).SafeBut but st Q := by
  intro s hs hsound
  change LeadsBut but s Q (f s.site s)
  rw [hs.site]
  exact h s hs hsound

theorem SafeBut.scopes {f : Scopes → α} {g : α → Eval β} {Q : β → State → Prop}
    (h : ∀ st', st.Precedes st' → st'.Sound → (g (f st'.scopes)).SafeBut but st' Q) :
    (scopes f >>= g).SafeBut but st Q :=
  fun s hs hsound => h s hs hsound s (.refl _ _) hsound

/-- The code runs in the new context, and the old one is back afterwards. -/
theorem SafeBut.inContext {c : Context}
    (h : x.SafeBut but { st with contexts := c :: st.contexts } fun _ _ => True) :
    (inContext c x).SafeBut but st fun _ _ => True := by
  intro s hs hsound
  have hx := h { s with contexts := c :: s.contexts }
    ⟨⟨hs.toFollows, congrArg (c :: ·) hs.contexts, hs.callDepth, hs.site⟩, hs.steady, hs.reserves⟩
    ⟨hsound.toSound, hsound.vigil⟩
  have hback {s' : State}
      (hs' : State.PrecedesBut but { s with contexts := c :: s.contexts } s') :
      s.PrecedesBut but { s' with contexts := s'.contexts.tail } :=
    ⟨⟨hs'.toFollows, congrArg List.tail hs'.contexts, hs'.callDepth, hs'.site⟩, hs'.steady,
      hs'.reserves⟩
  simp only [Eval.inContext]
  cases heq : x { s with contexts := c :: s.contexts } with
  | ok a s' =>
    rw [heq] at hx
    exact ⟨hback hx.1, ⟨hx.2.1.toSound, hx.2.1.vigil⟩, trivial⟩
  | error e s' =>
    rw [heq] at hx
    exact ⟨hback hx.1, hx.2.toSound, hx.2.vigil⟩

/-- The code runs at the new site, and the old one is back afterwards. -/
theorem SafeBut.atSiteWhere {l : Site} (h : x.SafeBut but { st with site := l } P)
    (hPQ : ∀ a s l', P a s → Q a { s with site := l' }) : (atSite l x).SafeBut but st Q := by
  intro s hs hsound
  have hx := h { s with site := l }
    ⟨⟨hs.toFollows, hs.contexts, hs.callDepth, rfl⟩, hs.steady, hs.reserves⟩
    ⟨hsound.toSound, hsound.vigil⟩
  have hback {s' : State} (hs' : State.PrecedesBut but { s with site := l } s') :
      s.PrecedesBut but { s' with site := s.site } :=
    ⟨⟨hs'.toFollows, hs'.contexts, hs'.callDepth, rfl⟩, hs'.steady, hs'.reserves⟩
  simp only [Eval.atSite]
  cases heq : x { s with site := l } with
  | ok a s' =>
    rw [heq] at hx
    exact ⟨hback hx.1, ⟨hx.2.1.toSound, hx.2.1.vigil⟩, hPQ a s' s.site hx.2.2⟩
  | error e s' =>
    rw [heq] at hx
    exact ⟨hback hx.1, hx.2.toSound, hx.2.vigil⟩

theorem SafeBut.atSite {l : Site} (h : x.SafeBut but { st with site := l } fun _ _ => True) :
    (atSite l x).SafeBut but st fun _ _ => True :=
  .atSiteWhere h fun _ _ _ _ => trivial

theorem SafeBut.withinWhere {l : Site} {a : Around} {q : ScopeRef} (hsite : st.site = l)
    (h : x.SafeBut but { st with site := l.enter a q } P)
    (hPQ : ∀ a s l', P a s → Q a { s with site := l' }) : (within a q x).SafeBut but st Q := by
  subst hsite
  exact .site (.atSiteWhere h hPQ)

theorem SafeBut.within {l : Site} {a : Around} {q : ScopeRef} (hsite : st.site = l)
    (h : x.SafeBut but { st with site := l.enter a q } fun _ _ => True) :
    (within a q x).SafeBut but st fun _ _ => True :=
  .withinWhere hsite h fun _ _ _ _ => trivial

theorem Safe.catching {handler : Value → Eval α} (hx : x.Safe st Q)
    (hh : ∀ v, (handler v).Safe st Q) : (catching x handler).Safe st Q := by
  intro s hs hsound
  have hfirst := hx s hs hsound
  simp only [Eval.catching]
  cases heq : x s with
  | ok a s₁ =>
    rw [heq] at hfirst
    exact hfirst
  | error e s₁ =>
    rw [heq] at hfirst
    cases e with
    | thrown v => exact (hh v s₁ (hs.trans hfirst.1) hfirst.2).after hfirst.1
    | escaped ending => exact hfirst
    | exhausted => exact hfirst

theorem SafeBut.attempt (h : x.SafeBut but st fun _ _ => True) :
    (attempt x).SafeBut but st fun _ _ => True := by
  intro s hs hsound
  have hmap : (Except.ok <$> x : Eval (Except Value α)).SafeBut but st fun _ _ => True := .map h
  have hx := hmap s hs hsound
  simp only [Eval.attempt, Eval.catching]
  cases heq : (Except.ok <$> x : Eval (Except Value α)) s with
  | ok a s' =>
    rw [heq] at hx
    exact hx
  | error e s' =>
    rw [heq] at hx
    cases e with
    | thrown v => exact ⟨hx.1, hx.2, trivial⟩
    | escaped ending => exact hx
    | exhausted => exact hx

/-- An invariant of the turns of a loop. -/
theorem Safe.loop {turn : α → Eval (Turn α β)} {I : α → State → Prop}
    (h : ∀ a st', st.Precedes st' → I a st' →
      (turn a).Safe st' fun t st'' => ∀ a', t = .again a' → I a' st'')
    (fuel : Nat) {a : α} (ha : I a st) : (loop turn fuel a).Safe st fun _ _ => True := by
  induction fuel generalizing a st with
  | zero => exact .throw
  | succ fuel ih =>
    refine .bind (h a st (.refl _ st) ha) fun t st' hst ht => ?_
    cases t with
    | again a' => exact ih (fun b st'' hst' => h b st'' (hst.trans hst')) (ht a' rfl)
    | done b => exact .pure fun _ _ => trivial

/-! ### Rules for lists -/

theorem Safe.forM {xs : List α} {f : α → Eval PUnit} {R : α → State → Prop}
    (hR : ∀ a st₁ st₂, State.Precedes st₁ st₂ → R a st₁ → R a st₂)
    (h : ∀ a ∈ xs, (f a).Safe st fun _ => R a) :
    (xs.forM f).Safe st fun _ st' => ∀ a ∈ xs, R a st' := by
  induction xs generalizing st with
  | nil => exact .pure fun _ _ _ ha => by cases ha
  | cons a rest ih =>
    refine .bind (h a (by simp)) fun _ st' hst hnow => ?_
    refine (ih fun b hb => (h b (by simp [hb])).mono hst).conseq fun _ st'' hst' hrest b hb => ?_
    rcases List.mem_cons.mp hb with rfl | hb
    · exact hR _ _ _ hst' hnow
    · exact hrest b hb

theorem Safe.each {xs : List α} {f : α → Eval PUnit}
    (h : ∀ a ∈ xs, (f a).Safe st fun _ _ => True) : (xs.forM f).Safe st fun _ _ => True :=
  (Safe.forM (R := fun _ _ => True) (fun _ _ _ _ _ => trivial) h).any

theorem Safe.mapM {xs : List α} {f : α → Eval β} {P : β → Prop}
    (h : ∀ a ∈ xs, (f a).Safe st fun b _ => P b) :
    (xs.mapM f).Safe st fun bs _ => ∀ b ∈ bs, P b := by
  induction xs with
  | nil => exact .pure fun _ _ _ hb => by cases hb
  | cons a rest ih =>
    rw [List.mapM_cons]
    refine .bind (h a (by simp)) fun b st' hst hb => ?_
    refine .bind ((ih fun a ha => h a (by simp [ha])).mono hst) fun bs _ _ hbs => ?_
    refine .pure fun _ _ c hc => ?_
    rcases List.mem_cons.mp hc with rfl | hc
    · exact hb
    · exact hbs c hc

/-- An invariant of what has been made of the elements so far. -/
theorem Safe.foldlM {xs : List α} {f : β → α → Eval β} {b : β} (I : List α → β → Prop)
    (h : ∀ before a after b, xs = before ++ a :: after → I before b →
      (f b a).Safe st fun b' _ => I (before ++ [a]) b') (hb : I [] b) :
    (xs.foldlM f b).Safe st fun b' _ => I xs b' := by
  suffices ∀ before rest b, xs = before ++ rest → I before b →
      (rest.foldlM f b).Safe st fun b' _ => I xs b' from this [] xs b rfl hb
  intro before rest
  induction rest generalizing before with
  | nil =>
    intro b heq hb
    rw [List.append_nil] at heq
    exact .pure fun _ _ => heq ▸ hb
  | cons a rest ih =>
    intro b heq hb
    rw [List.foldlM_cons]
    refine .bind (h before a rest b heq hb) fun b' st' hst hb' => ?_
    exact (ih (before ++ [a]) b' (by simp [heq]) hb').mono hst

/-! ### Tame evaluations -/

/-- A step that leaves the scopes and the text as they are. -/
theorem Tame.of_ok (h : ∀ s : State, s.toStore.Sound → ∃ a s', x s = .ok a s' ∧ s.Follows s' ∧
    Store.Reserves ∅ s.toStore s'.toStore ∧ s'.toStore.Sound ∧ s'.scopes = s.scopes ∧
      s'.output = s.output) : x.Tame :=
  ⟨fun _ => .of_ok fun s _ hsound =>
    let ⟨a, s', heq, hs, hreserves, hsound', hscopes, houtput⟩ := h s hsound.toSound
    ⟨a, s', heq, hs.still hscopes hreserves, hsound', houtput, trivial⟩⟩

instance (a : α) : (pure a : Eval α).Tame :=
  ⟨fun _ => .pure fun _ _ => trivial⟩

instance (e : Abrupt) : (throw e : Eval α).Tame :=
  ⟨fun _ => .throw⟩

theorem Tame.bind {f : α → Eval β} [x.Tame] (hf : ∀ a, (f a).Tame) : (x >>= f).Tame :=
  ⟨fun st => .skip fun a => (hf a).safe st⟩

instance {f : α → Eval β} [x.Tame] [hf : ∀ a, (f a).Tame] : (x >>= f).Tame :=
  .bind hf

instance {f : α → β} [x.Tame] : (f <$> x).Tame :=
  ⟨fun st => .map (Tame.safe st)⟩

instance [x.Tame] : (discard x : Eval PUnit).Tame :=
  inferInstanceAs (Tame (Function.const α PUnit.unit <$> x))

instance {b : Prop} [Decidable b] {y : Eval α} [x.Tame] [y.Tame] : (if b then x else y).Tame := by
  split <;> infer_instance

instance {handler : Value → Eval α} [x.Tame] [h : ∀ v, (handler v).Tame] :
    (catching x handler).Tame :=
  ⟨fun st => .catching (Tame.safe st) fun v => (h v).safe st⟩

instance [x.Tame] : (attempt x).Tame := by unfold attempt; infer_instance

instance {xs : List α} {f : α → Eval PUnit} [h : ∀ a, (f a).Tame] : (xs.forM f).Tame :=
  ⟨fun st => .each fun a _ => (h a).safe st⟩

instance {xs : List α} {f : α → Eval β} [h : ∀ a, (f a).Tame] : (xs.mapM f).Tame :=
  ⟨fun st => (Safe.mapM (P := fun _ => True) fun a _ => (h a).safe st).any⟩

instance {a : Option α} {f : α → Eval PUnit} [h : ∀ a, (f a).Tame] : (a.forM f).Tame := by
  cases a with
  | none => exact inferInstanceAs (Tame (Pure.pure PUnit.unit))
  | some a => exact h a

instance {a : Option α} {f : α → Eval β} [h : ∀ a, (f a).Tame] : (a.mapM f).Tame := by
  cases a with
  | none => exact inferInstanceAs (Tame (Pure.pure none))
  | some a => exact inferInstanceAs (Tame (some <$> f a))

/-! ### Reading -/

instance (f : Heap → α) : (heap f).Tame :=
  .of_ok fun s hsound => ⟨_, s, rfl, .refl _, .refl _ _, hsound, rfl, rfl⟩

instance (f : Scopes → α) : (scopes f).Tame :=
  .of_ok fun s hsound => ⟨_, s, rfl, .refl _, .refl _ _, hsound, rfl, rfl⟩

instance : isStrict.Tame :=
  .of_ok fun s hsound => ⟨_, s, rfl, .refl _, .refl _ _, hsound, rfl, rfl⟩

/-! ### Objects -/

/-- A function that is made fits the scopes that are there, and gives no private names yet. -/
theorem safe_newObject {prototype : Option ObjectRef} {kind : ObjectKind}
    (h : ∀ f, kind = .function f → f.privateMethods = [] ∧ f.Fits st.toStore) :
    (newObject prototype kind).Safe st fun o st' => (st'.heap.get o).kind = kind := by
  refine .of_ok fun s hs hsound => ⟨_, _, rfl,
    State.Follows.still ⟨.pushObject _ _, rfl, rfl, rfl⟩ rfl (.of_keeps rfl (Nat.le_refl _) ?_),
    hsound.toSound.pushObject rfl rfl fun f hf => ⟨(h f hf).1, (h f hf).2.mono hs.toGrows⟩, rfl,
    congrArg ObjectData.kind (s.heap.get_push_next _)⟩
  exact Heap.keepsPrivates_push rfl (ObjectData.instanceNames_eq_nil fun f hf => (h f hf).1)

theorem Tame.newObject {prototype : Option ObjectRef} {kind : ObjectKind}
    (h : ∀ f, kind ≠ .function f) : (newObject prototype kind).Tame :=
  ⟨fun _ => (safe_newObject fun f hf => absurd hf (h f)).any⟩

instance (prototype : Option ObjectRef) : (newObject prototype .ordinary).Tame :=
  .newObject fun _ hf => by cases hf

instance (prototype : Option ObjectRef) : (newObject prototype .error).Tame :=
  .newObject fun _ hf => by cases hf

instance (prototype : Option ObjectRef) : (newObject prototype .arguments).Tame :=
  .newObject fun _ hf => by cases hf

instance (prototype : Option ObjectRef) (p : Primitive) :
    (newObject prototype (.wrapping p)).Tame :=
  .newObject fun _ hf => by cases p <;> cases hf

instance : newOrdinary.Tame := by unfold newOrdinary; infer_instance

theorem Tame.modifyObject {o : ObjectRef} {f : ObjectData → ObjectData}
    (hstays : ∀ data : ObjectData, data.Stays (f data))
    (hevolves : ∀ data : ObjectData, data.Evolves (f data)) : (modifyObject o f).Tame :=
  .of_ok fun s hsound => ⟨_, _, rfl, ⟨.modifyObject (hstays _).toRemains (hevolves _), rfl, rfl, rfl⟩,
    .of_keeps rfl (Nat.le_refl _) (Heap.keepsPrivates_modify (hstays _).privates),
    hsound.modifyObject (hstays (s.heap.get o)), rfl, rfl⟩

theorem Tame.tryObject {o : ObjectRef} {step : ObjectData → Option ObjectData}
    (hstays : ∀ data data', step data = some data' → data.Stays data')
    (hevolves : ∀ data data', step data = some data' → data.Evolves data') :
    (tryObject o step).Tame := by
  refine .of_ok fun s hsound => ?_
  unfold Eval.tryObject
  split
  · next data heq =>
    have hstay := hstays _ _ heq
    exact ⟨_, _, rfl, ⟨.modifyObject hstay.toRemains (hevolves _ _ heq), rfl, rfl, rfl⟩,
      .of_keeps rfl (Nat.le_refl _) (Heap.keepsPrivates_modify hstay.privates),
      hsound.modifyObject hstay, rfl, rfl⟩
  · exact ⟨_, _, rfl, .refl _, .refl _ _, hsound, rfl, rfl⟩

instance (o : ObjectRef) (key : PropertyKey) (d : Descriptor) [d.Coherent] :
    (define o key d).Tame :=
  .tryObject (fun _ _ => ObjectData.stays_define) fun _ _ => ObjectData.evolves_define

instance (o : ObjectRef) (key : PropertyKey) (d : Descriptor) [d.Coherent] :
    (put o key d).Tame := by
  unfold put; infer_instance

instance (o : ObjectRef) (key : PropertyKey) : (delete o key).Tame :=
  .tryObject (fun _ _ => ObjectData.stays_delete) fun _ _ => ObjectData.evolves_delete

instance (o : ObjectRef) : (preventExtensions o).Tame :=
  .modifyObject (fun _ => .of_eq rfl rfl rfl) fun _ => .of_getOwn? (fun _ => rfl) (fun _ => rfl)
    fun _ => rfl

/-- An object that is not extensible accepts only the prototype that it has. -/
instance (o : ObjectRef) (prototype : Option ObjectRef) : (setPrototype o prototype).Tame := by
  refine .of_ok fun s hsound => ?_
  cases haccepts : s.heap.acceptsPrototype o prototype with
  | false =>
    refine ⟨false, s, ?_, .refl _, .refl _ _, hsound, rfl, rfl⟩
    change (if s.heap.acceptsPrototype o prototype = true then _ else _ : Eval Bool) s = _
    rw [haccepts]
    rfl
  | true =>
    let change (data : ObjectData) : ObjectData := { data with prototype }
    have hstay : (s.heap.get o).Stays (change (s.heap.get o)) := .of_eq rfl rfl rfl
    refine ⟨true, { s with heap := s.heap.modify o change }, ?_,
      ⟨.modifyObject hstay.toRemains ?_, rfl, rfl, rfl⟩,
      .of_keeps rfl (Nat.le_refl _) (Heap.keepsPrivates_modify hstay.privates),
      hsound.modifyObject hstay, rfl, rfl⟩
    · change (if s.heap.acceptsPrototype o prototype = true then _ else _ : Eval Bool) s = _
      rw [haccepts]
      rfl
    · refine .of_getOwn? (fun _ => rfl) id fun hfixed => ?_
      simp only [Heap.acceptsPrototype, hfixed, Bool.false_and, Bool.or_false, beq_iff_eq]
        at haccepts
      exact haccepts.symm

/-! ### Errors -/

instance (kind : ErrorKind) (message : String) : (createError kind message).Tame := by
  unfold createError; infer_instance

instance (v : Value) : (throwValue v : Eval α).Tame :=
  ⟨fun _ => .throw⟩

theorem SafeBut.raise {cause : Cause} : (raise cause : Eval α).SafeBut but st Q :=
  .skip fun _ => .throw

/-- Nothing comes after an error. -/
theorem SafeBut.raise_bind {cause : Cause} {f : α → Eval β} {Q : β → State → Prop} :
    (Eval.raise cause >>= f).SafeBut but st Q :=
  .bind (P := fun _ _ => False) .raise fun _ _ _ h => h.elim

instance (cause : Cause) : (raise cause : Eval α).Tame :=
  ⟨fun _ => .raise⟩

instance (r : Except ConversionError α) : (converted r).Tame := by
  cases r with
  | ok a => exact inferInstanceAs (Tame (Pure.pure a))
  | error e => exact inferInstanceAs (Tame (raise _))

/-! ### Scopes and names -/

/-- A scope takes a step that makes it age. -/
theorem leads_modifyScope {s : State} {q : ScopeRef} {f : Environment → Environment}
    {names : Set String} {R : State → Prop} (hs : s.Sound)
    (hextends : (s.scopes.get q).Extends (f (s.scopes.get q)))
    (hsteady : (s.scopes.get q).Steady names (f (s.scopes.get q)))
    (hR : R { s with scopes := s.scopes.modify q f }) :
    LeadsBut (q.names names) s (fun _ => R) (modifyScope q f s) := by
  have hprecedes : s.PrecedesBut (q.names names) { s with scopes := s.scopes.modify q f } :=
    ⟨⟨.modifyScope hextends, rfl, rfl, rfl⟩, Scopes.steady_modify hsteady, .modifyScope hextends⟩
  exact ⟨hprecedes, hs.next hprecedes (hs.toSound.modifyScope hextends) ⟨"", by simp⟩, hR⟩

theorem safe_modifyScope {q : ScopeRef} {f : Environment → Environment} {names : Set String}
    {R : State → Prop}
    (h : ∀ s : State, st.Precedes s → (s.scopes.get q).Extends (f (s.scopes.get q)) ∧
      (s.scopes.get q).Steady names (f (s.scopes.get q)))
    (hR : ∀ s : State, st.Precedes s → R { s with scopes := s.scopes.modify q f }) :
    (modifyScope q f).SafeBut (q.names names) st fun _ => R :=
  fun s hs hsound => leads_modifyScope hsound (h s hs).1 (h s hs).2 (hR s hs)

/-- A scope takes a step that gives no name its first value. -/
theorem leads_modifyScope_empty {s : State} {q : ScopeRef} {f : Environment → Environment}
    (hs : s.Sound) (hextends : (s.scopes.get q).Extends (f (s.scopes.get q)))
    (hsteady : (s.scopes.get q).Steady ∅ (f (s.scopes.get q))) :
    LeadsBut ∅ s (fun _ _ => True) (modifyScope q f s) :=
  q.names_empty ▸ leads_modifyScope (R := fun _ => True) hs hextends hsteady trivial

instance (description : Option Units) : (newSymbol description).Tame :=
  .of_ok fun _ hsound => ⟨_, _, rfl, ⟨.of_eq rfl rfl, rfl, rfl, rfl⟩,
    .of_eq rfl rfl (Nat.le_refl _), hsound.of_eq rfl rfl rfl (Nat.le_refl _), rfl, rfl⟩

instance (text : String) : (write text).Tame where
  safe _ s _ hsound :=
    have hstill : s.Precedes { s with output := s.output ++ text } :=
      State.Follows.still ⟨.of_eq rfl rfl, rfl, rfl, rfl⟩ rfl
        (.of_eq rfl rfl (Nat.le_refl _))
    ⟨hstill, hsound.next hstill (hsound.toSound.of_eq rfl rfl rfl (Nat.le_refl _)) ⟨_, rfl⟩,
      trivial⟩

/-! ### Calls -/

/-- The code runs one call deeper, and the call is left afterwards. -/
theorem SafeBut.inCall
    (h : x.SafeBut but { st with callDepth := st.callDepth + 1 } fun _ _ => True) :
    (inCall x).SafeBut but st fun _ _ => True := by
  intro s hs hsound
  have hback {s' : State}
      (hs' : State.PrecedesBut but { s with callDepth := s.callDepth + 1 } s') :
      s.PrecedesBut but { s' with callDepth := s'.callDepth - 1 } :=
    ⟨⟨hs'.toFollows, hs'.contexts, by simp [hs'.callDepth], hs'.site⟩, hs'.steady,
      hs'.reserves⟩
  simp only [Eval.inCall]
  split
  · exact SafeBut.raise s hs hsound
  · have hx := h { s with callDepth := s.callDepth + 1 }
      ⟨⟨hs.toFollows, hs.contexts, congrArg (· + 1) hs.callDepth, hs.site⟩, hs.steady,
        hs.reserves⟩
      ⟨hsound.toSound, hsound.vigil⟩
    cases heq : x { s with callDepth := s.callDepth + 1 } with
    | ok a s' =>
      rw [heq] at hx
      exact ⟨hback hx.1, ⟨hx.2.1.toSound, hx.2.1.vigil⟩, hx.2.2⟩
    | error e s' =>
      rw [heq] at hx
      exact ⟨hback hx.1, hx.2.toSound, hx.2.vigil⟩

instance [x.Tame] : (inCall x).Tame :=
  ⟨fun _ => .inCall (Tame.safe _)⟩

end Eval

end Ecma
