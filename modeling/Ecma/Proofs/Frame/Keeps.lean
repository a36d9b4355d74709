import Ecma.Proofs.Frame.Mention
import Ecma.Proofs.Object.Walk

/-! Evaluations keep their frame: however they end, they leave the contexts and the depth of calls
as they were, and they lose no object. If references are tracked, they also make no reference to an
object that is not there and no cycle of prototypes, and objects that nothing else refers to stay as
they are. The first part holds in every state, the second one in every closed state; one judgement
covers both, so that the evaluator is gone through once. -/

namespace Ecma

/-- What evaluations are held to: whether references are tracked, and how deep calls may get. -/
structure Regime where
  tracked : Tracking
  depth : Nat
  maxCallDepth_le : Eval.maxCallDepth ≤ depth

/-- What an evaluation leaves as it was. -/
structure State.Frame (s s' : State) : Prop where
  contexts : s'.contexts = s.contexts
  callDepth : s'.callDepth = s.callDepth
  size : s.heap.objects.size ≤ s'.heap.objects.size

/-- A store whose references all lead to objects, and in which every walk along prototypes ends. -/
structure Store.Closed (st : Store) : Prop where
  intrinsics : Intrinsic.globalObject.index < st.heap.objects.size
  objects : ∀ o, Within st.heap.objects.size (st.heap.get o)
  scopes : ∀ q, Within st.heap.objects.size (st.scopes.get q)
  grounded : st.heap.Grounded

/-- A store that obeys a tracking: it is closed, and only hidden objects refer to hidden ones. -/
structure Store.Obeys (t : Tracking) (st : Store) : Prop extends st.Closed where
  hidden_lt : ∀ o, t.hidden o → o.index < st.heap.objects.size
  seen_objects : ∀ o p, ¬t.hidden o → Mentions.mentions (st.heap.get o) p → ¬t.hidden p
  seen_scopes : ∀ q p, Mentions.mentions (st.scopes.get q) p → ¬t.hidden p

/-- What a step keeps: the tracking is obeyed, and hidden objects are as they were. -/
structure Tracking.Kept (t : Tracking) (st st' : Store) : Prop where
  obeys : st'.Obeys t
  hidden : ∀ o, t.hidden o → st'.heap.get o = st.heap.get o

theorem State.Frame.refl (s : State) : s.Frame s :=
  ⟨rfl, rfl, Nat.le_refl _⟩

theorem State.Frame.trans {s₁ s₂ s₃ : State} (h₁ : s₁.Frame s₂) (h₂ : s₂.Frame s₃) : s₁.Frame s₃ :=
  ⟨h₂.contexts.trans h₁.contexts, h₂.callDepth.trans h₁.callDepth, Nat.le_trans h₁.size h₂.size⟩

/-- The intrinsic objects are in a closed store, as all others that it mentions are. -/
theorem Store.Closed.lt {st : Store} (h : st.Closed) {α : Type} [Mentions α] {a : α} {o : ObjectRef}
    (ha : Within st.heap.objects.size a) (ho : Mentions.mentions a o) :
    o.index < st.heap.objects.size :=
  (ha o ho).elim id fun hle => Nat.lt_of_le_of_lt hle h.intrinsics

theorem Store.Closed.linked {st : Store} (h : st.Closed) : st.heap.Linked :=
  fun o p hp => h.lt (h.objects o) (o := p) (.inl ⟨p, hp, rfl⟩)

namespace Store.Closed

variable {st st' : Store}

theorem of_eq (h : st.Closed) (hheap : st'.heap = st.heap) (hscopes : st'.scopes = st.scopes) :
    st'.Closed := by
  obtain ⟨intrinsics, objects, scopes, grounded⟩ := h
  rw [← hheap] at intrinsics objects scopes grounded
  rw [← hscopes] at scopes
  exact ⟨intrinsics, objects, scopes, grounded⟩

theorem pushObject (h : st.Closed) {data : ObjectData}
    (hdata : Within st.heap.objects.size data) :
    Store.Closed { st with heap := st.heap.push data } where
  intrinsics := by simpa using Nat.lt_succ_of_lt h.intrinsics
  objects o := by
    rw [Heap.size_push]
    obtain heq | ⟨-, heq⟩ := st.heap.get_push_cases data o <;> rw [heq]
    · exact (h.objects o).mono (Nat.le_succ _)
    · exact hdata.mono (Nat.le_succ _)
  scopes q := by
    rw [Heap.size_push]
    exact (h.scopes q).mono (Nat.le_succ _)
  grounded := h.grounded.push h.linked fun p hp => h.lt hdata (o := p) (.inl ⟨p, hp, rfl⟩)

theorem modifyObject (h : st.Closed) {o : ObjectRef} {f : ObjectData → ObjectData}
    (hf : Within st.heap.objects.size (f (st.heap.get o)))
    (hgrounded : (st.heap.modify o f).Grounded) :
    Store.Closed { st with heap := st.heap.modify o f } where
  intrinsics := by simpa using h.intrinsics
  objects p := by
    rw [Heap.size_modify]
    obtain heq | ⟨rfl, heq⟩ := st.heap.get_modify_cases o f p <;> rw [heq]
    · exact h.objects p
    · exact hf
  scopes q := by
    rw [Heap.size_modify]
    exact h.scopes q
  grounded := hgrounded

/-- A prototype that is accepted makes no cycle: the walk from it does not come to the object. -/
theorem setPrototype (h : st.Closed) {o : ObjectRef} {prototype : Option ObjectRef}
    (hprototype : Within st.heap.objects.size prototype)
    (haccepts : st.heap.acceptsPrototype o prototype = true) :
    Store.Closed
      { st with heap := st.heap.modify o fun data => { data with prototype } } := by
  refine h.modifyObject ?_ ?_
  · have hobject := h.objects o
    rintro p (hp | hp)
    · exact hprototype p hp
    · exact hobject p (.inr hp)
  · simp only [Heap.acceptsPrototype, Bool.or_eq_true, Bool.and_eq_true, beq_iff_eq] at haccepts
    rcases haccepts with hsame | ⟨-, haway⟩
    · refine h.grounded.congr fun p => ?_
      obtain heq | ⟨rfl, heq⟩ :=
        st.heap.get_modify_cases o (fun data => { data with prototype }) p <;> rw [heq]
      exact hsame.symm
    · have hstart : ∀ p ∈ prototype, p.index < st.heap.objects.size :=
        fun p hp => h.lt hprototype ⟨p, hp, rfl⟩
      have hwalk := Heap.walk_chain h.linked h.grounded hstart
      exact h.grounded.modify hwalk (by simpa using haway) fun _ => rfl

theorem pushScope (h : st.Closed) {e : Environment} (he : Within st.heap.objects.size e) :
    Store.Closed { st with scopes := st.scopes.push e } where
  __ := h
  scopes q := by
    dsimp only
    obtain heq | ⟨-, -, heq⟩ := st.scopes.get_push_cases e q <;> rw [heq]
    · exact h.scopes q
    · exact he

theorem modifyScope (h : st.Closed) {q : ScopeRef} {f : Environment → Environment}
    (hf : Within st.heap.objects.size (f (st.scopes.get q))) :
    Store.Closed { st with scopes := st.scopes.modify q f } where
  __ := h
  scopes p := by
    dsimp only
    obtain heq | ⟨rfl, heq⟩ := st.scopes.get_modify_cases q f p <;> rw [heq]
    · exact h.scopes p
    · exact hf

end Store.Closed

/-- Nothing is hidden in a store that is only closed. -/
theorem Store.Closed.obeys {st : Store} (h : st.Closed) : st.Obeys .full where
  toClosed := h
  hidden_lt _ := False.elim
  seen_objects _ _ _ _ := id
  seen_scopes _ _ _ := id

namespace Store.Obeys

variable {t : Tracking} {st st' : Store}

theorem get_within (h : st.Obeys t) {o : ObjectRef} (ho : ¬t.hidden o) :
    t.Within st.heap.objects.size (st.heap.get o) :=
  fun p hp => ⟨h.objects o p hp, h.seen_objects o p ho hp⟩

theorem scope_within (h : st.Obeys t) (q : ScopeRef) :
    t.Within st.heap.objects.size (st.scopes.get q) :=
  fun p hp => ⟨h.scopes q p hp, h.seen_scopes q p hp⟩

theorem kept (h : st.Obeys t) (hheap : st'.heap = st.heap) (hscopes : st'.scopes = st.scopes) :
    t.Kept st st' where
  obeys :=
    { toClosed := h.of_eq hheap hscopes
      hidden_lt := hheap ▸ h.hidden_lt
      seen_objects := hheap ▸ h.seen_objects
      seen_scopes := hscopes ▸ h.seen_scopes }
  hidden _ _ := by rw [hheap]

theorem pushObject (h : st.Obeys t) {data : ObjectData}
    (hdata : t.Within st.heap.objects.size data) :
    t.Kept st { st with heap := st.heap.push data } where
  obeys :=
    { toClosed := h.toClosed.pushObject hdata.there
      hidden_lt := fun o ho => by simpa using Nat.lt_succ_of_lt (h.hidden_lt o ho)
      seen_objects := fun o p ho hp => by
        obtain heq | ⟨-, heq⟩ := st.heap.get_push_cases data o <;> rw [heq] at hp
        · exact h.seen_objects o p ho hp
        · exact (hdata p hp).2
      seen_scopes := h.seen_scopes }
  hidden o ho := st.heap.get_push_of_lt (h.hidden_lt o ho) data

theorem modifyObject (h : st.Obeys t) {o : ObjectRef} (ho : ¬t.hidden o)
    {f : ObjectData → ObjectData} (hf : t.Within st.heap.objects.size (f (st.heap.get o)))
    (hclosed : Store.Closed { st with heap := st.heap.modify o f }) :
    t.Kept st { st with heap := st.heap.modify o f } where
  obeys :=
    { toClosed := hclosed
      hidden_lt := fun p hp => by simpa using h.hidden_lt p hp
      seen_objects := fun p q hp hq => by
        obtain heq | ⟨rfl, heq⟩ := st.heap.get_modify_cases o f p <;> rw [heq] at hq
        · exact h.seen_objects p q hp hq
        · exact (hf q hq).2
      seen_scopes := h.seen_scopes }
  hidden p hp := by
    obtain heq | ⟨rfl, -⟩ := st.heap.get_modify_cases o f p
    · exact heq
    · exact absurd hp ho

theorem pushScope (h : st.Obeys t) {e : Environment} (he : t.Within st.heap.objects.size e) :
    t.Kept st { st with scopes := st.scopes.push e } where
  obeys :=
    { toClosed := h.toClosed.pushScope he.there
      hidden_lt := h.hidden_lt
      seen_objects := h.seen_objects
      seen_scopes := fun q p hp => by
        obtain heq | ⟨-, -, heq⟩ := st.scopes.get_push_cases e q <;> rw [heq] at hp
        · exact h.seen_scopes q p hp
        · exact (he p hp).2 }
  hidden _ _ := rfl

theorem modifyScope (h : st.Obeys t) {q : ScopeRef} {f : Environment → Environment}
    (hf : t.Within st.heap.objects.size (f (st.scopes.get q))) :
    t.Kept st { st with scopes := st.scopes.modify q f } where
  obeys :=
    { toClosed := h.toClosed.modifyScope hf.there
      hidden_lt := h.hidden_lt
      seen_objects := h.seen_objects
      seen_scopes := fun r p hp => by
        obtain heq | ⟨rfl, heq⟩ := st.scopes.get_modify_cases q f r <;> rw [heq] at hp
        · exact h.seen_scopes r p hp
        · exact (hf p hp).2 }
  hidden _ _ := rfl

/-- Nothing hidden is on the chain of an object that is not hidden. -/
theorem not_hidden_of_mem_chain (h : st.Obeys t) {start : Option ObjectRef}
    (hstart : ∀ o ∈ start, ¬t.hidden o) (fuel : Nat) :
    ∀ p ∈ st.heap.chainFrom fuel start, ¬t.hidden p := by
  induction fuel generalizing start with
  | zero => simp [Heap.chainFrom]
  | succ fuel ih =>
    cases start with
    | none => simp [Heap.chainFrom]
    | some o =>
      have ho := hstart o rfl
      rw [Heap.chainFrom, List.forall_mem_cons]
      exact ⟨ho, ih fun p hp => h.seen_objects o p ho (.inl ⟨p, hp, rfl⟩)⟩

end Store.Obeys

theorem Tracking.Kept.trans {t : Tracking} {st₁ st₂ st₃ : Store} (h₁ : t.Kept st₁ st₂)
    (h₂ : t.Kept st₂ st₃) : t.Kept st₁ st₃ :=
  ⟨h₂.obeys, fun o ho => (h₂.hidden o ho).trans (h₁.hidden o ho)⟩

namespace Eval

variable {ρ : Regime} {n m : Nat} {α β : Type} [Mentions α] [Mentions β] {x : Eval α}

/-- An outcome that keeps the frame of a state. -/
def Frames (ρ : Regime) (s : State) : EStateM.Result Abrupt State α → Prop
  | .ok a s' => s.Frame s' ∧
    (ρ.tracked.on → ρ.tracked.Kept s.toStore s'.toStore ∧ ρ.tracked.Within s'.heap.objects.size a)
  | .error e s' => s.Frame s' ∧
    (ρ.tracked.on → ρ.tracked.Kept s.toStore s'.toStore ∧ ρ.tracked.Within s'.heap.objects.size e)

/-- A state with at least `n` objects that evaluations may start from. -/
structure Starts (ρ : Regime) (n : Nat) (s : State) : Prop where
  size : n ≤ s.heap.objects.size
  depth : s.callDepth ≤ ρ.depth
  obeys : ρ.tracked.on → s.toStore.Obeys ρ.tracked

/-- From every state with at least `n` objects, the evaluation keeps its frame. -/
class Keeps (ρ : Regime) (n : Nat) (x : Eval α) : Prop where
  frames : ∀ s : State, Starts ρ n s → Frames ρ s (x s)

/-! ### Rules -/

theorem Frames.after {s s' : State} {result : EStateM.Result Abrupt State α} (hs : s.Frame s')
    (hkept : ρ.tracked.on → ρ.tracked.Kept s.toStore s'.toStore) (h : Frames ρ s' result) :
    Frames ρ s result := by
  cases result with
  | ok a s'' => exact ⟨hs.trans h.1, fun ht => (h.2 ht).imp_left (hkept ht).trans⟩
  | error e s'' => exact ⟨hs.trans h.1, fun ht => (h.2 ht).imp_left (hkept ht).trans⟩

/-- Evaluations may start from what they leave. -/
theorem Starts.next {s s' : State} (hs : Starts ρ n s) (hframe : s.Frame s')
    (hkept : ρ.tracked.on → ρ.tracked.Kept s.toStore s'.toStore) :
    Starts ρ s'.heap.objects.size s' :=
  ⟨Nat.le_refl _, hframe.callDepth ▸ hs.depth, fun ht => (hkept ht).obeys⟩

/-- A step without exceptions. -/
theorem Keeps.of_ok (h : ∀ s : State, n ≤ s.heap.objects.size →
    (ρ.tracked.on → s.toStore.Obeys ρ.tracked) → ∃ a s', x s = .ok a s' ∧ s.Frame s' ∧
      (ρ.tracked.on → ρ.tracked.Kept s.toStore s'.toStore ∧
        ρ.tracked.Within s'.heap.objects.size a)) : x.Keeps ρ n := by
  refine ⟨fun s hs => ?_⟩
  obtain ⟨a, s', heq, hpost⟩ := h s hs.size hs.obeys
  rw [heq]
  exact hpost

instance {a : α} [ha : Known ρ.tracked n a] : (pure a : Eval α).Keeps ρ n :=
  .of_ok fun s hn hs =>
    ⟨a, s, rfl, .refl s, fun ht => ⟨(hs ht).kept rfl rfl, (ha.within ht).mono hn⟩⟩

instance {e : Abrupt} [he : Known ρ.tracked n e] : (throw e : Eval α).Keeps ρ n :=
  ⟨fun s hs =>
    ⟨.refl s, fun ht => ⟨(hs.obeys ht).kept rfl rfl, (he.within ht).mono hs.size⟩⟩⟩

/-- What comes after a step starts with at least as many objects, among them those that its value
mentions. -/
theorem Keeps.bind {f : α → Eval β} [hx : x.Keeps ρ n]
    (hf : ∀ m [Later n m] a [Known ρ.tracked m a], (f a).Keeps ρ m) :
    (x >>= f).Keeps ρ n := by
  refine ⟨fun s hs => ?_⟩
  have hfirst := hx.frames s hs
  change Frames ρ s (EStateM.bind x f s)
  unfold EStateM.bind
  cases heq : x s with
  | ok a s' =>
    rw [heq] at hfirst
    have : Later n s'.heap.objects.size := ⟨Nat.le_trans hs.size hfirst.1.size⟩
    have : Known ρ.tracked s'.heap.objects.size a := ⟨fun ht => (hfirst.2 ht).2⟩
    have hrest := hf s'.heap.objects.size a
    have hkept ht := (hfirst.2 ht).1
    exact (hrest.frames s' (hs.next hfirst.1 hkept)).after hfirst.1 hkept
  | error e s' =>
    rw [heq] at hfirst
    exact hfirst

instance {f : α → Eval β} [x.Keeps ρ n]
    [hf : ∀ (m : Size n) (a : Given ρ.tracked m.val α), (f a.data).Keeps ρ m.val] :
    (x >>= f).Keeps ρ n :=
  .bind fun m hm a ha => hf ⟨m, hm.le⟩ ⟨a, ha⟩

theorem Keeps.map {f : α → β} [hx : x.Keeps ρ n]
    (hf : ∀ m [Later n m] a [Known ρ.tracked m a], Known ρ.tracked m (f a)) :
    (f <$> x).Keeps ρ n := by
  have : (x >>= fun a => pure (f a)).Keeps ρ n := .bind fun m _ a _ =>
    have := hf m a
    inferInstance
  refine ⟨fun s hs => ?_⟩
  have heq : (f <$> x) s = (x >>= fun a => pure (f a)) s := by
    change EStateM.map f x s = EStateM.bind x (fun a => pure (f a)) s
    unfold EStateM.map EStateM.bind
    cases x s <;> rfl
  rw [heq]
  exact this.frames s hs

instance {f : α → β} [x.Keeps ρ n]
    [hf : ∀ (m : Size n) (a : Given ρ.tracked m.val α), Known ρ.tracked m.val (f a.data)] :
    (f <$> x).Keeps ρ n :=
  .map fun m hm a ha => hf ⟨m, hm.le⟩ ⟨a, ha⟩

instance [x.Keeps ρ n] : (discard x : Eval PUnit).Keeps ρ n :=
  inferInstanceAs (Keeps ρ n (Function.const α PUnit.unit <$> x))

instance {b : Prop} [Decidable b] {y : Eval α} [x.Keeps ρ n] [y.Keeps ρ n] :
    (if b then x else y).Keeps ρ n := by
  split <;> infer_instance

theorem Keeps.catching {handler : Value → Eval α} [hx : x.Keeps ρ n]
    (hh : ∀ m [Later n m] v [Known ρ.tracked m v], (handler v).Keeps ρ m) :
    (catching x handler).Keeps ρ n := by
  refine ⟨fun s hs => ?_⟩
  have hfirst := hx.frames s hs
  simp only [Eval.catching]
  cases heq : x s with
  | ok a s' =>
    rw [heq] at hfirst
    exact hfirst
  | error e s' =>
    rw [heq] at hfirst
    cases e with
    | exhausted | escaped ending => exact hfirst
    | thrown v =>
      have : Later n s'.heap.objects.size := ⟨Nat.le_trans hs.size hfirst.1.size⟩
      have : Known ρ.tracked s'.heap.objects.size v := ⟨fun ht => (hfirst.2 ht).2⟩
      have hrest := hh s'.heap.objects.size v
      have hkept ht := (hfirst.2 ht).1
      exact (hrest.frames s' (hs.next hfirst.1 hkept)).after hfirst.1 hkept

instance {handler : Value → Eval α} [x.Keeps ρ n]
    [hh : ∀ (m : Size n) (v : Given ρ.tracked m.val Value), (handler v.data).Keeps ρ m.val] :
    (Eval.catching x handler).Keeps ρ n :=
  .catching fun m hm v hv => hh ⟨m, hm.le⟩ ⟨v, hv⟩

theorem Keeps.onEscape {handler : Completion → Eval α} [hx : x.Keeps ρ n]
    (hh : ∀ m [Later n m] c [Known ρ.tracked m c], (handler c).Keeps ρ m) :
    (onEscape x handler).Keeps ρ n := by
  refine ⟨fun s hs => ?_⟩
  have hfirst := hx.frames s hs
  simp only [Eval.onEscape]
  cases heq : x s with
  | ok a s' =>
    rw [heq] at hfirst
    exact hfirst
  | error e s' =>
    rw [heq] at hfirst
    cases e with
    | exhausted | thrown v => exact hfirst
    | escaped ending =>
      have : Later n s'.heap.objects.size := ⟨Nat.le_trans hs.size hfirst.1.size⟩
      have : Known ρ.tracked s'.heap.objects.size ending := ⟨fun ht => (hfirst.2 ht).2⟩
      have hrest := hh s'.heap.objects.size ending
      have hkept ht := (hfirst.2 ht).1
      exact (hrest.frames s' (hs.next hfirst.1 hkept)).after hfirst.1 hkept

instance {handler : Completion → Eval α} [x.Keeps ρ n]
    [hh : ∀ (m : Size n) (c : Given ρ.tracked m.val Completion), (handler c.data).Keeps ρ m.val] :
    (Eval.onEscape x handler).Keeps ρ n :=
  .onEscape fun m hm c hc => hh ⟨m, hm.le⟩ ⟨c, hc⟩

/-- Entering a context and leaving it cancel out, as the code between them is balanced itself. -/
instance {c : Context} [hx : x.Keeps ρ n] : (inContext c x).Keeps ρ n := by
  refine ⟨fun s hs => ?_⟩
  have h := hx.frames { s with contexts := c :: s.contexts } ⟨hs.size, hs.depth, hs.obeys⟩
  simp only [Eval.inContext]
  cases heq : x { s with contexts := c :: s.contexts } <;>
    (rw [heq] at h; exact ⟨⟨congrArg List.tail h.1.contexts, h.1.callDepth, h.1.size⟩, h.2⟩)

theorem Keeps.atSite {l : Site} (hx : x.Keeps ρ n) : (atSite l x).Keeps ρ n := by
  refine ⟨fun s hs => ?_⟩
  have h := hx.frames { s with site := l } ⟨hs.size, hs.depth, hs.obeys⟩
  simp only [Eval.atSite]
  cases heq : x { s with site := l } <;>
    (rw [heq] at h; exact ⟨⟨h.1.contexts, h.1.callDepth, h.1.size⟩, h.2⟩)

instance {l : Site} [hx : x.Keeps ρ n] : (atSite l x).Keeps ρ n :=
  hx.atSite

instance [x.Keeps ρ n] : (attempt x).Keeps ρ n := by
  unfold attempt; infer_instance

/-! ### Repetition -/

/-- Every turn of a loop knows what the last one knew. -/
theorem Keeps.loop {turn : α → Eval (Turn α β)}
    (h : ∀ m [Later n m] a [Known ρ.tracked m a], (turn a).Keeps ρ m) (fuel : Nat) {a : α}
    [ha : Known ρ.tracked n a] : (loop turn fuel a).Keeps ρ n := by
  induction fuel generalizing n a with
  | zero => exact inferInstanceAs (Keeps ρ n (throw Abrupt.exhausted))
  | succ fuel ih =>
    have := @h n (.refl n) a ha
    refine .bind fun m hm t ht => ?_
    cases t with
    | done b =>
      have := ht.done
      infer_instance
    | again a' =>
      have := ht.again
      exact ih fun k hk => @h k (hm.trans hk)

theorem Keeps.forM {xs : List α} {f : α → Eval PUnit} [hxs : Known ρ.tracked n xs]
    (hf : ∀ m [Later n m] a [Known ρ.tracked m a], (f a).Keeps ρ m) :
    (xs.forM f).Keeps ρ n := by
  induction xs generalizing n with
  | nil => exact inferInstanceAs (Keeps ρ n (Pure.pure PUnit.unit))
  | cons a rest ih =>
    have := @hf n (.refl n) a (hxs.of_mem List.mem_cons_self)
    have : Known ρ.tracked n rest := hxs.of_subset (List.subset_cons_self a rest)
    exact .bind fun m hm _ _ => ih fun k hk => @hf k (hm.trans hk)

instance {xs : List α} {f : α → Eval PUnit} [Known ρ.tracked n xs]
    [hf : ∀ (m : Size n) (a : Given ρ.tracked m.val α), (f a.data).Keeps ρ m.val] :
    (xs.forM f).Keeps ρ n :=
  .forM fun m hm a ha => hf ⟨m, hm.le⟩ ⟨a, ha⟩

theorem Keeps.mapM {xs : List α} {f : α → Eval β} [hxs : Known ρ.tracked n xs]
    (hf : ∀ m [Later n m] a [Known ρ.tracked m a], (f a).Keeps ρ m) :
    (xs.mapM f).Keeps ρ n := by
  induction xs generalizing n with
  | nil => exact inferInstanceAs (Keeps ρ n (Pure.pure []))
  | cons a rest ih =>
    have := @hf n (.refl n) a (hxs.of_mem List.mem_cons_self)
    have : Known ρ.tracked n rest := hxs.of_subset (List.subset_cons_self a rest)
    rw [List.mapM_cons]
    refine .bind fun m hm b _ => ?_
    have : (rest.mapM f).Keeps ρ m := ih fun k hk => @hf k (hm.trans hk)
    infer_instance

instance {xs : List α} {f : α → Eval β} [Known ρ.tracked n xs]
    [hf : ∀ (m : Size n) (a : Given ρ.tracked m.val α), (f a.data).Keeps ρ m.val] :
    (xs.mapM f).Keeps ρ n :=
  .mapM fun m hm a ha => hf ⟨m, hm.le⟩ ⟨a, ha⟩

theorem Keeps.foldlM {xs : List α} {f : β → α → Eval β} {b : β} [hxs : Known ρ.tracked n xs]
    [hb : Known ρ.tracked n b]
    (hf : ∀ m [Later n m] b [Known ρ.tracked m b] a [Known ρ.tracked m a], (f b a).Keeps ρ m) :
    (xs.foldlM f b).Keeps ρ n := by
  induction xs generalizing n b with
  | nil => exact inferInstanceAs (Keeps ρ n (Pure.pure b))
  | cons a rest ih =>
    have := @hf n (.refl n) b hb a (hxs.of_mem List.mem_cons_self)
    have : Known ρ.tracked n rest := hxs.of_subset (List.subset_cons_self a rest)
    rw [List.foldlM_cons]
    exact .bind fun m hm _ _ => ih fun k hk => @hf k (hm.trans hk)

instance {a : Option α} {f : α → Eval PUnit} [ha : Known ρ.tracked n a]
    [hf : ∀ a : Given ρ.tracked n α, (f a.data).Keeps ρ n] : (a.forM f).Keeps ρ n := by
  cases a with
  | none => exact inferInstanceAs (Keeps ρ n (Pure.pure PUnit.unit))
  | some a => exact hf ⟨a, ha.of_some⟩

instance {a : Option α} {f : α → Eval β} [ha : Known ρ.tracked n a]
    [hf : ∀ a : Given ρ.tracked n α, (f a.data).Keeps ρ n] : (a.mapM f).Keeps ρ n := by
  cases a with
  | none => exact inferInstanceAs (Keeps ρ n (Pure.pure none))
  | some a =>
    have := hf ⟨a, ha.of_some⟩
    exact inferInstanceAs (Keeps ρ n (some <$> f a))

/-! ### Reading -/

end Eval

/-- A store with at least `n` objects, which obeys the tracking. -/
structure Snapshot (tracked : Tracking) (n : Nat) where
  store : Store
  size : n ≤ store.heap.objects.size
  obeys : tracked.on → store.Obeys tracked

namespace Snapshot

variable {ρ : Regime} {n : Nat} (t : Snapshot ρ.tracked n)

instance : Later n t.store.heap.objects.size := ⟨t.size⟩

variable (o : ObjectRef) [ho : Known ρ.tracked t.store.heap.objects.size o]

instance : Known ρ.tracked t.store.heap.objects.size (t.store.heap.get o) :=
  ⟨fun ht => (t.obeys ht).get_within (ho.not_hidden ht)⟩

instance (q : ScopeRef) : Known ρ.tracked t.store.heap.objects.size (t.store.scopes.get q) :=
  ⟨fun ht => (t.obeys ht).scope_within q⟩

instance (key : PropertyKey) :
    Known ρ.tracked t.store.heap.objects.size (t.store.heap.getOwn? o key) := by
  unfold Heap.getOwn?; infer_instance

instance (key : PropertyKey) :
    Known ρ.tracked t.store.heap.objects.size (t.store.heap.find? o key) := by
  have hchain (ht : ρ.tracked.on) : ∀ p ∈ t.store.heap.chain (some o), ¬ρ.tracked.hidden p :=
    (t.obeys ht).not_hidden_of_mem_chain (fun p hp => Option.some.inj hp ▸ ho.not_hidden ht) _
  unfold Heap.find?
  generalize t.store.heap.chain (some o) = chain at hchain
  induction chain with
  | nil => exact inferInstanceAs (Known _ _ none)
  | cons p rest ih =>
    have hfirst : Known ρ.tracked t.store.heap.objects.size (t.store.heap.get p) :=
      ⟨fun ht => (t.obeys ht).get_within (hchain ht p List.mem_cons_self)⟩
    have hown : Known ρ.tracked t.store.heap.objects.size (t.store.heap.getOwn? p key) := by
      unfold Heap.getOwn?; infer_instance
    rw [List.findSome?_cons]
    split
    · next heq => exact heq ▸ hown
    · exact ih fun ht q hq => hchain ht q (List.mem_cons_of_mem _ hq)

instance : Known ρ.tracked t.store.heap.objects.size (t.store.heap.scriptFunction? o) := by
  have hkind : Known ρ.tracked t.store.heap.objects.size (t.store.heap.get o).kind := inferInstance
  unfold Heap.scriptFunction?
  split
  · next heq =>
    rw [heq] at hkind
    have := hkind.script
    infer_instance
  · infer_instance

end Snapshot

namespace Eval

variable {ρ : Regime} {n m : Nat} {α β : Type} [Mentions α] [Mentions β] {x : Eval α}

instance {f : Heap → α}
    [hf : ∀ t : Snapshot ρ.tracked n, Known ρ.tracked t.store.heap.objects.size (f t.store.heap)] :
    (heap f).Keeps ρ n :=
  .of_ok fun s hn hs => ⟨_, s, rfl, .refl s, fun ht =>
    ⟨(hs ht).kept rfl rfl, (hf ⟨s.toStore, hn, hs⟩).within ht⟩⟩

instance {f : Scopes → α}
    [hf : ∀ t : Snapshot ρ.tracked n, Known ρ.tracked t.store.heap.objects.size (f t.store.scopes)] :
    (scopes f).Keeps ρ n :=
  .of_ok fun s hn hs => ⟨_, s, rfl, .refl s, fun ht =>
    ⟨(hs ht).kept rfl rfl, (hf ⟨s.toStore, hn, hs⟩).within ht⟩⟩

instance : isStrict.Keeps ρ n :=
  .of_ok fun s _ hs =>
    ⟨_, s, rfl, .refl s, fun ht => ⟨(hs ht).kept rfl rfl, .of_unlinked⟩⟩

instance : site.Keeps ρ n :=
  .of_ok fun s _ hs =>
    ⟨_, s, rfl, .refl s, fun ht => ⟨(hs ht).kept rfl rfl, .of_unlinked⟩⟩

instance {a : Around} {q : ScopeRef} {x : Eval α} [hx : ∀ m : Size n, x.Keeps ρ m.val] :
    (within a q x).Keeps ρ n := by
  refine .bind fun m hm l _ => ?_
  have := hx ⟨m, hm.le⟩
  infer_instance

/-! ### Objects -/

instance {data : ObjectData} [hdata : Known ρ.tracked n data] : (alloc data).Keeps ρ n := by
  refine .of_ok fun s hn hs => ⟨_, _, rfl, ⟨rfl, rfl, by simp⟩, fun ht => ⟨?_, ?_⟩⟩
  · exact (hs ht).pushObject ((hdata.within ht).mono hn)
  · rintro o rfl
    exact ⟨.inl (by simp [Heap.next]), fun ho => Nat.lt_irrefl _ ((hs ht).hidden_lt _ ho)⟩

instance {prototype : Option ObjectRef} {kind : ObjectKind} [Known ρ.tracked n prototype]
    [Known ρ.tracked n kind] : (newObject prototype kind).Keeps ρ n := by
  unfold newObject; infer_instance

instance : newOrdinary.Keeps ρ n := by unfold newOrdinary; infer_instance

/-- A change of an object that leaves its prototype. -/
theorem Keeps.modifyObject {o : ObjectRef} [ho : Known ρ.tracked n o]
    {f : ObjectData → ObjectData}
    (hprototype : ∀ data, (f data).prototype = data.prototype)
    (hf : ∀ m [Later n m] data [Known ρ.tracked m data], Known ρ.tracked m (f data)) :
    (modifyObject o f).Keeps ρ n := by
  refine .of_ok fun s hn hs => ⟨_, _, rfl, ⟨rfl, rfl, by simp⟩, fun ht => ⟨?_, .of_unlinked⟩⟩
  have hseen ht : ¬ρ.tracked.hidden o := ho.not_hidden ht
  have hknown := @hf s.heap.objects.size ⟨hn⟩ (s.heap.get o)
    ⟨fun ht => (hs ht).get_within (hseen ht)⟩
  refine (hs ht).modifyObject (hseen ht) (hknown.within ht) ?_
  refine (hs ht).toClosed.modifyObject (hknown.within ht).there ((hs ht).grounded.congr fun p => ?_)
  obtain heq | ⟨-, heq⟩ := s.heap.get_modify_cases o f p <;> rw [heq]
  exact hprototype _

theorem Keeps.tryObject {o : ObjectRef} [ho : Known ρ.tracked n o]
    {step : ObjectData → Option ObjectData}
    (hprototype : ∀ data data', step data = some data' → data'.prototype = data.prototype)
    (hstep : ∀ m [Later n m] data [Known ρ.tracked m data], Known ρ.tracked m (step data)) :
    (tryObject o step).Keeps ρ n := by
  refine .of_ok fun s hn hs => ?_
  have hseen ht : ¬ρ.tracked.hidden o := ho.not_hidden ht
  have hknown := @hstep s.heap.objects.size ⟨hn⟩ (s.heap.get o)
    ⟨fun ht => (hs ht).get_within (hseen ht)⟩
  unfold Eval.tryObject
  cases hdata : step (s.heap.get o) with
  | none => exact ⟨_, _, rfl, .refl s, fun ht => ⟨(hs ht).kept rfl rfl, .of_unlinked⟩⟩
  | some data =>
    rw [hdata] at hknown
    refine ⟨_, _, rfl, ⟨rfl, rfl, by simp⟩, fun ht => ⟨?_, .of_unlinked⟩⟩
    have hdata' := hknown.of_some.within ht
    refine (hs ht).modifyObject (hseen ht) hdata' ?_
    refine (hs ht).toClosed.modifyObject hdata'.there ((hs ht).grounded.congr fun p => ?_)
    obtain heq | ⟨rfl, heq⟩ := s.heap.get_modify_cases o (fun _ => data) p <;> rw [heq]
    exact hprototype _ _ hdata

theorem prototype_of_define {data data' : ObjectData} {key : PropertyKey} {d : Descriptor}
    (h : data.define key d = some data') : data'.prototype = data.prototype := by
  unfold ObjectData.define at h
  repeat' split at h
  all_goals first
    | cases h; rfl
    | cases h

theorem prototype_of_delete {data data' : ObjectData} {key : PropertyKey}
    (h : data.delete key = some data') : data'.prototype = data.prototype := by
  unfold ObjectData.delete at h
  repeat' split at h
  all_goals first
    | cases h; rfl
    | cases h

instance {o : ObjectRef} {key : PropertyKey} {d : Descriptor} [Known ρ.tracked n o]
    [Known ρ.tracked n d] : (define o key d).Keeps ρ n :=
  .tryObject (fun _ _ => prototype_of_define) fun _ _ _ _ => inferInstance

instance {o : ObjectRef} {key : PropertyKey} {d : Descriptor} [Known ρ.tracked n o]
    [Known ρ.tracked n d] : (put o key d).Keeps ρ n := by
  unfold put; infer_instance

instance {o : ObjectRef} {key : PropertyKey} [Known ρ.tracked n o] : (delete o key).Keeps ρ n :=
  .tryObject (fun _ _ => prototype_of_delete) fun _ _ _ _ => inferInstance

instance {o : ObjectRef} [Known ρ.tracked n o] : (preventExtensions o).Keeps ρ n :=
  .modifyObject (fun _ => rfl) fun _ _ _ _ => inferInstance

theorem setPrototype_apply (o : ObjectRef) (prototype : Option ObjectRef) (s : State) :
    setPrototype o prototype s = if s.heap.acceptsPrototype o prototype then
      .ok true { s with heap := s.heap.modify o fun data => { data with prototype } }
    else .ok false s := by
  change (if s.heap.acceptsPrototype o prototype = true then _ else _ : Eval Bool) s = _
  split <;> rfl

instance {o : ObjectRef} {prototype : Option ObjectRef} [ho : Known ρ.tracked n o]
    [hprototype : Known ρ.tracked n prototype] : (setPrototype o prototype).Keeps ρ n := by
  refine .of_ok fun s hn hs => ?_
  rw [setPrototype_apply]
  split
  · next haccepts =>
    refine ⟨_, _, rfl, ⟨rfl, rfl, by simp⟩, fun ht => ⟨?_, .of_unlinked⟩⟩
    have hseen := ho.not_hidden ht
    have hknown := (hprototype.within ht).mono hn
    refine (hs ht).modifyObject hseen ?_ ((hs ht).toClosed.setPrototype hknown.there haccepts)
    have hobject := (hs ht).get_within hseen
    rintro p (hp | hp)
    · exact hknown p hp
    · exact hobject p (.inr hp)
  · exact ⟨_, _, rfl, .refl s, fun ht => ⟨(hs ht).kept rfl rfl, .of_unlinked⟩⟩

/-! ### Errors -/

instance {kind : ErrorKind} {message : String} : (createError kind message).Keeps ρ n := by
  unfold createError; infer_instance

instance {v : Value} [Known ρ.tracked n v] : (throwValue v : Eval α).Keeps ρ n := by
  unfold throwValue; infer_instance

instance {cause : Cause} : (raise cause : Eval α).Keeps ρ n := by
  unfold raise; infer_instance

/-- Nothing comes after an error. -/
instance {cause : Cause} {f : α → Eval β} : (raise cause >>= f).Keeps ρ n := by
  have hraise : (raise cause : Eval β).Keeps ρ n := inferInstance
  refine ⟨fun s hs => ?_⟩
  have heq : (raise cause >>= f) s = (raise cause : Eval β) s := by
    change EStateM.bind (EStateM.bind (createError _ _) _) f s = EStateM.bind (createError _ _) _ s
    unfold EStateM.bind
    cases createError cause.kind cause.message s <;> rfl
  rw [heq]
  exact hraise.frames s hs

instance {i : Incident} : (note i).Keeps ρ n :=
  .of_ok fun _ _ hs => ⟨_, _, rfl, ⟨rfl, rfl, Nat.le_refl _⟩,
    fun ht => ⟨(hs ht).kept rfl rfl, .of_unlinked⟩⟩

instance {f : Fault} : (fault f : Eval α).Keeps ρ n := by
  unfold fault; infer_instance

instance {α : Type} [Unlinked α] {r : Except ConversionError α} :
    (converted r).Keeps ρ n := by
  cases r with
  | ok a => exact inferInstanceAs (Keeps ρ n (Pure.pure a))
  | error e => exact inferInstanceAs (Keeps ρ n (raise _))

/-! ### Scopes and names -/

instance {e : Environment} [he : Known ρ.tracked n e] : (newScope e).Keeps ρ n :=
  .of_ok fun _ hn hs => ⟨_, _, rfl, ⟨rfl, rfl, Nat.le_refl _⟩,
    fun ht => ⟨(hs ht).pushScope ((he.within ht).mono hn), .of_unlinked⟩⟩

instance {parent : ScopeRef} : (innerScope parent).Keeps ρ n := by
  unfold innerScope; infer_instance

instance {q : ScopeRef} {f : Environment → Environment}
    [hf : ∀ (m : Size n) (e : Given ρ.tracked m.val Environment), Known ρ.tracked m.val (f e.data)] :
    (modifyScope q f).Keeps ρ n := by
  refine .of_ok fun s hn hs => ⟨_, _, rfl, ⟨rfl, rfl, Nat.le_refl _⟩, fun ht => ⟨?_, .of_unlinked⟩⟩
  have hscope : Known ρ.tracked s.heap.objects.size (s.scopes.get q) :=
    ⟨fun ht => (hs ht).scope_within q⟩
  exact (hs ht).modifyScope ((hf ⟨_, hn⟩ ⟨_, hscope⟩).within ht)

instance {q : ScopeRef} {name : String} {v : Value} [Known ρ.tracked n v] :
    (initialise q name v).Keeps ρ n := by
  unfold initialise; infer_instance

instance {description : Option Units} : (newSymbol description).Keeps ρ n :=
  .of_ok fun _ _ hs => ⟨_, _, rfl, ⟨rfl, rfl, Nat.le_refl _⟩,
    fun ht => ⟨(hs ht).kept rfl rfl, .of_unlinked⟩⟩

instance {description : String} : (newPrivateName description).Keeps ρ n :=
  .of_ok fun _ _ hs => ⟨_, _, rfl, ⟨rfl, rfl, Nat.le_refl _⟩,
    fun ht => ⟨(hs ht).kept rfl rfl, .of_unlinked⟩⟩

instance {text : String} : (write text).Keeps ρ n :=
  .of_ok fun _ _ hs => ⟨_, _, rfl, ⟨rfl, rfl, Nat.le_refl _⟩,
    fun ht => ⟨(hs ht).kept rfl rfl, .of_unlinked⟩⟩

/-! ### Calls -/

/-- Entering a call and leaving it cancel out, and a call that would be too deep is not entered. -/
instance [hx : x.Keeps ρ n] : (inCall x).Keeps ρ n := by
  refine ⟨fun s hs => ?_⟩
  simp only [Eval.inCall]
  split
  · have hraise : (raise .callDepth : Eval α).Keeps ρ n := inferInstance
    exact hraise.frames s hs
  · next hlimit =>
    have hdepth : s.callDepth + 1 ≤ ρ.depth :=
      Nat.le_trans (Nat.lt_of_not_le hlimit) ρ.maxCallDepth_le
    have h := hx.frames { s with callDepth := s.callDepth + 1 } ⟨hs.size, hdepth, hs.obeys⟩
    cases heq : x { s with callDepth := s.callDepth + 1 } <;>
      (rw [heq] at h; exact ⟨⟨h.1.contexts, congrArg (· - 1) h.1.callDepth, h.1.size⟩, h.2⟩)

end Eval

end Ecma
