import Ecma.Proofs.Run.Evaluator
import Ecma.Proofs.Run.Store

/-! Evaluations leave accessors that can be called: from every heap in which each half of an accessor
is undefined or a function they lead to another one, and what is a function stays one. This is a
discipline that the whole evaluator keeps. -/

namespace Ecma

/-! ### Heaps -/

namespace Heap

/-- The accessors of all objects can be called, and so can the function that scripts get as the
accessor of restricted properties. -/
structure Usable (h : Heap) : Prop where
  accessors : ∀ o, (h.get o).Usable (h.isCallable · = true)
  thrower : h.isCallable Intrinsic.throwTypeError = true

variable {h : Heap} {o : ObjectRef} {f : ObjectData → ObjectData} {data : ObjectData}

theorem keepsCallable_push (h : Heap) (data : ObjectData) : h.KeepsCallable (h.push data) := by
  intro p hp
  obtain heq | ⟨hnone, -⟩ := h.get_push_cases data p
  · rwa [isCallable, heq]
  · rw [isCallable, hnone] at hp
    cases hp

theorem keepsCallable_modify (hf : (h.get o).kind.isCallable = true →
    (f (h.get o)).kind.isCallable = true) : h.KeepsCallable (h.modify o f) := by
  intro p hp
  obtain heq | ⟨rfl, heq⟩ := h.get_modify_cases o f p <;> rw [isCallable, heq]
  · exact hp
  · exact hf hp

/-- An object comes without properties. -/
theorem Usable.push (hh : h.Usable) (hdata : data.properties = []) : (h.push data).Usable where
  accessors p := by
    obtain heq | ⟨-, heq⟩ := h.get_push_cases data p <;> rw [heq]
    · exact (hh.accessors p).mono (h.keepsCallable_push data)
    · simp [ObjectData.Usable, hdata]
  thrower := h.keepsCallable_push data _ hh.thrower

theorem Usable.modify (hh : h.Usable) (hkeeps : h.KeepsCallable (h.modify o f))
    (hf : (f (h.get o)).Usable (h.isCallable · = true)) : (h.modify o f).Usable where
  accessors p := by
    obtain heq | ⟨rfl, heq⟩ := h.get_modify_cases o f p <;> rw [heq]
    · exact (hh.accessors p).mono hkeeps
    · exact hf.mono hkeeps
  thrower := hkeeps _ hh.thrower

end Heap

/-! ### Evaluations -/

namespace Eval

variable {α β : Type} {x : Eval α} {Q : α → Heap → Prop} {h : Heap} {s s' : State}

/-- An outcome with a heap whose accessors can be called, as functions of `s` can; a value and the
heap have a property. -/
def Guards (s : State) (Q : α → Heap → Prop) : EStateM.Result Abrupt State α → Prop
  | .ok a s' => s.heap.KeepsCallable s'.heap ∧ s'.heap.Usable ∧ Q a s'.heap
  | .error _ s' => s.heap.KeepsCallable s'.heap ∧ s'.heap.Usable

/-- From a heap on, the evaluation leads to heaps whose accessors can be called. -/
def Guarded (h : Heap) (x : Eval α) (Q : α → Heap → Prop) : Prop :=
  ∀ s : State, h.KeepsCallable s.heap → s.heap.Usable → Guards s Q (x s)

theorem Guards.after {result : EStateM.Result Abrupt State α}
    (hs : s.heap.KeepsCallable s'.heap) (hresult : Guards s' Q result) : Guards s Q result := by
  cases result with
  | ok a s'' => exact ⟨hs.trans hresult.1, hresult.2⟩
  | error e s'' => exact ⟨hs.trans hresult.1, hresult.2⟩

theorem Guarded.any (hx : Guarded h x Q) : Guarded h x fun _ _ => True := by
  intro s hs husable
  have hpost := hx s hs husable
  cases heq : x s with
  | ok a s' =>
    rw [heq] at hpost
    exact ⟨hpost.1, hpost.2.1, trivial⟩
  | error e s' =>
    rw [heq] at hpost
    exact hpost

theorem Guarded.of_ok (hx : ∀ s : State, h.KeepsCallable s.heap → s.heap.Usable → ∃ a s',
    x s = .ok a s' ∧ s.heap.KeepsCallable s'.heap ∧ s'.heap.Usable ∧ Q a s'.heap) :
    Guarded h x Q := by
  intro s hs husable
  obtain ⟨a, s', heq, hpost⟩ := hx s hs husable
  rw [heq]
  exact hpost

/-- A step that leaves the heap as it is. -/
theorem Guarded.still (hx : ∀ s : State, ∃ a s', x s = .ok a s' ∧ s'.heap = s.heap) :
    Guarded h x fun _ _ => True :=
  .of_ok fun s _ husable =>
    let ⟨a, s', heq, hheap⟩ := hx s
    ⟨a, s', heq, hheap ▸ .refl _, hheap ▸ husable, trivial⟩

theorem Guarded.bind {f : α → Eval β} {Q : β → Heap → Prop} {P : α → Heap → Prop}
    (hx : Guarded h x P) (hf : ∀ a h', h.KeepsCallable h' → P a h' → Guarded h' (f a) Q) :
    Guarded h (x >>= f) Q := by
  intro s hs husable
  have hfirst := hx s hs husable
  change Guards s Q (EStateM.bind x f s)
  unfold EStateM.bind
  cases heq : x s with
  | ok a s' =>
    rw [heq] at hfirst
    have hrest := hf a s'.heap (hs.trans hfirst.1) hfirst.2.2
    exact (hrest s' (.refl _) hfirst.2.1).after hfirst.1
  | error e s' =>
    rw [heq] at hfirst
    exact hfirst

theorem Guarded.catching {handler : Value → Eval α} (hx : Guarded h x Q)
    (hh : ∀ v h', Guarded h' (handler v) Q) : Guarded h (catching x handler) Q := by
  intro s hs husable
  have hfirst := hx s hs husable
  simp only [Eval.catching]
  cases heq : x s with
  | ok a s' =>
    rw [heq] at hfirst
    exact hfirst
  | error e s' =>
    rw [heq] at hfirst
    cases e with
    | thrown v => exact (hh v s'.heap s' (.refl _) hfirst.2).after hfirst.1
    | escaped ending => exact hfirst
    | exhausted => exact hfirst

theorem Guarded.onEscape {handler : Completion → Eval α} (hx : Guarded h x Q)
    (hh : ∀ c h', Guarded h' (handler c) Q) : Guarded h (onEscape x handler) Q := by
  intro s hs husable
  have hfirst := hx s hs husable
  simp only [Eval.onEscape]
  cases heq : x s with
  | ok a s' =>
    rw [heq] at hfirst
    exact hfirst
  | error e s' =>
    rw [heq] at hfirst
    cases e with
    | thrown v => exact hfirst
    | escaped ending => exact (hh ending s'.heap s' (.refl _) hfirst.2).after hfirst.1
    | exhausted => exact hfirst

theorem Guarded.inContext (c : Context) (hx : Guarded h x fun _ _ => True) :
    Guarded h (inContext c x) fun _ _ => True := by
  intro s hs husable
  have hpost := hx { s with contexts := c :: s.contexts } hs husable
  simp only [Eval.inContext]
  cases heq : x { s with contexts := c :: s.contexts } <;> (rw [heq] at hpost; exact hpost)

theorem Guarded.atSite (l : Site) (hx : Guarded h x fun _ _ => True) :
    Guarded h (atSite l x) fun _ _ => True := by
  intro s hs husable
  have hpost := hx { s with site := l } hs husable
  simp only [Eval.atSite]
  cases heq : x { s with site := l } <;> (rw [heq] at hpost; exact hpost)

/-- What holds of the heap of a state may be used in it. -/
theorem Guarded.here
    (hx : ∀ s : State, h.KeepsCallable s.heap → s.heap.Usable → Guarded s.heap x Q) :
    Guarded h x Q :=
  fun s hs husable => hx s hs husable s (.refl _) husable

theorem guarded_newObject (prototype : Option ObjectRef) (kind : ObjectKind) :
    Guarded h (newObject prototype kind) fun o h' => kind.isCallable = true →
      h'.isCallable o = true :=
  .of_ok fun s _ husable => ⟨_, _, rfl, s.heap.keepsCallable_push _, husable.push rfl, fun hkind => by
    rw [Heap.isCallable, Heap.get_push_next]
    exact hkind⟩

theorem guarded_modifyObject {o : ObjectRef} {f : ObjectData → ObjectData}
    (hkind : ∀ data, data.kind.isCallable = true → (f data).kind.isCallable = true)
    (hproperties : ∀ data, (f data).properties = data.properties) :
    Guarded h (modifyObject o f) fun _ _ => True :=
  .of_ok fun _ _ husable =>
    have hkeeps := Heap.keepsCallable_modify (hkind _)
    ⟨_, _, rfl, hkeeps, husable.modify hkeeps ((husable.accessors o).of_properties (hproperties _)), trivial⟩

theorem guarded_tryObject {o : ObjectRef} {step : ObjectData → Option ObjectData}
    (hkind : ∀ data data', step data = some data' → data'.kind = data.kind)
    (hstep : ∀ (calls : ObjectRef → Prop) (data data' : ObjectData),
      (∀ f, h.isCallable f = true → calls f) → data.Usable calls → step data = some data' →
      data'.Usable calls) :
    Guarded h (tryObject o step) fun _ _ => True := by
  refine .of_ok fun s hs husable => ?_
  unfold Eval.tryObject
  split
  · next data hdata =>
    have hkeeps : s.heap.KeepsCallable (s.heap.modify o fun _ => data) :=
      Heap.keepsCallable_modify fun hcallable => hkind _ _ hdata ▸ hcallable
    exact ⟨_, _, rfl, hkeeps, husable.modify hkeeps (hstep _ _ _ hs (husable.accessors o) hdata), trivial⟩
  · exact ⟨_, _, rfl, .refl _, husable, trivial⟩

theorem guarded_setPrototype (o : ObjectRef) (prototype : Option ObjectRef) :
    Guarded h (setPrototype o prototype) fun _ _ => True := by
  refine .bind (P := fun _ _ => True) (.still fun s => ⟨_, s, rfl, rfl⟩) fun accepts h' _ _ => ?_
  split
  · refine .bind (guarded_modifyObject (fun _ => id) fun _ => rfl) fun _ _ _ _ => ?_
    exact .still fun s => ⟨_, s, rfl, rfl⟩
  · exact .still fun s => ⟨_, s, rfl, rfl⟩

theorem guarded_define {o : ObjectRef} {key : PropertyKey} {d : Descriptor}
    (hd : d.Usable (h.isCallable · = true)) : Guarded h (define o key d) fun _ _ => True :=
  guarded_tryObject (fun _ _ => ObjectData.kind_define)
    fun _ _ _ hcalls hdata => hdata.define (hd.mono hcalls)

theorem guarded_put {o : ObjectRef} {key : PropertyKey} {d : Descriptor}
    (hd : d.Usable (h.isCallable · = true)) : Guarded h (put o key d) fun _ _ => True := by
  have hdiscard : put o key d = define o key d >>= fun _ => pure PUnit.unit := by
    funext s
    change EStateM.map _ _ s = EStateM.bind _ _ s
    unfold EStateM.map EStateM.bind
    cases define o key d s <;> rfl
  rw [hdiscard]
  exact .bind (guarded_define hd) fun _ _ _ _ => .still fun s => ⟨_, s, rfl, rfl⟩

theorem Guarded.skip {f : α → Eval β} {Q : β → Heap → Prop} (hx : Guarded h x fun _ _ => True)
    (hf : ∀ a h', h.KeepsCallable h' → Guarded h' (f a) Q) : Guarded h (x >>= f) Q :=
  .bind hx fun a h' hh' _ => hf a h' hh'

theorem guarded_putPlain {o : ObjectRef} {key : PropertyKey} {d : Descriptor} [d.IsPlain] :
    Guarded h (put o key d) fun _ _ => True :=
  guarded_put Descriptor.IsPlain.usable

/-- A function object that is made can be called. -/
theorem guarded_createFunction (f : FunctionDef) (scope : ScopeRef) (home : Option ObjectRef)
    (kind : Option ConstructorKind) :
    Guarded h (createFunction f scope home kind) fun o h' => h'.isCallable o = true := by
  refine .skip (.still fun s => ⟨_, s, rfl, rfl⟩) fun _ _ _ =>
    .bind (guarded_newObject _ _) fun o h₁ _ ho => .skip guarded_putPlain fun _ h₂ hh₂ => ?_
  exact .of_ok fun s hs husable => ⟨o, s, rfl, .refl _, husable, hs o (hh₂ o (ho rfl))⟩

theorem guarded_instantiateFunction (f : FunctionDef) (scope : ScopeRef) (name : Units) :
    Guarded h (instantiateFunction f scope name) fun _ _ => True := by
  refine .bind (guarded_createFunction f scope none _) fun o _ _ _ =>
    .skip guarded_putPlain fun _ _ _ => ?_
  have hconstructor {h : Heap} : Guarded h (makeConstructor o) fun _ _ => True :=
    .bind (guarded_newObject _ _) fun prototype _ _ _ =>
      .skip guarded_putPlain fun _ _ _ => guarded_putPlain
  exact .skip hconstructor fun _ _ _ => .still fun s => ⟨_, s, rfl, rfl⟩

end Eval

/-- Leaving accessors that can be called is a discipline. -/
@[reducible]
def Discipline.guarding : Discipline where
  World := Heap
  Later := Heap.KeepsCallable
  Callable h f := h.isCallable f = true
  callable_later hh hf := hh _ hf
  Holds := Eval.Guarded
  pure h := .of_ok fun s hs husable => ⟨_, s, rfl, .refl _, husable, h _ hs⟩
  throw _ _ husable := ⟨.refl _, husable⟩
  bind := .bind
  catching := .catching
  heap _ := .still fun s => ⟨_, s, rfl, rfl⟩
  isCallable _ := .of_ok fun s _ husable => ⟨_, s, rfl, .refl _, husable, id⟩
  scopes _ := .still fun s => ⟨_, s, rfl, rfl⟩
  isStrict := .still fun s => ⟨_, s, rfl, rfl⟩
  newObject _ := (Eval.guarded_newObject _ _).any
  define _ _ _ _ := Eval.guarded_define
  delete _ _ := Eval.guarded_tryObject (fun _ _ => ObjectData.kind_delete)
    fun _ _ _ _ hdata => hdata.delete
  preventExtensions _ := Eval.guarded_modifyObject (fun _ => id) fun _ => rfl
  setPrototype := Eval.guarded_setPrototype
  newSymbol _ := .still fun _ => ⟨_, _, rfl, rfl⟩
  write _ := .still fun _ => ⟨_, _, rfl, rfl⟩
  instantiate _ _ := .atSite _ (Eval.guarded_instantiateFunction _ _ _)

namespace Eval

variable {α : Type} {x : Eval α}

theorem Guarded.inCall {h : Heap} (hx : Guarded h x fun _ _ => True) :
    Guarded h (inCall x) fun _ _ => True := by
  have hraise : (raise .callDepth : Eval α).Obeys .guarding := inferInstance
  intro s hs husable
  simp only [Eval.inCall]
  split
  · exact hraise.holds h s hs husable
  · have hpost := hx { s with callDepth := s.callDepth + 1 } hs husable
    cases heq : x { s with callDepth := s.callDepth + 1 } <;> (rw [heq] at hpost; exact hpost)

theorem guarded_restrict {h : Heap} (o : ObjectRef) (key : PropertyKey) :
    Guarded h (put o key (.accessor (.object Intrinsic.throwTypeError)
      (.object Intrinsic.throwTypeError) false false)) fun _ _ => True := by
  refine .here fun s _ husable => guarded_put ?_
  have hthrower : (Value.object Intrinsic.throwTypeError).IsHalf (s.heap.isCallable · = true) :=
    .inr ⟨_, rfl, husable.thrower⟩
  refine ⟨fun v hv => ?_, fun v hv => ?_⟩ <;> (cases hv; exact hthrower)

theorem guarded_installPrivates {h : Heap} (o : ObjectRef) (privates : ClassPrivates) :
    Guarded h (installPrivates o privates) fun _ _ => True := by
  refine guarded_modifyObject (fun data hdata => ?_) fun _ => rfl
  cases hkind : data.kind <;> simp_all [ObjectKind.isCallable]

instance : Discipline.guarding.Complete where
  onEscape := .onEscape
  inContext := .inContext
  site := .still fun s => ⟨_, s, rfl, rfl⟩
  atSite := .atSite
  inCall := .inCall
  note _ := .still fun _ => ⟨_, _, rfl, rfl⟩
  newScope _ := .still fun _ => ⟨_, _, rfl, rfl⟩
  modifyScope _ _ := .still fun _ => ⟨_, _, rfl, rfl⟩
  newPrivateName _ := .still fun _ => ⟨_, _, rfl, rfl⟩
  newObject prototype kind := (guarded_newObject prototype kind).any
  createFunction := guarded_createFunction
  restrict := guarded_restrict
  installPrivates := guarded_installPrivates
  addPrivate _ _ := guarded_modifyObject (fun _ => id) fun _ => rfl

theorem guarded [hx : x.Obeys .guarding] {h : Heap} : Guarded h x fun _ _ => True :=
  hx.holds h

end Eval

end Ecma
