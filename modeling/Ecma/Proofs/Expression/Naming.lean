import Ecma.Proofs.Frame.Call
import Ecma.Proofs.Object.Acyclic
import Ecma.Proofs.Run.Raise
import Ecma.Proofs.Scope.Global
import Ecma.Proofs.Text.Encoding

/-! The names that anonymous functions and classes take from the properties they are the values of.
A function takes the key as it is, a class its text. Other code runs while a class is made, but none
that could reach the constructor, so that only a static member changes its name. -/

namespace Ecma

/-! ### Hidden objects -/

namespace Tracking

/-- Hides the objects from `n` on and before `m` too. -/
def more (t : Tracking) {n : Nat} (hn : Intrinsic.globalObject.index < n) (m : Nat) : Tracking where
  on := t.on
  hidden o := t.hidden o ∨ (n ≤ o.index ∧ o.index < m)
  hidden_gt o ho := ho.elim (t.hidden_gt o) fun h => Nat.lt_of_lt_of_le hn h.1

end Tracking

/-- A step that changes no scope, and of the objects that were there only free ones. -/
structure State.Confined (free : ObjectRef → Prop) (s s' : State) : Prop where
  size : s.heap.objects.size ≤ s'.heap.objects.size
  objects : ∀ o, ¬free o → o.index < s.heap.objects.size → s'.heap.get o = s.heap.get o
  scopes : s'.scopes = s.scopes

namespace State.Confined

variable {free : ObjectRef → Prop} {s s₁ s₂ : State}

theorem trans (h₁ : s.Confined free s₁) (h₂ : s₁.Confined free s₂) : s.Confined free s₂ where
  size := Nat.le_trans h₁.size h₂.size
  objects o ho hlt :=
    (h₂.objects o ho (Nat.lt_of_lt_of_le hlt h₁.size)).trans (h₁.objects o ho hlt)
  scopes := h₂.scopes.trans h₁.scopes

/-- New objects are free. -/
theorem of_new (h : s.Confined (s.heap.objects.size ≤ ·.index) s₁) : s.Confined free s₁ :=
  ⟨h.size, fun o _ hlt => h.objects o (Nat.not_le.mpr hlt) hlt, h.scopes⟩

theorem of_adds {n : Nat} (h : s.Adds n s₁) : s.Confined (n ≤ ·.index) s₁ :=
  ⟨h.size, fun o ho _ => h.objects o (Nat.lt_of_not_le ho), h.scopes⟩

end State.Confined

/-- After such a step the new objects may be hidden. -/
theorem Store.Obeys.hide {t : Tracking} {s s' : State} (h : s.toStore.Obeys t)
    (hstep : s.Confined t.hidden s') (hclosed : s'.toStore.Closed) :
    s'.toStore.Obeys (t.more h.intrinsics s'.heap.objects.size) where
  toClosed := hclosed
  hidden_lt o ho := ho.elim (fun ho => Nat.lt_of_lt_of_le (h.hidden_lt o ho) hstep.size) And.right
  seen_objects o p ho hp := by
    obtain ⟨hold, hnew⟩ := not_or.mp ho
    by_cases hlt : o.index < s.heap.objects.size
    · rw [hstep.objects o hold hlt] at hp
      refine not_or.mpr ⟨h.seen_objects o p hold hp, fun hp' => ?_⟩
      exact Nat.not_lt.mpr hp'.1 (h.lt (h.objects o) hp)
    · have hout : ¬o.index < s'.heap.objects.size := fun hlt' => hnew ⟨Nat.le_of_not_lt hlt, hlt'⟩
      have hempty : Known t 0 ({} : ObjectData) := inferInstance
      rw [Heap.get_of_not_lt hout] at hp
      simp [Mentions.mentions] at hp
  seen_scopes q p hp := by
    rw [hstep.scopes] at hp
    refine not_or.mpr ⟨h.seen_scopes q p hp, fun hp' => ?_⟩
    exact Nat.not_lt.mpr hp'.1 (h.lt (h.scopes q) hp)

/-- What is known of an evaluation that succeeds, if references are tracked. -/
theorem Eval.Keeps.of_eq_ok {t : Tracking} (ht : t.on) {α : Type} [Mentions α] {x : Eval α}
    {a : α} {s s' : State} (hs : s.toStore.Obeys t)
    (hx : ∀ ρ : Regime, ρ.tracked = t → x.Keeps ρ s.heap.objects.size) (h : x s = .ok a s') :
    t.Kept s.toStore s'.toStore ∧ t.Within s'.heap.objects.size a := by
  let ρ : Regime := ⟨t, max Eval.maxCallDepth s.callDepth, Nat.le_max_left ..⟩
  have hframes := (hx ρ rfl).frames s ⟨Nat.le_refl _, Nat.le_max_right .., fun _ => hs⟩
  rw [h] at hframes
  exact hframes.2 ht

/-! ### One property -/

/-- A step that changes at most one property of one object. -/
structure State.Alters (o : ObjectRef) (key : PropertyKey) (s s' : State) : Prop where
  size : s'.heap.objects.size = s.heap.objects.size
  scopes : s'.scopes = s.scopes
  others : ∀ p, p ≠ o → s'.heap.get p = s.heap.get p
  kept : ∀ k, k ≠ key → s'.heap.getOwn? o k = s.heap.getOwn? o k
  extensible : (s'.heap.get o).extensible = (s.heap.get o).extensible

namespace State.Alters

variable {o : ObjectRef} {key : PropertyKey} {s s' : State}

theorem refl : s.Alters o key s :=
  ⟨rfl, rfl, fun _ _ => rfl, fun _ _ => rfl, rfl⟩

theorem confined {free : ObjectRef → Prop} (h : s.Alters o key s') (ho : free o) :
    s.Confined free s' where
  size := Nat.le_of_eq h.size.symm
  objects p hp _ := h.others p fun heq => hp (heq ▸ ho)
  scopes := h.scopes

/-- Another property of any object is as it was. -/
theorem getOwn?_eq (h : s.Alters o key s') {p : ObjectRef} {k : PropertyKey}
    (hne : p ≠ o ∨ k ≠ key) : s'.heap.getOwn? p k = s.heap.getOwn? p k := by
  by_cases hp : p = o
  · subst hp
    exact h.kept k (hne.resolve_left fun hne => hne rfl)
  · rw [Heap.getOwn?, h.others p hp, Heap.getOwn?]

end State.Alters

namespace Eval

variable {s s' : State} {o : ObjectRef}

theorem define_alters (o : ObjectRef) (key : PropertyKey) (d : Descriptor) (s : State) :
    ∃ b s', define o key d s = .ok b s' ∧ s.Alters o key s' := by
  cases hdefine : (s.heap.get o).define key d with
  | none => exact ⟨false, s, by simp [define, tryObject, hdefine], .refl⟩
  | some data =>
    have hstep : define o key d s = .ok true { s with heap := s.heap.modify o fun _ => data } := by
      simp [define, tryObject, hdefine]
    refine ⟨_, _, hstep, ?_⟩
    by_cases ho : o.index < s.heap.objects.size
    · have hget := Heap.get_modify_self ho fun _ => data
      refine ⟨by simp, rfl, fun p hp => ?_, fun k hk => ?_, ?_⟩
      · exact (s.heap.get_modify_cases o (fun _ => data) p).resolve_right fun h => hp h.1
      · rw [Heap.getOwn?, hget, ObjectData.getOwn?_define_ne hdefine hk, Heap.getOwn?]
      · rw [hget, ObjectData.extensible_define hdefine]
    · have hsame (p : ObjectRef) : (s.heap.modify o fun _ => data).get p = s.heap.get p := by
        obtain heq | ⟨rfl, -⟩ := s.heap.get_modify_cases o (fun _ => data) p
        · exact heq
        · rw [Heap.get_of_not_lt ho, Heap.get_of_not_lt (by simpa using ho)]
      exact ⟨by simp, rfl, fun p _ => hsame p, fun k _ => by rw [Heap.getOwn?, hsame, Heap.getOwn?],
        by rw [hsame]⟩

theorem put_alters (o : ObjectRef) (key : PropertyKey) (d : Descriptor) (s : State) :
    ∃ s', put o key d s = .ok () s' ∧ s.Alters o key s' := by
  obtain ⟨b, s', hs', h⟩ := define_alters o key d s
  refine ⟨s', ?_, h⟩
  simp [put, discard, Functor.discard, Functor.mapConst, EStateM.map, hs']

/-- A property that an extensible object does not have is put as described. -/
theorem put_own {key : PropertyKey} (d : Descriptor) (ho : o.index < s.heap.objects.size)
    (hnone : s.heap.getOwn? o key = none) (hext : (s.heap.get o).extensible = true) :
    ∃ s', put o key d s = .ok () s' ∧ s.Alters o key s' ∧
      s'.heap.getOwn? o key = some d.complete := by
  obtain ⟨s', hs', h⟩ := put_alters o key d s
  obtain ⟨data, hdefine, hvalue⟩ := ObjectData.define_new (d := d) hnone hext
  refine ⟨s', hs', h, ?_⟩
  have hput : put o key d s = .ok () { s with heap := s.heap.modify o fun _ => data } := by
    simp [put, define, tryObject, discard, Functor.discard, Functor.mapConst, EStateM.map, hdefine]
  rw [hput] at hs'
  cases hs'
  rw [Heap.getOwn?, Heap.get_modify_self ho, hvalue]

/-- A property that can be configured, or that an extensible object does not have, becomes a plain
one. -/
theorem put_plain {key : PropertyKey} (v : Value) (ho : o.index < s.heap.objects.size)
    (hconf : ∀ p, s.heap.getOwn? o key = some p → p.isConfigurable = true)
    (hext : (s.heap.get o).extensible = true) :
    ∃ s', put o key (.plain v) s = .ok () s' ∧ s.Alters o key s' ∧
      s'.heap.getOwn? o key = some (.data v true true true) := by
  cases hcurrent : s.heap.getOwn? o key with
  | none => exact put_own (.plain v) ho hcurrent hext
  | some current =>
    have hchange := hconf current hcurrent
    have hallows : (Descriptor.plain v).allows current = true := by
      simp [Descriptor.allows, hchange]
    obtain ⟨s', hs', h⟩ := put_alters o key (.plain v) s
    obtain ⟨data, hdefine⟩ := ObjectData.define_of_allows hcurrent hallows
    refine ⟨s', hs', h, ?_⟩
    have hput : put o key (.plain v) s =
        .ok () { s with heap := s.heap.modify o fun _ => data } := by
      simp [put, define, tryObject, discard, Functor.discard, Functor.mapConst, EStateM.map, hdefine]
    rw [hput] at hs'
    cases hs'
    rw [Heap.getOwn?, Heap.get_modify_self ho,
      ObjectData.getOwn?_define_changeable hdefine hcurrent (.inl hchange)]
    cases current <;> rfl

/-- The name of a function object. -/
def HasName (h : Heap) (o : ObjectRef) (name : Units) : Prop :=
  h.getOwn? o "name" = some (.data (.string name) false false true)

theorem ne_name {text : String} (h : text ≠ "name") :
    ("name" : PropertyKey) ≠ (text : PropertyKey) :=
  fun heq => h (Units.ofString_inj (PropertyKey.string.inj heq)).symm

/-- A name is set on an object that is new and extensible. -/
theorem setFunctionName_new (name : Units) (ho : o.index < s.heap.objects.size)
    (hnone : s.heap.getOwn? o "name" = none) (hext : (s.heap.get o).extensible = true) :
    ∃ s', setFunctionName o name s = .ok () s' ∧ s.Alters o "name" s' ∧ HasName s'.heap o name :=
  put_own (.data (.string name) false false true) ho hnone hext

/-- The object of a function has its name, whatever the units of that are. -/
theorem instantiateFunction_name (f : FunctionDef) (scope : ScopeRef) (name : Units) (s : State) :
    ∃ o s', instantiateFunction f scope name s = .ok o s' ∧ HasName s'.heap o name := by
  let o := s.heap.next
  obtain ⟨s₁, hs₁, -, hget, hlt⟩ := alloc_adds (s := s) (Nat.le_refl _)
    { prototype := some Intrinsic.functionPrototype, kind := .function
        { code := .script f, scope, site := s.site, strict := f.strict, homeObject := none
          constructorKind := some .base, classSource := none, privateMethods := [] } }
  obtain ⟨s₂, hs₂, h₂⟩ := put_alters o "length"
    (.data (.number (Number.ofInt f.params.length)) false false true) s₁
  have hnone : s₂.heap.getOwn? o "name" = none := by
    rw [h₂.kept _ (ne_name (by decide)), Heap.getOwn?, hget]
    rfl
  have hext : (s₂.heap.get o).extensible = true := by
    rw [h₂.extensible, hget]
  have hlt₂ : o.index < s₂.heap.objects.size := h₂.size ▸ hlt
  obtain ⟨s₃, hs₃, h₃, hname⟩ := setFunctionName_new name hlt₂ hnone hext
  have hlt₃ : o.index < s₃.heap.objects.size := h₃.size ▸ hlt₂
  obtain ⟨s₄, hs₄, h₄, -, -⟩ := alloc_adds (s := s₃) (Nat.le_refl _)
    { prototype := some Intrinsic.objectPrototype, kind := .ordinary }
  obtain ⟨s₅, hs₅, h₅⟩ := put_alters s₃.heap.next "constructor" (.hidden (.object o)) s₄
  obtain ⟨s₆, hs₆, h₆⟩ := put_alters o "prototype"
    (.data (.object s₃.heap.next) true false false) s₅
  refine ⟨o, s₆, ?_, ?_⟩
  · simp only [instantiateFunction, createFunction, makeConstructor, newOrdinary, newObject, site,
      bind, EStateM.bind, hs₁, o] at *
    simp only [hs₂, hs₃, hs₄, hs₅, hs₆, pure, EStateM.pure]
  · have hother : o ≠ s₃.heap.next := by
      intro heq
      rw [heq] at hlt₃
      exact Nat.lt_irrefl _ hlt₃
    rw [HasName, h₆.kept _ (ne_name (by decide)), h₅.getOwn?_eq (.inl hother), Heap.getOwn?,
      h₄.objects o hlt₃]
    exact hname

/-- Makes the constructor object of a class from its code and the number of its parameters. -/
def constructorObject (c : ClassDef) (code : FunctionCode) (params : Nat) (scope : ScopeRef)
    (name : String) (prototype parent : ObjectRef) : Eval ObjectRef := do
  let kind : ConstructorKind := if c.heritage.isSome then .derived else .base
  let site ← site
  let o ← newObject (some parent) (.function
    { code, scope, site, strict := true, homeObject := some prototype, constructorKind := some kind
      classSource := some c.source, privateMethods := [] })
  put o "length" (.data (.number (Number.ofInt params)) false false true)
  setFunctionName o name
  put o "prototype" (.data (.object prototype) false false false)
  put prototype "constructor" (.hidden (.object o))
  return o

theorem createClass_eq (c : ClassDef) (scope : ScopeRef) (name : String)
    (prototype parent : ObjectRef) : ∃ code params, createClass c scope name prototype parent =
      constructorObject c code params scope name prototype parent := by
  unfold createClass
  cases c.constructorDef with
  | none => exact ⟨.defaultConstructor, 0, rfl⟩
  | some f => exact ⟨.script f, f.params.length, rfl⟩

/-- The constructor of a class is new and has its name, and only new objects have changed. -/
theorem createClass_name (c : ClassDef) (scope : ScopeRef) (name : String) {prototype : ObjectRef}
    (parent : ObjectRef) {n : Nat} (hn : n ≤ prototype.index) (hnew : n ≤ s.heap.objects.size)
    (hprototype : prototype.index < s.heap.objects.size) :
    ∃ o s', createClass c scope name prototype parent s = .ok o s' ∧
      s.Confined (n ≤ ·.index) s' ∧ n ≤ o.index ∧ o.index < s'.heap.objects.size ∧
      o ≠ prototype ∧ HasName s'.heap o name := by
  let o := s.heap.next
  let kind : ConstructorKind := if c.heritage.isSome then .derived else .base
  obtain ⟨code, params, hcode⟩ := createClass_eq c scope name prototype parent
  have hother : o ≠ prototype := by
    intro heq
    rw [← heq] at hprototype
    exact Nat.lt_irrefl _ hprototype
  obtain ⟨s₁, hs₁, h₁, hget, hlt⟩ := alloc_adds hnew
    { prototype := some parent, kind := .function
        { code, scope, site := s.site, strict := true, homeObject := some prototype
          constructorKind := some kind, classSource := some c.source, privateMethods := [] } }
  obtain ⟨s₂, hs₂, h₂⟩ := put_alters o "length"
    (.data (.number (Number.ofInt params)) false false true) s₁
  have hnone : s₂.heap.getOwn? o "name" = none := by
    rw [h₂.kept _ (ne_name (by decide)), Heap.getOwn?, hget]
    rfl
  have hext : (s₂.heap.get o).extensible = true := by
    rw [h₂.extensible, hget]
  have hlt₂ : o.index < s₂.heap.objects.size := h₂.size ▸ hlt
  obtain ⟨s₃, hs₃, h₃, hname⟩ := setFunctionName_new name hlt₂ hnone hext
  obtain ⟨s₄, hs₄, h₄⟩ := put_alters o "prototype" (.data (.object prototype) false false false) s₃
  obtain ⟨s₅, hs₅, h₅⟩ := put_alters prototype "constructor" (.hidden (.object o)) s₄
  have hsize : s₅.heap.objects.size = s₁.heap.objects.size := by
    rw [h₅.size, h₄.size, h₃.size, h₂.size]
  refine ⟨o, s₅, ?_, ?_, hnew, hsize ▸ hlt, hother, ?_⟩
  · simp only [o, kind] at hs₁ hs₂ hs₃ hs₄ hs₅ ⊢
    simp only [hcode, constructorObject, newObject, site, bind, EStateM.bind, hs₁, hs₂, hs₃, hs₄,
      hs₅, pure, EStateM.pure]
  · have hobject : n ≤ o.index := hnew
    exact (State.Confined.of_adds h₁).trans <| (h₂.confined hobject).trans <|
      (h₃.confined hobject).trans <| (h₄.confined hobject).trans (h₅.confined hn)
  · rw [HasName, h₅.getOwn?_eq (.inl hother), h₄.kept _ (ne_name (by decide))]
    exact hname

/-- The object of a method is new. -/
theorem createMethod_new (f : FunctionDef) (scope : ScopeRef) (home : ObjectRef) (s : State) :
    ∃ s', createMethod f scope home s = .ok s.heap.next s' ∧ s.Adds s.heap.objects.size s' ∧
      s.heap.next.index < s'.heap.objects.size := by
  obtain ⟨s₁, hs₁, h₁, -, hlt⟩ := alloc_adds (s := s) (Nat.le_refl _)
    { prototype := some Intrinsic.functionPrototype, kind := .function
        { code := .script f, scope, site := s.site, strict := f.strict, homeObject := some home
          constructorKind := none, classSource := none, privateMethods := [] } }
  obtain ⟨s₂, hs₂, h₂⟩ := put_adds (s := s₁) (o := s.heap.next) (Nat.le_refl _) "length"
    (.data (.number (Number.ofInt f.params.length)) false false true)
  refine ⟨s₂, ?_, h₁.trans h₂, Nat.lt_of_lt_of_le hlt h₂.size⟩
  simp only [createMethod, createFunction, newObject, site, bind, EStateM.bind, hs₁, hs₂, pure,
    EStateM.pure]

/-- Private elements are no properties. -/
theorem installPrivates_getOwn? (o : ObjectRef) (privates : ClassPrivates) (p : ObjectRef)
    (key : PropertyKey) (s : State) : ∃ s', installPrivates o privates s = .ok () s' ∧
      s'.heap.getOwn? p key = s.heap.getOwn? p key := by
  refine ⟨_, rfl, ?_⟩
  rw [Heap.getOwn?]
  obtain heq | ⟨rfl, heq⟩ := s.heap.get_modify_cases o _ p
  · rw [heq, Heap.getOwn?]
  · rw [heq, Heap.getOwn?, ObjectData.getOwn?, ObjectData.getOwn?]
    cases hkind : (s.heap.get p).kind <;> simp [ObjectData.exoticProperty?, hkind]

end Eval

/-! ### Code that ends well -/

namespace Eval

variable {α β : Type} {x : Eval α} {s s' : State}

/-- Each of two steps ends well if both do, one after the other. -/
theorem eq_ok_of_bind {f : α → Eval β} {b : β} (h : (x >>= f) s = .ok b s') :
    ∃ a s₁, x s = .ok a s₁ ∧ f a s₁ = .ok b s' := by
  change EStateM.bind x f s = _ at h
  unfold EStateM.bind at h
  cases hx : x s with
  | error e s₁ =>
    rw [hx] at h
    cases h
  | ok a s₁ =>
    rw [hx] at h
    exact ⟨a, s₁, rfl, h⟩

theorem exists_eq_ok_of_run' {a : α} (h : x.run' s = some a) : ∃ s', x s = .ok a s' := by
  unfold EStateM.run' at h
  cases hx : x s with
  | error e s₁ =>
    rw [EStateM.run, hx] at h
    cases h
  | ok b s₁ =>
    rw [EStateM.run, hx] at h
    cases h
    exact ⟨s₁, rfl⟩

theorem eq_ok_of_onEscape_fault {f : Fault} {a : α}
    (h : onEscape x (fun _ => fault f) s = .ok a s') : x s = .ok a s' := by
  unfold onEscape at h
  split at h
  · next ending s₁ _ =>
    obtain ⟨e, s₂, hs₂⟩ := fault_eq_error (α := α) f s₁
    cases hs₂.symm.trans h
  · exact h

end Eval

namespace Engine

/-- A property that is defined or else throws has been accepted. -/
theorem eq_ok_of_defineOrThrow {o : ObjectRef} {key : PropertyKey} {d : Descriptor} {s s' : State}
    (h : defineOrThrow o key d s = .ok () s') : Eval.define o key d s = .ok true s' := by
  obtain ⟨b, s₁, hs₁, h⟩ := Eval.eq_ok_of_bind h
  cases b with
  | true =>
    cases h
    exact hs₁
  | false =>
    obtain ⟨s₂, hs₂, -⟩ :=
      Eval.raise_adds (α := PUnit) (s := s₁) (.redefined key.text) (Nat.le_refl _)
    cases hs₂.symm.trans h

end Engine

/-! ### Making a class -/

namespace Engine

variable (eng : Engine)

/-- The key of a static member of a class with the constructor `o`. -/
def staticKey? (scope : ScopeRef) (o : ObjectRef) : ClassElement → State → Option PropertyKey
  | .publicElement name _ f true, s =>
    match (Eval.createMethod f scope o >>= fun _ => eng.propertyKey name scope) s with
    | .ok key _ => some key
    | .error .. => none
  | _, _ => none

/-- The keys of the static members among elements of a class, in the order in which they are
defined. -/
def staticKeysFrom (scope : ScopeRef) (o prototype : ObjectRef) :
    List ClassElement → ClassPrivates → State → List PropertyKey
  | [], _, _ => []
  | m :: rest, privates, s =>
    (eng.staticKey? scope o m s).toList ++
      match eng.defineElement scope o prototype privates m s with
      | .ok privates s => staticKeysFrom scope o prototype rest privates s
      | .error .. => []

/-- The scope of a class and what its objects inherit from. -/
def classParents (c : ClassDef) (scope : ScopeRef) :
    Eval (ScopeRef × Option ObjectRef × ObjectRef) := do
  let inner ← Eval.classScope c scope
  let parents ← Eval.within (.heritage c) inner (eng.heritage c inner)
  return (inner, parents)

/-- The objects of a class before its elements are defined: its prototype object and its
constructor. -/
def classObjects (c : ClassDef) (inner : ScopeRef) (name : String)
    (parents : Option ObjectRef × ObjectRef) : Eval (ObjectRef × ObjectRef) := do
  let prototype ← Eval.newObject parents.1 .ordinary
  let o ← Eval.createClass c inner name prototype parents.2
  return (prototype, o)

/-- The keys of the static members that a class definition defines when it is evaluated. -/
def staticKeys (c : ClassDef) (scope : ScopeRef) (name : String) (s : State) : List PropertyKey :=
  match eng.classParents c scope s with
  | .ok (inner, parents) s =>
    match classObjects c inner name parents { s with site := s.site.enter (.classBody c) inner } with
    | .ok (prototype, o) s => eng.staticKeysFrom inner o prototype c.elements {} s
    | .error .. => []
  | .error .. => []

theorem evaluateClass_eq (c : ClassDef) (scope : ScopeRef) (name : String) :
    eng.evaluateClass c scope name = (do
      let (inner, parents) ← eng.classParents c scope
      Eval.within (.classBody c) inner do
        let (prototype, o) ← classObjects c inner name parents
        let privates ← c.elements.foldlM (eng.defineElement inner o prototype) {}
        Eval.installPrivates o privates
        c.name.forM fun name => Eval.initialise inner name (.object o)
        return o) := by
  unfold evaluateClass classParents classObjects
  simp only [bind_assoc, pure_bind]

variable {eng}

/-- A class is being made: its objects are hidden from all code. -/
structure Making (o prototype : ObjectRef) (t : Tracking) (s : State) : Prop where
  on : t.on
  constructor : t.hidden o
  prototype : t.hidden prototype
  obeys : s.toStore.Obeys t

namespace Making

variable {o prototype : ObjectRef} {t : Tracking} {s s' : State}

theorem full_of_hidden (h : Making o prototype t s) {p : ObjectRef} (hp : t.hidden p) :
    Known .full s.heap.objects.size p :=
  ⟨fun _ => Within.full fun _ hq => .inl (hq ▸ h.obeys.hidden_lt p hp)⟩

/-- A step that only changes hidden objects and makes new ones. -/
theorem hide (h : Making o prototype t s) (hstep : s.Confined t.hidden s')
    (hclosed : s'.toStore.Closed) :
    Making o prototype (t.more h.obeys.intrinsics s'.heap.objects.size) s' :=
  ⟨h.on, .inl h.constructor, .inl h.prototype, h.obeys.hide hstep hclosed⟩

/-- Code that is run in between neither sees nor changes the objects. -/
theorem run {α : Type} [Mentions α] {x : Eval α} {a : α} (h : Making o prototype t s)
    (hx : ∀ ρ : Regime, ρ.tracked = t → x.Keeps ρ s.heap.objects.size) (heq : x s = .ok a s') :
    Making o prototype t s' ∧ ∀ p, t.hidden p → s'.heap.get p = s.heap.get p := by
  obtain ⟨hkept, -⟩ := Eval.Keeps.of_eq_ok h.on h.obeys hx heq
  exact ⟨⟨h.on, h.constructor, h.prototype, hkept.obeys⟩, hkept.hidden⟩

/-- A step on hidden objects. -/
theorem step {α : Type} [Mentions α] {x : Eval α} {a : α} (h : Making o prototype t s)
    (hx : ∀ ρ : Regime, ρ.tracked = .full → x.Keeps ρ s.heap.objects.size) (heq : x s = .ok a s')
    (hstep : s.Confined t.hidden s') :
    Making o prototype (t.more h.obeys.intrinsics s'.heap.objects.size) s' := by
  obtain ⟨hkept, -⟩ := Eval.Keeps.of_eq_ok trivial h.obeys.toClosed.obeys hx heq
  exact h.hide hstep hkept.obeys.toClosed

/-- The object of a method is hidden too. -/
theorem method (h : Making o prototype t s) {home : ObjectRef} (hhome : t.hidden home)
    (f : FunctionDef) (scope : ScopeRef) :
    ∃ t' s' m, Eval.createMethod f scope home s = .ok m s' ∧ Making o prototype t' s' ∧
      (∀ p, t.hidden p → t'.hidden p) ∧ t'.hidden m ∧ m ≠ o ∧
      ∀ p, t.hidden p → s'.heap.get p = s.heap.get p := by
  obtain ⟨s', hs', hadds, hlt⟩ := Eval.createMethod_new f scope home s
  have hkeeps (ρ : Regime) (hρ : ρ.tracked = .full) :
      (Eval.createMethod f scope home).Keeps ρ s.heap.objects.size := by
    have : Known ρ.tracked s.heap.objects.size home := hρ ▸ h.full_of_hidden hhome
    infer_instance
  refine ⟨_, s', s.heap.next, hs', h.step hkeeps hs' (State.Confined.of_adds hadds).of_new,
    fun p => .inl, .inr ⟨Nat.le_refl _, hlt⟩, ?_, fun p hp => ?_⟩
  · intro heq
    have hold := h.obeys.hidden_lt o h.constructor
    rw [← heq] at hold
    exact Nat.lt_irrefl _ hold
  · exact hadds.objects p (h.obeys.hidden_lt p hp)

/-- A hidden object gets a property. -/
theorem define (h : Making o prototype t s) {target : ObjectRef} (htarget : t.hidden target)
    {key : PropertyKey} {d : Descriptor} (hd : Known .full s.heap.objects.size d) {b : Bool}
    (heq : Eval.define target key d s = .ok b s') :
    (∃ t', Making o prototype t' s' ∧ ∀ p, t.hidden p → t'.hidden p) ∧ s.Alters target key s' := by
  obtain ⟨_, _, heq', halters⟩ := Eval.define_alters target key d s
  rw [heq] at heq'
  cases heq'
  have hkeeps (ρ : Regime) (hρ : ρ.tracked = .full) :
      (Eval.define target key d).Keeps ρ s.heap.objects.size := by
    have : Known ρ.tracked s.heap.objects.size target := hρ ▸ h.full_of_hidden htarget
    have : Known ρ.tracked s.heap.objects.size d := hρ ▸ hd
    infer_instance
  exact ⟨⟨_, h.step hkeeps heq (halters.confined htarget), fun _ => .inl⟩, halters⟩

/-- A hidden function gets a name. -/
theorem name (h : Making o prototype t s) {m : ObjectRef} (hm : t.hidden m) (name : Units) :
    ∃ t' s', Eval.setFunctionName m name s = .ok () s' ∧ Making o prototype t' s' ∧
      (∀ p, t.hidden p → t'.hidden p) ∧ s.Alters m "name" s' := by
  obtain ⟨b, s', hs', -⟩ :=
    Eval.define_alters m "name" (.data (.string name) false false true) s
  obtain ⟨⟨t', h', hmore⟩, halters⟩ := h.define hm inferInstance hs'
  refine ⟨t', s', ?_, h', hmore, halters⟩
  simp [Eval.setFunctionName, Eval.put, discard, Functor.discard, Functor.mapConst, EStateM.map,
    hs']

end Making

/-- Defining an element of a class changes the name of the constructor only if the element is a
static member that is called so. -/
theorem defineElement_name (heng : ∀ ρ, eng.Keeps ρ) {o prototype : ObjectRef} (hne : o ≠ prototype)
    {t : Tracking} {s s' : State} (h : Making o prototype t s) {scope : ScopeRef} {m : ClassElement}
    {privates privates' : ClassPrivates}
    (heq : eng.defineElement scope o prototype privates m s = .ok privates' s')
    (hkey : eng.staticKey? scope o m s ≠ some ("name" : PropertyKey)) :
    (∃ t', Making o prototype t' s') ∧
      s'.heap.getOwn? o "name" = s.heap.getOwn? o "name" := by
  cases m with
  | publicElement name kind f isStatic =>
    let target := if isStatic then o else prototype
    have htarget : t.hidden target := by
      cases isStatic
      · exact h.prototype
      · exact h.constructor
    obtain ⟨t₁, s₁, method, hs₁, h₁, hmore₁, hmethod, hother, hget₁⟩ := h.method htarget f scope
    have hrun : eng.defineElement scope o prototype privates (.publicElement name kind f isStatic) =
        (do
          let method ← Eval.createMethod f scope target
          let key ← Eval.onEscape (eng.propertyKey name scope) fun _ =>
            Eval.fault .invalidPropertyName
          Eval.setFunctionName method (kind.functionName key.functionName)
          defineOrThrow target key (kind.descriptor method false)
          return privates) := rfl
    rw [hrun] at heq
    obtain ⟨_, _, hs₁', heq⟩ := Eval.eq_ok_of_bind heq
    cases hs₁.symm.trans hs₁'
    obtain ⟨key, s₂, hkey₂, heq⟩ := Eval.eq_ok_of_bind heq
    replace hkey₂ := Eval.eq_ok_of_onEscape_fault hkey₂
    obtain ⟨h₂, hget₂⟩ := h₁.run (fun ρ _ => have := heng ρ; inferInstance) hkey₂
    obtain ⟨t₃, s₃, hs₃, h₃, hmore₃, halters₃⟩ :=
      h₂.name hmethod (kind.functionName key.functionName)
    obtain ⟨_, _, hs₃', heq⟩ := Eval.eq_ok_of_bind heq
    cases hs₃.symm.trans hs₃'
    obtain ⟨_, s₄, hs₄, heq⟩ := Eval.eq_ok_of_bind heq
    cases heq
    have := h₃.full_of_hidden (hmore₃ _ hmethod)
    obtain ⟨⟨t₄, h₄, -⟩, halters₄⟩ := h₃.define (hmore₃ _ (hmore₁ _ htarget)) inferInstance
      (eq_ok_of_defineOrThrow hs₄)
    have hname₃ : s₃.heap.getOwn? o "name" = s.heap.getOwn? o "name" := by
      rw [halters₃.getOwn?_eq (.inl hother.symm), Heap.getOwn?,
        hget₂ o (hmore₁ o h.constructor), hget₁ o h.constructor, Heap.getOwn?]
    have hchanged : o ≠ target ∨ ("name" : PropertyKey) ≠ key := by
      cases isStatic with
      | false => exact .inl hne
      | true =>
        refine .inr fun hsame => hkey ?_
        have hmade : Eval.createMethod f scope o s = .ok method s₁ := hs₁
        simp only [staticKey?, bind, EStateM.bind, hmade, hkey₂, hsame]
    exact ⟨⟨t₄, h₄⟩, (halters₄.getOwn?_eq hchanged).trans hname₃⟩
  | privateElement spelling kind f isStatic =>
    let target := if isStatic then o else prototype
    have htarget : t.hidden target := by
      cases isStatic
      · exact h.prototype
      · exact h.constructor
    obtain ⟨t₁, s₁, method, hs₁, h₁, -, hmethod, hother, hget₁⟩ := h.method htarget f scope
    simp only [target] at hs₁
    simp only [defineElement, bind, EStateM.bind, hs₁, Eval.scopes] at heq
    cases hlookup : (s₁.scopes.get scope).privateNames.lookup spelling with
    | some name =>
      obtain ⟨t₂, s₂, hs₂, h₂, -, halters₂⟩ :=
        h₁.name hmethod (kind.functionName name.functionName)
      simp only [hlookup, EStateM.bind, hs₂] at heq
      cases heq
      refine ⟨⟨t₂, h₂⟩, ?_⟩
      rw [halters₂.getOwn?_eq (.inl hother.symm), Heap.getOwn?, hget₁ o h.constructor, Heap.getOwn?]
    | none =>
      simp only [hlookup] at heq
      obtain ⟨e, s₂, hs₂⟩ :=
        Eval.fault_eq_error (α := ClassPrivates) (.undeclaredPrivateName spelling) s₁
      rw [hs₂] at heq
      cases heq

/-- So it is with all elements of a class. -/
theorem defineElements_name (heng : ∀ ρ, eng.Keeps ρ) {o prototype : ObjectRef}
    (hne : o ≠ prototype) {scope : ScopeRef} {elements : List ClassElement} {t : Tracking}
    {s s' : State} (h : Making o prototype t s) {privates privates' : ClassPrivates}
    (heq : elements.foldlM (eng.defineElement scope o prototype) privates s = .ok privates' s')
    (hkeys : ("name" : PropertyKey) ∉ eng.staticKeysFrom scope o prototype elements privates s) :
    s'.heap.getOwn? o "name" = s.heap.getOwn? o "name" := by
  induction elements generalizing t s privates with
  | nil =>
    cases heq
    rfl
  | cons m rest ih =>
    rw [staticKeysFrom, List.mem_append, not_or, Option.mem_toList] at hkeys
    rw [List.foldlM_cons] at heq
    obtain ⟨privates₁, s₁, hfirst, heq⟩ := Eval.eq_ok_of_bind heq
    rw [hfirst] at hkeys
    obtain ⟨⟨t₁, h₁⟩, hname⟩ := defineElement_name heng hne h hfirst hkeys.1
    exact (ih h₁ heq hkeys.2).trans hname

/-- Before its elements are defined, a constructor has its name, and nothing refers to the objects of
the class. -/
theorem classObjects_making {c : ClassDef} {inner : ScopeRef} {name : String}
    {prototypeParent : Option ObjectRef} {parent o prototype : ObjectRef} {s s' : State}
    (hs : s.toStore.Closed) (hprototypeParent : Known .full s.heap.objects.size prototypeParent)
    (hparent : Known .full s.heap.objects.size parent)
    (heq : classObjects c inner name (prototypeParent, parent) s = .ok (prototype, o) s') :
    o ≠ prototype ∧ (∃ t, Making o prototype t s') ∧ Eval.HasName s'.heap o name := by
  simp only [classObjects, bind, EStateM.bind] at heq
  obtain ⟨s₁, hs₁, h₁, -, hlt₁⟩ := Eval.alloc_adds (s := s) (Nat.le_refl _)
    { prototype := prototypeParent, kind := .ordinary }
  have hs₁' : Eval.newObject prototypeParent .ordinary s = .ok s.heap.next s₁ := hs₁
  obtain ⟨hkept₁, -⟩ := Eval.Keeps.of_eq_ok trivial hs.obeys
    (fun ρ hρ => have : Known ρ.tracked _ prototypeParent := hρ ▸ hprototypeParent; inferInstance)
    hs₁'
  obtain ⟨o', s₂, hs₂, h₂, hnew, hlt₂, hne, hname⟩ :=
    Eval.createClass_name c inner name parent (Nat.le_refl s.heap.next.index) h₁.size hlt₁
  have hprototype : Known .full s₁.heap.objects.size s.heap.next :=
    ⟨fun _ => Within.full fun _ hp => .inl (hp ▸ hlt₁)⟩
  have hkeeps (ρ : Regime) (hρ : ρ.tracked = .full) :
      (Eval.createClass c inner name s.heap.next parent).Keeps ρ s₁.heap.objects.size := by
    have : Later s.heap.objects.size s₁.heap.objects.size := ⟨h₁.size⟩
    have : Known ρ.tracked s.heap.objects.size parent := hρ ▸ hparent
    have : Known ρ.tracked s₁.heap.objects.size s.heap.next := hρ ▸ hprototype
    infer_instance
  obtain ⟨hkept₂, -⟩ := Eval.Keeps.of_eq_ok trivial hkept₁.obeys hkeeps hs₂
  simp only [hs₁', hs₂] at heq
  cases heq
  have hconfined := (State.Confined.of_adds h₁).trans h₂
  refine ⟨hne, ⟨_, ?_, ?_, ?_, hs.obeys.hide hconfined.of_new hkept₂.obeys.toClosed⟩, hname⟩
  · exact trivial
  · exact .inr ⟨hnew, hlt₂⟩
  · exact .inr ⟨Nat.le_refl _, Nat.lt_of_lt_of_le hlt₁ h₂.size⟩

/-- What a class inherits from is known. -/
theorem classParents_known (heng : ∀ ρ, eng.Keeps ρ) {c : ClassDef} {scope inner : ScopeRef}
    {prototypeParent : Option ObjectRef} {parent : ObjectRef} {s s' : State}
    (hs : s.toStore.Closed)
    (heq : eng.classParents c scope s = .ok (inner, prototypeParent, parent) s') :
    s'.toStore.Closed ∧ Known .full s'.heap.objects.size prototypeParent ∧
      Known .full s'.heap.objects.size parent := by
  obtain ⟨hkept, hparents⟩ := Eval.Keeps.of_eq_ok trivial hs.obeys
    (fun ρ _ => have := heng ρ; by unfold classParents; infer_instance) heq
  exact ⟨hkept.obeys.toClosed, ⟨fun _ p hp => hparents p (.inr (.inl hp))⟩,
    ⟨fun _ p hp => hparents p (.inr (.inr hp))⟩⟩

/-- The name of a class constructor, if no static member is called so. -/
theorem evaluateClass_name (heng : ∀ ρ, eng.Keeps ρ) {c : ClassDef} {scope : ScopeRef}
    {name : String} {o : ObjectRef} {s s' : State} (hs : s.toStore.Closed)
    (heq : eng.evaluateClass c scope name s = .ok o s')
    (hkeys : ("name" : PropertyKey) ∉ eng.staticKeys c scope name s) :
    Eval.HasName s'.heap o name := by
  rw [evaluateClass_eq] at heq
  unfold staticKeys at hkeys
  obtain ⟨⟨inner, prototypeParent, parent⟩, s₁, hparents, heq⟩ := Eval.eq_ok_of_bind heq
  dsimp only at heq
  obtain ⟨hclosed, hprototypeParent, hparent⟩ := classParents_known heng hs hparents
  obtain ⟨s₄, hmade, rfl⟩ := Eval.within_eq_ok.mp heq
  obtain ⟨⟨prototype, o'⟩, s₂, hobjects, hmade⟩ := Eval.eq_ok_of_bind hmade
  dsimp only at hmade
  rw [hparents] at hkeys
  dsimp only at hkeys
  rw [hobjects] at hkeys
  dsimp only at hkeys
  let entered : State := { s₁ with site := s₁.site.enter (.classBody c) inner }
  obtain ⟨hne, ⟨t, h₁⟩, hname⟩ :=
    classObjects_making (s := entered) hclosed hprototypeParent hparent hobjects
  obtain ⟨privates, s₃, helements, hmade⟩ := Eval.eq_ok_of_bind hmade
  have hname₂ := defineElements_name heng hne h₁ helements hkeys
  obtain ⟨s₅, hs₅, hname₃⟩ := Eval.installPrivates_getOwn? o' privates o' "name" s₃
  obtain ⟨_, _, hs₅', hmade⟩ := Eval.eq_ok_of_bind hmade
  cases hs₅.symm.trans hs₅'
  obtain ⟨rfl, hheap⟩ : o' = o ∧ s₄.heap = s₅.heap := by
    cases hname : c.name <;> (rw [hname] at hmade; cases hmade; exact ⟨rfl, rfl⟩)
  rw [Eval.HasName, hheap, hname₃, hname₂]
  exact hname

/-! ### Making a literal -/

/-- Setting the prototype of a literal changes nothing else. -/
theorem eq_or_of_setProto {o : ObjectRef} {v : Value} {s s' : State}
    (h : setProto o v s = .ok () s') : s' = s ∨ ∃ prototype, s' =
      { s with heap := s.heap.modify o fun data => { data with prototype } } := by
  have hset (prototype : Option ObjectRef)
      (h : (discard (Eval.setPrototype o prototype) : Eval Unit) s = .ok () s') : s' = s ∨
        s' = { s with heap := s.heap.modify o fun data => { data with prototype } } := by
    change EStateM.map (fun _ => PUnit.unit) (Eval.setPrototype o prototype) s = _ at h
    unfold EStateM.map at h
    rw [Eval.setPrototype_apply] at h
    by_cases haccepts : s.heap.acceptsPrototype o prototype = true
    · rw [if_pos haccepts] at h
      cases h
      exact .inr rfl
    · rw [if_neg haccepts] at h
      cases h
      exact .inl rfl
  unfold setProto at h
  split at h
  · exact (hset _ h).imp_right fun heq => ⟨_, heq⟩
  · exact (hset _ h).imp_right fun heq => ⟨_, heq⟩
  · cases h
    exact .inl rfl

/-- A literal is being made: nothing refers to its object, which takes any property. -/
structure Filling (lit : ObjectRef) (t : Tracking) (s : State) : Prop
    extends Making lit lit t s where
  extensible : (s.heap.get lit).extensible = true
  configurable : ∀ k p, s.heap.getOwn? lit k = some p → p.isConfigurable = true

namespace Filling

variable {lit : ObjectRef} {t t' : Tracking} {s s' : State}

theorem lt (h : Filling lit t s) : lit.index < s.heap.objects.size :=
  h.obeys.hidden_lt lit h.constructor

/-- The object has the properties that it had. -/
theorem of_own (h : Filling lit t s) (hmaking : Making lit lit t' s')
    (hext : (s'.heap.get lit).extensible = (s.heap.get lit).extensible)
    (hown : ∀ k, s'.heap.getOwn? lit k = s.heap.getOwn? lit k) : Filling lit t' s' :=
  ⟨hmaking, hext.trans h.extensible, fun k p hp => h.configurable k p (hown k ▸ hp)⟩

theorem of_get (h : Filling lit t s) (hmaking : Making lit lit t' s')
    (hget : s'.heap.get lit = s.heap.get lit) : Filling lit t' s' :=
  h.of_own hmaking (congrArg _ hget) fun k => by rw [Heap.getOwn?, hget, Heap.getOwn?]

/-- Code that is run in between does not come to the object. -/
theorem run {α : Type} [Mentions α] {x : Eval α} {a : α} (h : Filling lit t s)
    (hx : ∀ ρ : Regime, x.Keeps ρ s.heap.objects.size) (heq : x s = .ok a s') :
    Filling lit t s' ∧ t.Within s'.heap.objects.size a := by
  obtain ⟨hkept, ha⟩ := Eval.Keeps.of_eq_ok h.on h.obeys (fun ρ _ => hx ρ) heq
  have hmaking : Making lit lit t s' := ⟨h.on, h.constructor, h.prototype, hkept.obeys⟩
  exact ⟨h.of_get hmaking (hkept.hidden lit h.constructor), ha⟩

/-- The object gets a property that can be configured. -/
theorem define (h : Filling lit t s) {key : PropertyKey} {d : Descriptor}
    (hknown : Known .full s.heap.objects.size d) (hd : ¬(d.isData = true ∧ d.isAccessor = true))
    (hconf : d.configurable = some true) {b : Bool} (heq : Eval.define lit key d s = .ok b s') :
    ∃ t', Filling lit t' s' := by
  obtain ⟨⟨t', h', -⟩, halters⟩ := h.toMaking.define h.constructor hknown heq
  refine ⟨t', h', halters.extensible.trans h.extensible, fun k p hp => ?_⟩
  by_cases hk : k = key
  · subst hk
    cases hdefine : (s.heap.get lit).define k d with
    | none =>
      have hstep : Eval.define lit k d s = .ok false s := by
        simp [Eval.define, Eval.tryObject, hdefine]
      cases hstep.symm.trans heq
      exact h.configurable k p hp
    | some data =>
      have hstep : Eval.define lit k d s =
          .ok true { s with heap := s.heap.modify lit fun _ => data } := by
        simp [Eval.define, Eval.tryObject, hdefine]
      cases hstep.symm.trans heq
      rw [Heap.getOwn?, Heap.get_modify_self h.lt] at hp
      obtain ⟨p', hp', hresult⟩ := ObjectData.define_result hd hdefine
      cases hp.symm.trans hp'
      exact hresult.isConfigurable hconf
  · exact h.configurable k p (halters.kept k hk ▸ hp)

theorem setProto (h : Filling lit t s) {v : Value} (hv : Known .full s.heap.objects.size v)
    (heq : Engine.setProto lit v s = .ok () s') : ∃ t', Filling lit t' s' := by
  have hkeeps (ρ : Regime) (hρ : ρ.tracked = .full) :
      (Engine.setProto lit v).Keeps ρ s.heap.objects.size := by
    have : Known ρ.tracked s.heap.objects.size lit := hρ ▸ h.full_of_hidden h.constructor
    have : Known ρ.tracked s.heap.objects.size v := hρ ▸ hv
    infer_instance
  obtain rfl | ⟨prototype, rfl⟩ : s' = s ∨ ∃ prototype, s' =
      { s with heap := s.heap.modify lit fun data => { data with prototype } } :=
    eq_or_of_setProto heq
  · exact ⟨t, h⟩
  · have hget := Heap.get_modify_self h.lt fun data => { data with prototype }
    have hstep : s.Confined t.hidden
        { s with heap := s.heap.modify lit fun data => { data with prototype } } := by
      refine ⟨by simp, fun p hp _ => ?_, rfl⟩
      obtain heq | ⟨rfl, -⟩ := s.heap.get_modify_cases lit _ p
      · exact heq
      · exact absurd h.constructor hp
    exact ⟨_, h.of_own (h.toMaking.step hkeeps heq hstep) (by rw [hget])
      fun k => by rw [Heap.getOwn?, hget]; rfl⟩

end Filling

variable {lit : ObjectRef} {t : Tracking} {s s' : State} {scope : ScopeRef}

theorem filling_newOrdinary (hs : s.toStore.Closed) (hlit : Eval.newOrdinary s = .ok lit s') :
    ∃ t, Filling lit t s' := by
  obtain ⟨s₁, hs₁, h₁, hget, hlt⟩ := Eval.alloc_adds (s := s) (Nat.le_refl _)
    { prototype := some Intrinsic.objectPrototype, kind := .ordinary }
  have hlit' : Eval.newOrdinary s = .ok s.heap.next s₁ := hs₁
  cases hlit.symm.trans hlit'
  obtain ⟨hkept, -⟩ := Eval.Keeps.of_eq_ok trivial hs.obeys (fun ρ _ => inferInstance) hlit
  have hhidden := hs.obeys.hide (State.Confined.of_adds h₁).of_new hkept.obeys.toClosed
  have hlit : (Tracking.full.more hs.obeys.intrinsics s'.heap.objects.size).hidden s.heap.next :=
    .inr ⟨Nat.le_refl _, hlt⟩
  refine ⟨_, ⟨trivial, hlit, hlit, hhidden⟩, by rw [hget], fun k p hp => ?_⟩
  rw [Heap.getOwn?, hget] at hp
  cases hp

theorem filling_defineMethod (heng : ∀ ρ, eng.Keeps ρ) (h : Filling lit t s) {name : PropertyName}
    {kind : MethodKind} {f : FunctionDef}
    (heq : eng.defineMethod lit name kind f scope s = .ok () s') : ∃ t', Filling lit t' s' := by
  obtain ⟨key, s₁, hkey, heq⟩ := Eval.eq_ok_of_bind heq
  obtain ⟨h₁, -⟩ := h.run (fun ρ => have := heng ρ; inferInstance) hkey
  obtain ⟨t₂, s₂, m, hs₂, h₂, -, hm, hother, hget₂⟩ := h₁.toMaking.method h₁.constructor f scope
  have hfilling₂ := h₁.of_get ⟨h₂.on, h₂.constructor, h₂.constructor, h₂.obeys⟩
    (hget₂ lit h₁.constructor)
  obtain ⟨_, _, hs₂', heq⟩ := Eval.eq_ok_of_bind heq
  cases hs₂.symm.trans hs₂'
  obtain ⟨t₃, s₃, hs₃, h₃, hmore₃, halters₃⟩ :=
    hfilling₂.toMaking.name hm (kind.functionName key.functionName)
  have hfilling₃ := hfilling₂.of_get h₃ (halters₃.others lit hother.symm)
  obtain ⟨_, _, hs₃', heq⟩ := Eval.eq_ok_of_bind heq
  cases hs₃.symm.trans hs₃'
  have := h₃.full_of_hidden (hmore₃ m hm)
  have hdescriptor : ¬((kind.descriptor m true).isData = true ∧
      (kind.descriptor m true).isAccessor = true) := by
    cases kind <;>
      simp [MethodKind.descriptor, Descriptor.isData, Descriptor.isAccessor, Descriptor.data]
  have hconfigurable : (kind.descriptor m true).configurable = some true := by
    cases kind <;> rfl
  exact hfilling₃.define inferInstance hdescriptor hconfigurable (eq_ok_of_defineOrThrow heq)

/-- A property of a literal leaves its object out of reach. -/
theorem filling_defineProperty (heng : ∀ ρ, eng.Keeps ρ) (h : Filling lit t s) {p : PropertyDef}
    (heq : eng.defineProperty lit scope p s = .ok () s') : ∃ t', Filling lit t' s' := by
  cases p with
  | method name f | getter name f | setter name f => exact filling_defineMethod heng h heq
  | init name e =>
    cases hproto : name.isProto with
    | true =>
      simp only [defineProperty, hproto, if_true] at heq
      obtain ⟨v, s₁, he, heq⟩ := Eval.eq_ok_of_bind heq
      obtain ⟨h₁, hv⟩ := h.run (fun ρ => have := heng ρ; inferInstance) he
      exact h₁.setProto ⟨fun _ => hv.there.full⟩ heq
    | false =>
      simp only [defineProperty, hproto, Bool.false_eq_true, if_false] at heq
      obtain ⟨key, s₁, hkey, heq⟩ := Eval.eq_ok_of_bind heq
      obtain ⟨h₁, -⟩ := h.run (fun ρ => have := heng ρ; inferInstance) hkey
      obtain ⟨v, s₂, hvalue, heq⟩ := Eval.eq_ok_of_bind heq
      obtain ⟨h₂, hv⟩ := h₁.run (fun ρ => have := heng ρ; inferInstance) hvalue
      have : Known .full s₂.heap.objects.size v := ⟨fun _ => hv.there.full⟩
      obtain ⟨b, s₃, hs₃, -⟩ := Eval.define_alters lit key (.plain v) s₂
      obtain ⟨t₃, h₃⟩ := h₂.define (d := .plain v) inferInstance
        (by simp [Descriptor.plain, Descriptor.data, Descriptor.isAccessor]) rfl hs₃
      change EStateM.map _ (Eval.define lit key (.plain v)) s₂ = _ at heq
      simp only [EStateM.map, hs₃] at heq
      cases heq
      exact ⟨t₃, h₃⟩

theorem filling_properties (heng : ∀ ρ, eng.Keeps ρ) {properties : List PropertyDef}
    (h : Filling lit t s)
    (heq : properties.forM (eng.defineProperty lit scope) s = .ok () s') :
    ∃ t', Filling lit t' s' := by
  induction properties generalizing t s with
  | nil =>
    cases heq
    exact ⟨t, h⟩
  | cons p rest ih =>
    obtain ⟨_, s₁, hfirst, heq⟩ := Eval.eq_ok_of_bind heq
    obtain ⟨t₁, h₁⟩ := filling_defineProperty heng h hfirst
    exact ih h₁ heq

/-! ### The value of a property -/

/-- A property of a literal has the value that it is given, and the name of a function stays as it
was. -/
theorem defineProperty_init (heng : ∀ ρ, eng.Keeps ρ) {key : PropertyName} {e : Expr}
    {k : PropertyKey} {g : ObjectRef} {s₁ s₂ : State} (h : Filling lit t s)
    (hkey : key.isProto = false) (hk : eng.propertyKey key scope s = .ok k s₁)
    (hvalue : eng.named e scope k.functionName s₁ = .ok (.object g) s₂) :
    ∃ s', eng.defineProperty lit scope (.init key e) s = .ok () s' ∧
      s'.heap.getOwn? lit k = some (.data (.object g) true true true) ∧
      ∀ name, Eval.HasName s₂.heap g name → Eval.HasName s'.heap g name := by
  obtain ⟨h₁, -⟩ := h.run (fun ρ => have := heng ρ; inferInstance) hk
  obtain ⟨h₂, hg⟩ := h₁.run (fun ρ => have := heng ρ; inferInstance) hvalue
  have hother : g ≠ lit := fun heq => (hg g rfl).2 (heq ▸ h₂.constructor)
  obtain ⟨s₃, hs₃, halters, hown⟩ :=
    Eval.put_plain (.object g) h₂.lt (h₂.configurable k) h₂.extensible
  refine ⟨s₃, ?_, hown, fun name hname => ?_⟩
  · simp only [defineProperty, hkey, Bool.false_eq_true, if_false, bind, EStateM.bind, hk, hvalue,
      hs₃]
  · rw [Eval.HasName, halters.getOwn?_eq (.inl hother)]
    exact hname

/-- Defines the rest of the properties of a literal. -/
def fillLiteral (eng : Engine) (lit : ObjectRef) (scope : ScopeRef) (properties : List PropertyDef) :
    Eval Value := do
  properties.forM (eng.defineProperty lit scope)
  return .object lit

theorem objectLiteral_eq_fill {before after : List PropertyDef} {p : PropertyDef}
    {s₀ s₁ : State} (hlit : Eval.newOrdinary s = .ok lit s₀)
    (hbefore : before.forM (eng.defineProperty lit scope) s₀ = .ok () s₁)
    (hp : eng.defineProperty lit scope p s₁ = .ok () s') :
    eng.objectLiteral (before ++ p :: after) scope s = eng.fillLiteral lit scope after s' := by
  have hsplit : (before ++ p :: after).forM (eng.defineProperty lit scope) = (do
      before.forM (eng.defineProperty lit scope)
      eng.defineProperty lit scope p
      after.forM (eng.defineProperty lit scope)) := by
    simp only [List.forM_eq_forM, List.forM_append, List.forM_cons]
  simp only [objectLiteral, fillLiteral, hsplit, bind, EStateM.bind, hlit, hbefore, hp]

/-- A class takes the name that a function takes exactly if that is the name for a symbol or
well-formed text. -/
theorem functionName_text_iff (k : PropertyKey) :
    Units.ofString k.functionName.text = k.functionName ↔
      (∃ sym, k = .symbol sym) ∨ ∃ text : String, k = text := by
  cases k with
  | symbol sym =>
    refine iff_of_true ?_ (.inl ⟨sym, rfl⟩)
    obtain ⟨id, description⟩ := sym
    cases description with
    | none => rfl
    | some d =>
      have hname : (PropertyKey.symbol ⟨id, some d⟩).functionName =
          Units.ofString ("[" ++ d.text ++ "]") := by
        rw [Units.ofString_append, Units.ofString_append]
        rfl
      rw [hname, Units.text_ofString]
  | string u =>
    constructor
    · exact fun h => .inr ⟨u.text, congrArg PropertyKey.string h.symm⟩
    · rintro (⟨_, h⟩ | ⟨text, h⟩)
      · cases h
      · have hu : u = Units.ofString text := PropertyKey.string.inj h
        rw [PropertyKey.functionName, hu, Units.text_ofString]

/-- In a literal with any other properties, an anonymous function takes the key of its property as its
name, unit for unit. An anonymous class without a static member `name` takes the text of the key.
That is the same name unless the key is no well-formed text. -/
theorem inferred_names (fuel : Nat) {before : List PropertyDef} {key : PropertyName}
    {scope : ScopeRef} {k : PropertyKey} {lit : ObjectRef} {s s₀ s₁ s₂ : State}
    (hs : s.toStore.Closed) (hkey : key.isProto = false)
    (hlit : Eval.newOrdinary s = .ok lit s₀)
    (hbefore : before.forM ((ofFuel fuel).defineProperty lit scope) s₀ = .ok () s₁)
    (hk : (ofFuel fuel).propertyKey key scope s₁ = .ok k s₂) :
    (∀ f : FunctionDef, f.name = none → ∃ g s',
      (ofFuel fuel).defineProperty lit scope (.init key (.function f)) s₁ = .ok () s' ∧
        (∀ after, (ofFuel fuel).objectLiteral (before ++ .init key (.function f) :: after) scope s =
          (ofFuel fuel).fillLiteral lit scope after s') ∧
        s'.heap.getOwn? lit k = some (.data (.object g) true true true) ∧
        Eval.HasName s'.heap g k.functionName) ∧
      (∀ (c : ClassDef) (s' : State), c.name = none →
        ("name" : PropertyKey) ∉ (ofFuel fuel).staticKeys c scope k.functionName.text s₂ →
        (ofFuel fuel).defineProperty lit scope (.init key (.classExpr c)) s₁ = .ok () s' →
        (∀ after, (ofFuel fuel).objectLiteral (before ++ .init key (.classExpr c) :: after) scope s =
          (ofFuel fuel).fillLiteral lit scope after s') ∧
        ∃ g, s'.heap.getOwn? lit k = some (.data (.object g) true true true) ∧
          Eval.HasName s'.heap g (Units.ofString k.functionName.text)) ∧
      (∀ u, k = .string u → k.functionName = u) ∧
      (Units.ofString k.functionName.text = k.functionName ↔
        (∃ sym, k = .symbol sym) ∨ ∃ text : String, k = text) := by
  have heng (ρ : Regime) : (ofFuel fuel).Keeps ρ := inferInstance
  obtain ⟨t₀, h₀⟩ := filling_newOrdinary hs hlit
  obtain ⟨t, h₁⟩ := filling_properties heng h₀ hbefore
  refine ⟨fun f hf => ?_, fun c s' hc hkeys heq => ?_, ?_, functionName_text_iff k⟩
  · obtain ⟨g, s₃, hs₃, hname⟩ := Eval.instantiateFunction_name f scope k.functionName s₂
    have hvalue : (ofFuel fuel).named (.function f) scope k.functionName s₂ =
        .ok (.object g) s₃ := by
      simp [named, Expr.isAnonymousFunction, hf, Functor.map, EStateM.map, hs₃]
    obtain ⟨s', hs', hown, hnames⟩ := defineProperty_init heng h₁ hkey hk hvalue
    exact ⟨g, s', hs', fun after => objectLiteral_eq_fill hlit hbefore hs', hown, hnames _ hname⟩
  · refine ⟨fun after => objectLiteral_eq_fill hlit hbefore heq, ?_⟩
    have hrun := heq
    simp only [defineProperty, hkey, Bool.false_eq_true, if_false] at hrun
    obtain ⟨_, _, hk', hrun⟩ := Eval.eq_ok_of_bind hrun
    cases hk.symm.trans hk'
    obtain ⟨_, s₃, hvalue, -⟩ := Eval.eq_ok_of_bind hrun
    have hclass : (ofFuel fuel).named (.classExpr c) scope k.functionName =
        ((ofFuel fuel).evaluateClass c scope k.functionName.text >>= fun g =>
          pure (.object g)) := by
      simp [named, Expr.isAnonymousFunction, hc]
    rw [hclass] at hvalue
    obtain ⟨g, _, hmade, hg⟩ := Eval.eq_ok_of_bind hvalue
    cases hg
    rw [← hclass] at hvalue
    obtain ⟨h₂, -⟩ := h₁.run (fun ρ => have := heng ρ; inferInstance) hk
    have hname := evaluateClass_name heng h₂.obeys.toClosed hmade hkeys
    obtain ⟨s'', hs'', hown, hnames⟩ := defineProperty_init heng h₁ hkey hk hvalue
    cases heq.symm.trans hs''
    exact ⟨g, hown, hnames _ hname⟩
  · rintro u rfl
    rfl

/-- An anonymous function without parameters. -/
def emptyFunction : FunctionDef where
  name := none
  kind := .normal
  params := []
  body := []
  strict := true
  varNames := []
  source := "function () \x7b\x7d"

/-- An anonymous class with one static method. -/
def classWith (key : Units) : ClassDef where
  name := none
  heritage := none
  constructorDef := none
  elements := [.publicElement (.string key) .method { emptyFunction with kind := .method } true]
  source := "class \x7b static m() \x7b\x7d \x7d"

/-- A text as the key, behind a property that is null, and a class with a static method of another
name. -/
theorem inferred_names_static :
    let eng := ofFuel 1
    let scope := Intrinsic.globalScope
    let first := [PropertyDef.init (.string "e") (.literal .null)]
    let c := classWith "m"
    ∃ lit s₁, State.initial.toStore.Closed ∧
      eng.propertyKey (.string "f") scope s₁ = .ok (.string "f") s₁ ∧
      eng.staticKeys c scope "f" s₁ = [.string "m"] ∧
      (∃ g s', eng.objectLiteral (first ++ [.init (.string "f") (.function emptyFunction)]) scope
          State.initial = .ok (.object lit) s' ∧ Eval.HasName s'.heap g "f") ∧
      ∃ g s', eng.objectLiteral (first ++ [.init (.string "f") (.classExpr c)]) scope State.initial =
          .ok (.object lit) s' ∧
        s'.heap.getOwn? lit (.string "f") = some (.data (.object g) true true true) ∧
        Eval.HasName s'.heap g "f" := by
  intro eng scope first c
  obtain ⟨_, hrun⟩ : ∃ s', (do
      let lit ← Eval.newOrdinary
      first.forM (eng.defineProperty lit scope)
      let s₁ ← getThe State
      eng.defineProperty lit scope (.init (.string "f") (.classExpr c))
      return eng.staticKeys c scope "f" s₁ : Eval (List PropertyKey)) State.initial =
        .ok [.string "m"] s' :=
    Eval.exists_eq_ok_of_run' (by decide +kernel)
  obtain ⟨lit, s₀, hlit, hrun⟩ := Eval.eq_ok_of_bind hrun
  obtain ⟨_, s₁, hs₁, hrun⟩ := Eval.eq_ok_of_bind hrun
  obtain ⟨_, _, hget, hrun⟩ := Eval.eq_ok_of_bind hrun
  cases hget
  obtain ⟨_, s', hmade, hrun⟩ := Eval.eq_ok_of_bind hrun
  have hkeys : eng.staticKeys c scope "f" s₁ = [.string "m"] := by injection hrun
  have hfree : ("name" : PropertyKey) ∉ eng.staticKeys c scope "f" s₁ := by
    rw [hkeys]
    decide +kernel
  have htext : (PropertyKey.string "f").functionName.text = "f" := Units.text_ofString "f"
  obtain ⟨hfunction, hclass, -, -⟩ := inferred_names 1 State.closed_initial
    (show (PropertyName.string "f").isProto = false by decide +kernel) hlit hs₁
    (show eng.propertyKey (.string "f") scope s₁ = .ok (.string "f") s₁ from rfl)
  rw [htext] at hclass
  obtain ⟨f, s₂, -, hrest, -, hname⟩ := hfunction emptyFunction rfl
  obtain ⟨hrest', g, hown, hname'⟩ := hclass c s' rfl hfree hmade
  exact ⟨lit, s₁, State.closed_initial, rfl, hkeys, ⟨f, s₂, hrest [], hname⟩, g, s', hrest' [],
    hown, hname'⟩

/-- The name of the value of a literal with one property, if that is evaluated at first. -/
def givenName? (key : Units) (e : Expr) : Option Units :=
  match (ofFuel 1).objectLiteral [.init (.string key) e] Intrinsic.globalScope State.initial with
  | .ok (.object lit) s =>
    match s.heap.getOwn? lit (.string key) with
    | some (.data (.object g) ..) =>
      match s.heap.getOwn? g "name" with
      | some (.data (.string name) ..) => some name
      | _ => none
    | _ => none
  | _ => none

/-- A lone surrogate is the name of the function, and not that of the class. -/
theorem inferred_names_surrogate :
    let key : Units := ⟨[0xD800]⟩
    givenName? key (.function emptyFunction) = some key ∧
      givenName? key (.classExpr (classWith "m")) = some ⟨[0xFFFD]⟩ := by
  decide +kernel

end Engine

end Ecma
