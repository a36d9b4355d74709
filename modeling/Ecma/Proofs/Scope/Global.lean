import Ecma.Proofs.Object.Acyclic
import Ecma.Proofs.Object.Definition
import Ecma.Proofs.Scope.Binding
import Ecma.Proofs.Text.Encoding

/-! Making the global bindings of a script is all or nothing. What is checked before decides it: a
script that is not admitted changes neither the global object nor a scope, and for one that is
admitted every later step succeeds without running script code. -/

namespace Ecma

open Intrinsic (globalObject globalScope)

/-! ### Properties of the global object -/

/-- Where a global function may be declared, its description is accepted and makes a property that
can be assigned and is listed, but cannot be removed. -/
theorem Heap.define_globalFunction {h : Heap} {name : String} (v : Value)
    (hcan : Eval.canDeclareFunction name h = true) :
    ∃ data, (h.get globalObject).define name
        (Eval.globalFunction (h.getOwn? globalObject name) v) = some data ∧
      data.getOwn? name = some (.data v true true false) := by
  unfold Eval.canDeclareFunction at hcan
  unfold Heap.getOwn? at hcan ⊢
  cases hcurrent : (h.get globalObject).getOwn? name with
  | none =>
    rw [hcurrent] at hcan
    exact ObjectData.define_new hcurrent hcan
  | some p =>
    rw [hcurrent] at hcan
    cases hconf : p.isConfigurable with
    | true =>
      have hfull : Eval.globalFunction (some p) v = .data v true true false := by
        simp [Eval.globalFunction, hconf]
      have hallows : (Descriptor.data v true true false).allows p = true := by
        simp [Descriptor.allows, hconf]
      obtain ⟨data, hdata⟩ := ObjectData.define_of_allows hcurrent hallows
      rw [hfull]
      refine ⟨data, hdata, ?_⟩
      rw [ObjectData.getOwn?_define_changeable hdata hcurrent (.inl hconf)]
      cases p <;> rfl
    | false =>
      have hvalue : Eval.globalFunction (some p) v = { value := some v } := by
        simp [Eval.globalFunction, hconf]
      obtain ⟨w, rfl⟩ : ∃ w, p = .data w true true false := by
        cases p with
        | data w writable e c =>
          simp_all [Property.isConfigurable, Property.isWritable, Property.isEnumerable]
        | accessor get set e c => simp_all [Property.isConfigurable, Property.isWritable]
      rw [hvalue]
      exact ObjectData.define_value hcurrent

/-! ### Steps that run no script code -/

/-- A state in which the objects that were there are of the same kind, of which the first `n` have
not changed, and no scope has. -/
structure State.Adds (n : Nat) (s s' : State) : Prop where
  size : s.heap.objects.size ≤ s'.heap.objects.size
  objects : ∀ o : ObjectRef, o.index < n → s'.heap.get o = s.heap.get o
  kinds : ∀ o : ObjectRef, o.index < s.heap.objects.size →
    (s'.heap.get o).kind = (s.heap.get o).kind
  scopes : s'.scopes = s.scopes

theorem State.Adds.refl (n : Nat) (s : State) : s.Adds n s :=
  ⟨Nat.le_refl _, fun _ _ => rfl, fun _ _ => rfl, rfl⟩

theorem State.Adds.trans {n : Nat} {s₁ s₂ s₃ : State} (h₁ : s₁.Adds n s₂) (h₂ : s₂.Adds n s₃) :
    s₁.Adds n s₃ where
  size := Nat.le_trans h₁.size h₂.size
  objects o ho := (h₂.objects o ho).trans (h₁.objects o ho)
  kinds o ho := (h₂.kinds o (Nat.lt_of_lt_of_le ho h₁.size)).trans (h₁.kinds o ho)
  scopes := h₂.scopes.trans h₁.scopes

namespace Eval

variable {n : Nat} {s : State}

theorem alloc_adds (hn : n ≤ s.heap.objects.size) (data : ObjectData) :
    ∃ s', alloc data s = .ok s.heap.next s' ∧ s.Adds n s' ∧ s'.heap.get s.heap.next = data ∧
      s.heap.next.index < s'.heap.objects.size := by
  have hold (o : ObjectRef) (ho : o.index < s.heap.objects.size) :
      (s.heap.push data).get o = s.heap.get o := by
    simp [Heap.get, Heap.push, Array.getD_eq_getD_getElem?, Array.getElem?_push, Nat.ne_of_lt ho]
  refine ⟨_, rfl, ⟨?_, ?_, ?_, rfl⟩, Heap.get_push_next _ _, ?_⟩
  · simp
  · exact fun o ho => hold o (Nat.lt_of_lt_of_le ho hn)
  · exact fun o ho => congrArg ObjectData.kind (hold o ho)
  · simp [Heap.next]

theorem put_adds {o : ObjectRef} (ho : n ≤ o.index) (key : PropertyKey) (d : Descriptor) :
    ∃ s', put o key d s = .ok () s' ∧ s.Adds n s' := by
  cases hdefine : (s.heap.get o).define key d with
  | none =>
    refine ⟨s, ?_, .refl n s⟩
    simp [put, define, tryObject, discard, Functor.discard, Functor.mapConst, EStateM.map, hdefine]
  | some data =>
    refine ⟨{ s with heap := s.heap.modify o fun _ => data }, ?_, ⟨?_, fun p hp => ?_, ?_, rfl⟩⟩
    · simp [put, define, tryObject, discard, Functor.discard, Functor.mapConst, EStateM.map, hdefine]
    · simp
    · obtain heq | ⟨rfl, -⟩ := s.heap.get_modify_cases o (fun _ => data) p
      · exact heq
      · omega
    · intro p _
      obtain heq | ⟨rfl, heq⟩ := s.heap.get_modify_cases o (fun _ => data) p
      · rw [heq]
      · rw [heq, ObjectData.kind_define hdefine]

/-- An error that is thrown is a new object. -/
theorem raise_adds {α : Type} (cause : Cause) (hn : n ≤ s.heap.objects.size) :
    ∃ s', (raise cause : Eval α) s = .error (.thrown (.object s.heap.next)) s' ∧ s.Adds n s' := by
  obtain ⟨s₁, hs₁, h₁, -, -⟩ := alloc_adds hn
    { prototype := some (Intrinsic.errorPrototype cause.kind), kind := .error }
  obtain ⟨s₂, hs₂, h₂⟩ := put_adds (s := s₁) (o := s.heap.next) hn "message"
    (.hidden (.ofText cause.message))
  refine ⟨s₂, ?_, h₁.trans h₂⟩
  simp only [raise, createError, newObject, bind, EStateM.bind, hs₁, hs₂, pure, EStateM.pure,
    throwValue, throw, throwThe, MonadExceptOf.throw, EStateM.throw]

/-- Code at a site gives what it gives in the state that is there, and leaves the site as it was. -/
theorem atSite_eq_ok {α : Type} {l : Site} {x : Eval α} {a : α} {s' : State} :
    atSite l x s = .ok a s' ↔
      ∃ s₁, x { s with site := l } = .ok a s₁ ∧ s' = { s₁ with site := s.site } := by
  unfold atSite
  cases x { s with site := l } with
  | ok b s₁ => grind
  | error e s₁ => simp

theorem within_eq_ok {α : Type} {around : Around} {q : ScopeRef} {x : Eval α} {a : α}
    {s' : State} : within around q x s = .ok a s' ↔
      ∃ s₁, x { s with site := s.site.enter around q } = .ok a s₁ ∧
        s' = { s₁ with site := s.site } :=
  atSite_eq_ok

/-- The object of a declared function is new, and a function with the code that is given. -/
theorem instantiateFunction_adds (f : FunctionDef) (scope : ScopeRef) (name : Units)
    (hn : n ≤ s.heap.objects.size) :
    ∃ s' function, instantiateFunction f scope name s = .ok s.heap.next s' ∧ s.Adds n s' ∧
      s.heap.next.index < s'.heap.objects.size ∧
      s'.heap.scriptFunction? s.heap.next = some function ∧
      function.code = .script f ∧ function.scope = scope := by
  obtain ⟨s₁, hs₁, h₁, hget, hlt⟩ := alloc_adds hn
    { prototype := some Intrinsic.functionPrototype, kind := .function
        { code := .script f, scope, site := s.site, strict := f.strict, homeObject := none
          constructorKind := some .base, classSource := none, privateMethods := [] } }
  obtain ⟨s₂, hs₂, h₂⟩ := put_adds (s := s₁) (o := s.heap.next) hn "length"
    (.data (.number (Number.ofInt f.params.length)) false false true)
  obtain ⟨s₃, hs₃, h₃⟩ := put_adds (s := s₂) (o := s.heap.next) hn "name"
    (.data (.string name) false false true)
  have hn₃ : n ≤ s₃.heap.objects.size :=
    Nat.le_trans hn (h₁.trans (h₂.trans h₃)).size
  obtain ⟨s₄, hs₄, h₄, -, -⟩ := alloc_adds hn₃
    { prototype := some Intrinsic.objectPrototype, kind := .ordinary }
  obtain ⟨s₅, hs₅, h₅⟩ := put_adds (s := s₄) (o := s₃.heap.next) hn₃ "constructor"
    (.hidden (.object s.heap.next))
  obtain ⟨s₆, hs₆, h₆⟩ := put_adds (s := s₅) (o := s.heap.next) hn "prototype"
    (.data (.object s₃.heap.next) true false false)
  have hrest := h₂.trans (h₃.trans (h₄.trans (h₅.trans h₆)))
  have hfunction := Store.scriptFunction?_eq_some_iff.mpr
    ((hrest.kinds _ hlt).trans (congrArg ObjectData.kind hget))
  refine ⟨s₆, _, ?_, h₁.trans hrest, Nat.lt_of_lt_of_le hlt hrest.size, hfunction, rfl, rfl⟩
  simp only [instantiateFunction, createFunction, setFunctionName, makeConstructor, newOrdinary,
    newObject, site, bind, EStateM.bind, hs₁, hs₂, hs₃, hs₄, hs₅, hs₆, pure, EStateM.pure]

end Eval

/-! ### Checks -/

namespace Eval

/-- A check of a condition: it changes nothing if the condition holds, and throws a new error
otherwise. -/
def Checks (x : Eval Unit) (s : State) (P : Prop) : Prop :=
  (P ∧ x s = .ok () s) ∨ (¬P ∧ ∃ cause, x s = raise cause s)

variable {x y : Eval Unit} {s : State} {P Q : Prop}

theorem Checks.raise_if (b : Bool) (cause : Cause) :
    Checks (if b then raise cause else pure ()) s (b = false) := by
  cases b with
  | false => exact .inl ⟨rfl, rfl⟩
  | true => exact .inr ⟨Bool.noConfusion, cause, rfl⟩

theorem Checks.congr (h : x.Checks s P) (hPQ : P ↔ Q) : x.Checks s Q :=
  propext hPQ ▸ h

theorem Checks.and (hx : x.Checks s P) (hy : y.Checks s Q) :
    Checks (x >>= fun _ => y) s (P ∧ Q) := by
  rcases hx with ⟨hP, hx⟩ | ⟨hP, cause, hx⟩
  · have hbind : (x >>= fun _ => y) s = y s := by simp only [bind, EStateM.bind, hx]
    rcases hy with ⟨hQ, hy⟩ | ⟨hQ, cause, hy⟩
    · exact .inl ⟨⟨hP, hQ⟩, hbind.trans hy⟩
    · exact .inr ⟨fun h => hQ h.2, cause, hbind.trans hy⟩
  · refine .inr ⟨fun h => hP h.1, cause, ?_⟩
    obtain ⟨s', hs', -⟩ := raise_adds (α := Unit) (s := s) cause (Nat.le_refl _)
    rw [hs'] at hx ⊢
    simp only [bind, EStateM.bind, hx]

theorem Checks.forM {α : Type} {xs : List α} {f : α → Eval Unit} {P : α → Prop}
    (h : ∀ a, (f a).Checks s (P a)) : Checks (xs.forM f) s (∀ a ∈ xs, P a) := by
  induction xs with
  | nil => exact .inl ⟨by simp, rfl⟩
  | cons a rest ih =>
    exact ((h a).and ih).congr List.forall_mem_cons.symm

end Eval

/-- What the global scope and the global object must be like for a script to run: its lexical names
are new and take no fixed property's place, its other names are not lexical ones of earlier scripts,
and the properties of its functions and variables are there or may be made. -/
structure Store.Admits (st : Store) (p : Program) : Prop where
  lexical : ∀ name ∈ Stmt.lexicalNamesOf p.body,
    (st.scopes.get globalScope).has name = false ∧
      (st.heap.getOwn? globalObject name).all Property.isConfigurable = true
  unbound : ∀ name ∈ p.varNames ++ (Stmt.functionsOf p.body).filterMap FunctionDef.name,
    (st.scopes.get globalScope).has name = false
  functions : ∀ f ∈ Stmt.functionsOf p.body, Eval.canDeclareFunction (f.name.getD "") st.heap = true
  vars : ∀ name ∈ p.varNames, Eval.canDeclareVar name st.heap = true

instance (st : Store) (p : Program) : Decidable (st.Admits p) :=
  decidable_of_iff
    ((∀ name ∈ Stmt.lexicalNamesOf p.body, (st.scopes.get globalScope).has name = false ∧
        (st.heap.getOwn? globalObject name).all Property.isConfigurable = true) ∧
      (∀ name ∈ p.varNames ++ (Stmt.functionsOf p.body).filterMap FunctionDef.name,
        (st.scopes.get globalScope).has name = false) ∧
      (∀ f ∈ Stmt.functionsOf p.body,
        Eval.canDeclareFunction (f.name.getD "") st.heap = true) ∧
      ∀ name ∈ p.varNames, Eval.canDeclareVar name st.heap = true)
    ⟨fun ⟨lexical, unbound, functions, vars⟩ => ⟨lexical, unbound, functions, vars⟩,
      fun h => ⟨h.lexical, h.unbound, h.functions, h.vars⟩⟩

namespace Eval

variable {s : State} {functions : List FunctionDef} {f : FunctionDef}

theorem mem_of_mem_lastFunctions (h : f ∈ lastFunctions functions) : f ∈ functions := by
  induction functions with
  | nil => cases h
  | cons g rest ih =>
    rw [lastFunctions, List.foldr_cons] at h
    split at h
    · exact List.mem_cons_of_mem _ (ih h)
    · rcases List.mem_cons.mp h with rfl | h
      · exact List.mem_cons_self
      · exact List.mem_cons_of_mem _ (ih h)

/-- Every function is one of the last ones, or one of those has its name. -/
theorem exists_mem_lastFunctions (h : f ∈ functions) :
    ∃ g ∈ lastFunctions functions, g.name = f.name := by
  induction functions with
  | nil => cases h
  | cons g rest ih =>
    rw [lastFunctions, List.foldr_cons]
    change ∃ k ∈ if (lastFunctions rest).any (·.name == g.name) then lastFunctions rest
      else g :: lastFunctions rest, k.name = f.name
    split
    · next hany =>
      rcases List.mem_cons.mp h with rfl | h
      · simpa using hany
      · exact ih h
    · rcases List.mem_cons.mp h with rfl | h
      · exact ⟨f, List.mem_cons_self, rfl⟩
      · obtain ⟨k, hk, hname⟩ := ih h
        exact ⟨k, List.mem_cons_of_mem _ hk, hname⟩

theorem nodup_lastFunctions (functions : List FunctionDef) :
    ((lastFunctions functions).map FunctionDef.name).Nodup := by
  induction functions with
  | nil => exact List.nodup_nil
  | cons g rest ih =>
    rw [lastFunctions, List.foldr_cons]
    change (List.map FunctionDef.name (if (lastFunctions rest).any (·.name == g.name) then
      lastFunctions rest else g :: lastFunctions rest)).Nodup
    split
    · exact ih
    · next hany =>
      refine List.nodup_cons.mpr ⟨fun hmem => hany ?_, ih⟩
      obtain ⟨k, hk, hname⟩ := List.mem_map.mp hmem
      exact List.any_eq_true.mpr ⟨k, hk, beq_iff_eq.mpr hname⟩

/-- A function that no later one replaces is among the last ones. -/
theorem mem_lastFunctions_of_last {before after : List FunctionDef}
    (h : ∀ g ∈ after, g.name ≠ f.name) : f ∈ lastFunctions (before ++ f :: after) := by
  induction before with
  | nil =>
    rw [List.nil_append, lastFunctions, List.foldr_cons]
    change f ∈ if (lastFunctions after).any (·.name == f.name) then lastFunctions after
      else f :: lastFunctions after
    have hnone : (lastFunctions after).any (·.name == f.name) = false := by
      refine List.any_eq_false.mpr fun g hg => ?_
      simpa using h g (mem_of_mem_lastFunctions hg)
    rw [hnone]
    exact List.mem_cons_self
  | cons g rest ih =>
    rw [List.cons_append, lastFunctions, List.foldr_cons]
    split
    · exact ih
    · exact List.mem_cons_of_mem _ ih

/-- What is checked before a script makes its global bindings. -/
def checkGlobals (p : Program) : Eval Unit := do
  checkGlobalNames p
  (lastFunctions (Stmt.functionsOf p.body)).reverse.forM fun f => do
    if !(← heap (canDeclareFunction (f.name.getD ""))) then
      raise (.globalFunction (f.name.getD ""))
  p.varNames.forM fun name => do
    if !(← heap (canDeclareVar name)) then raise (.globalVariable name)

/-- All checks together are one of whether the script is admitted. -/
theorem checks_checkGlobals (p : Program) : (checkGlobals p).Checks s (s.Admits p) := by
  have hlexical (name : String) : Checks (do
      let bound ← scopes fun s => (s.get globalScope).has name
      let fixed ← heap fun h => (h.getOwn? globalObject name).any (!·.isConfigurable)
      if bound || fixed then raise (.redeclared name)) s
      ((s.scopes.get globalScope).has name = false ∧
        (s.heap.getOwn? globalObject name).all Property.isConfigurable = true) := by
    refine (Checks.raise_if ((s.scopes.get globalScope).has name ||
      (s.heap.getOwn? globalObject name).any (!·.isConfigurable)) (.redeclared name)).congr ?_
    cases s.heap.getOwn? globalObject name <;> simp
  have hunbound (name : String) := Checks.raise_if (s := s)
    ((s.scopes.get globalScope).has name) (.redeclared name)
  have hfunction (f : FunctionDef) := Checks.raise_if (s := s)
    (!canDeclareFunction (f.name.getD "") s.heap) (.globalFunction (f.name.getD ""))
  have hvar (name : String) := Checks.raise_if (s := s)
    (!canDeclareVar name s.heap) (.globalVariable name)
  refine Checks.congr (Checks.and (Checks.and (Checks.forM hlexical) (Checks.forM hunbound))
    (Checks.and (Checks.forM hfunction) (Checks.forM hvar))) ?_
  simp only [Bool.not_eq_false', List.mem_reverse]
  constructor
  · rintro ⟨⟨hlexical, hunbound⟩, hfunctions, hvars⟩
    refine ⟨hlexical, hunbound, fun f hf => ?_, hvars⟩
    obtain ⟨g, hg, hname⟩ := exists_mem_lastFunctions hf
    exact hname ▸ hfunctions g hg
  · rintro ⟨hlexical, hunbound, hfunctions, hvars⟩
    exact ⟨⟨hlexical, hunbound⟩, fun f hf => hfunctions f (mem_of_mem_lastFunctions hf), hvars⟩

end Eval

/-! ### Effects -/

/-- A state in which properties of the global object have been defined under some names: objects may
have been added, and everything else about the global object and the scopes is as it was. -/
structure State.Defines (names : List String) (s s' : State) : Prop where
  size : s.heap.objects.size ≤ s'.heap.objects.size
  kinds : ∀ o : ObjectRef, o.index < s.heap.objects.size →
    (s'.heap.get o).kind = (s.heap.get o).kind
  others : ∀ key : PropertyKey, (∀ name ∈ names, key ≠ name) →
    s'.heap.getOwn? globalObject key = s.heap.getOwn? globalObject key
  present : ∀ key, (s.heap.getOwn? globalObject key).isSome = true →
    (s'.heap.getOwn? globalObject key).isSome = true
  extensible : (s'.heap.get globalObject).extensible = (s.heap.get globalObject).extensible
  prototype : (s'.heap.get globalObject).prototype = (s.heap.get globalObject).prototype
  scopes : s'.scopes = s.scopes

namespace State.Defines

variable {names names' : List String} {s s' s₁ s₂ s₃ : State}

theorem of_adds {n : Nat} (hn : globalObject.index < n) (h : s.Adds n s') : s.Defines [] s' := by
  have hglobal := h.objects _ hn
  refine ⟨h.size, h.kinds, fun key _ => ?_, fun key hkey => ?_, ?_, ?_, h.scopes⟩
  · rw [Heap.getOwn?, hglobal, Heap.getOwn?]
  · rwa [Heap.getOwn?, hglobal]
  · rw [hglobal]
  · rw [hglobal]

theorem trans (h₁ : s₁.Defines names s₂) (h₂ : s₂.Defines names' s₃) :
    s₁.Defines (names ++ names') s₃ where
  size := Nat.le_trans h₁.size h₂.size
  kinds o ho := (h₂.kinds o (Nat.lt_of_lt_of_le ho h₁.size)).trans (h₁.kinds o ho)
  others key hkey := by
    rw [List.forall_mem_append] at hkey
    exact (h₂.others key hkey.2).trans (h₁.others key hkey.1)
  present key hkey := h₂.present key (h₁.present key hkey)
  extensible := h₂.extensible.trans h₁.extensible
  prototype := h₂.prototype.trans h₁.prototype
  scopes := h₂.scopes.trans h₁.scopes

theorem mono (h : s.Defines names s') (hsub : names ⊆ names') : s.Defines names' s' :=
  { h with others := fun key hkey => h.others key fun name hname => hkey name (hsub hname) }

theorem canDeclareFunction (h : s.Defines names s') {name : String} (hname : name ∉ names) :
    Eval.canDeclareFunction name s'.heap = Eval.canDeclareFunction name s.heap := by
  have hkey : ∀ other ∈ names, (name : PropertyKey) ≠ other := by
    intro other hother heq
    exact hname (Units.ofString_inj (PropertyKey.string.inj heq) ▸ hother)
  rw [Eval.canDeclareFunction, h.others _ hkey, h.extensible, Eval.canDeclareFunction]

theorem canDeclareVar (h : s.Defines names s') {name : String}
    (hcan : Eval.canDeclareVar name s.heap = true) : Eval.canDeclareVar name s'.heap = true := by
  rw [Eval.canDeclareVar, Bool.or_eq_true] at hcan ⊢
  exact hcan.imp (h.present _) h.extensible.trans

end State.Defines

namespace Eval

variable {s : State} {name : String} {d : Descriptor} {data : ObjectData}

/-- Defining a property of the global object, where that is allowed. -/
theorem define_global (hglobal : globalObject.index < s.heap.objects.size)
    (hdefine : (s.heap.get globalObject).define name d = some data) :
    ∃ s', define globalObject name d s = .ok true s' ∧ s.Defines [name] s' ∧
      s'.heap.get globalObject = data := by
  have hget := Heap.get_modify_self hglobal fun _ => data
  refine ⟨{ s with heap := s.heap.modify globalObject fun _ => data }, ?_,
    ⟨?_, fun o _ => ?_, fun key hkey => ?_, fun key hkey => ?_, ?_, ?_, rfl⟩, hget⟩
  · simp only [define, tryObject, hdefine]
  · simp
  · obtain heq | ⟨rfl, heq⟩ := s.heap.get_modify_cases globalObject (fun _ => data) o
    · rw [heq]
    · rw [heq, ObjectData.kind_define hdefine]
  · rw [Heap.getOwn?, hget]
    exact ObjectData.getOwn?_define_ne hdefine (hkey name List.mem_cons_self)
  · have hkeys : (s.heap.get globalObject).hasOwn key = true := hkey
    rw [ObjectData.hasOwn_iff] at hkeys
    rw [Heap.getOwn?, hget]
    refine ObjectData.hasOwn_iff.mpr ?_
    rw [ObjectData.exoticProperty?_of_kind (ObjectData.kind_define hdefine)]
    refine hkeys.imp_right fun hmem => ?_
    cases hown : (s.heap.get globalObject).hasOwn name with
    | true => rwa [ObjectData.keys_define_own hdefine hown]
    | false =>
      rw [ObjectData.keys_define_new hdefine hown]
      exact List.mem_append_left _ hmem
  · rw [hget, ObjectData.extensible_define hdefine]
  · rw [hget, ObjectData.prototype_define hdefine]

end Eval

theorem Heap.find?_of_getOwn? {h : Heap} {o : ObjectRef} {key : PropertyKey} {p : Property}
    (ho : o.index < h.objects.size) (hp : h.getOwn? o key = some p) : h.find? o key = some p := by
  obtain ⟨n, hn⟩ := Nat.exists_eq_add_one_of_ne_zero (Nat.ne_zero_of_lt ho)
  rw [find?, chain, hn, chainFrom, List.findSome?_cons, hp]

namespace Engine

/-- A step that runs no script code: it ends with the same value in the same state, whatever the
evaluator that it is given. -/
def Settles {α : Type} (step : Engine → Eval α) (s : State) (Q : α → State → Prop) : Prop :=
  ∃ a s', (∀ eng, step eng s = .ok a s') ∧ Q a s'

variable {α β : Type} {s : State}

theorem Settles.bind {x : Engine → Eval α} {f : Engine → α → Eval β} {P : α → State → Prop}
    {Q : β → State → Prop} (hx : Settles x s P)
    (hf : ∀ a s', P a s' → Settles (fun eng => f eng a) s' Q) :
    Settles (fun eng => x eng >>= f eng) s Q := by
  obtain ⟨a, s₁, hs₁, ha⟩ := hx
  obtain ⟨b, s₂, hs₂, hb⟩ := hf a s₁ ha
  refine ⟨b, s₂, fun eng => ?_, hb⟩
  simp only [Bind.bind, EStateM.bind, hs₁]
  exact hs₂ eng

/-- The function is a property of the global object that can be assigned and is listed. -/
def IsGlobal (f : FunctionDef) (name : String) (s : State) : Prop :=
  ∃ o function, s.heap.getOwn? globalObject name = some (.data (.object o) true true false) ∧
    o.index < s.heap.objects.size ∧ s.heap.scriptFunction? o = some function ∧
    function.code = .script f ∧ function.scope = globalScope

theorem IsGlobal.mono {f : FunctionDef} {name : String} {names : List String} {s' : State}
    (h : IsGlobal f name s) (hs : s.Defines names s') (hname : name ∉ names) :
    IsGlobal f name s' := by
  obtain ⟨o, function, hown, hlt, hfunction, hcode⟩ := h
  have hkey : ∀ other ∈ names, (name : PropertyKey) ≠ other := by
    intro other hother heq
    exact hname (Units.ofString_inj (PropertyKey.string.inj heq) ▸ hother)
  refine ⟨o, function, (hs.others _ hkey).trans hown, Nat.lt_of_lt_of_le hlt hs.size, ?_, hcode⟩
  rw [Store.scriptFunction?_eq_some_iff] at hfunction ⊢
  rw [hs.kinds o hlt, hfunction]

/-- Where a function may be declared, declaring it succeeds: the definition is accepted, and the
assignment finds a value on the global object itself, so that no setter is called. -/
theorem settles_declareGlobalFunction {f : FunctionDef}
    (hglobal : globalObject.index < s.heap.objects.size)
    (hcan : Eval.canDeclareFunction (f.name.getD "") s.heap = true) :
    Settles (·.declareGlobalFunction f) s fun _ s' =>
      s.Defines [f.name.getD ""] s' ∧ IsGlobal f (f.name.getD "") s' := by
  obtain ⟨s₁, function, hs₁, hadds, hlt, hfunction, hcode, hscope⟩ :=
    Eval.instantiateFunction_adds f globalScope (f.name.getD "") (Nat.le_refl s.heap.objects.size)
  generalize s.heap.next = o at hs₁ hlt hfunction
  have h₁ := State.Defines.of_adds hglobal hadds
  rw [← h₁.canDeclareFunction List.not_mem_nil] at hcan
  obtain ⟨data, hdata, hvalue⟩ := Heap.define_globalFunction (.object o) hcan
  have hglobal₁ := Nat.lt_of_lt_of_le hglobal h₁.size
  obtain ⟨s₂, hs₂, h₂, hget₂⟩ := Eval.define_global hglobal₁ hdata
  have hglobal₂ := Nat.lt_of_lt_of_le hglobal₁ h₂.size
  have hown₂ : s₂.heap.getOwn? globalObject (f.name.getD "") =
      some (.data (.object o) true true false) := by
    rw [Heap.getOwn?, hget₂, hvalue]
  obtain ⟨data₃, hdata₃, hvalue₃⟩ := ObjectData.define_value (v := .object o) hown₂
  obtain ⟨s₃, hs₃, h₃, hget₃⟩ := Eval.define_global hglobal₂ hdata₃
  have hown₃ : s₃.heap.getOwn? globalObject (f.name.getD "") =
      some (.data (.object o) true true false) := by
    rw [Heap.getOwn?, hget₃, hvalue₃]
  have hstore : store globalObject (f.name.getD "") (.object o) s₂ = .ok true s₃ := by
    simp only [store, Eval.heap, bind, EStateM.bind, hown₂, Property.isWritable, ↓reduceIte, hs₃]
  have hset (eng : Engine) :
      eng.set globalObject (f.name.getD "") (.object o) false s₂ = .ok () s₃ := by
    simp only [set, setOf, setFor, Eval.heap, bind, EStateM.bind,
      Heap.find?_of_getOwn? hglobal₂ hown₂, hstore, Bool.not_true, Bool.false_eq_true, if_false,
      pure, EStateM.pure]
  have hdefines := h₁.trans (h₂.trans h₃)
  refine ⟨(), s₃, fun eng => ?_, ⟨hdefines.size, hdefines.kinds, fun key hkey => ?_,
    hdefines.present, hdefines.extensible, hdefines.prototype, hdefines.scopes⟩, o, function, hown₃,
    Nat.lt_of_lt_of_le hlt (h₂.trans h₃).size, ?_, hcode, hscope⟩
  · simp only [declareGlobalFunction, defineOrThrow, Eval.heap, bind, EStateM.bind, hs₁, hs₂,
      Bool.not_true, Bool.false_eq_true, if_false, pure, EStateM.pure, hset]
  · exact hdefines.others key (by simpa using hkey)
  · rw [Store.scriptFunction?_eq_some_iff] at hfunction ⊢
    rw [(h₂.trans h₃).kinds o hlt, hfunction]

/-- Functions with different names are all declared, one after the other. -/
theorem settles_declareGlobalFunctions {functions : List FunctionDef}
    (hglobal : globalObject.index < s.heap.objects.size)
    (hnodup : (functions.map fun f => f.name.getD "").Nodup)
    (hcan : ∀ f ∈ functions, Eval.canDeclareFunction (f.name.getD "") s.heap = true) :
    Settles (fun eng => functions.forM eng.declareGlobalFunction) s fun _ s' =>
      s.Defines (functions.map fun f => f.name.getD "") s' ∧
        ∀ f ∈ functions, IsGlobal f (f.name.getD "") s' := by
  induction functions generalizing s with
  | nil => exact ⟨(), s, fun _ => rfl, .of_adds hglobal (.refl _ s), by simp⟩
  | cons f rest ih =>
    rw [List.map_cons, List.nodup_cons] at hnodup
    rw [List.forall_mem_cons] at hcan
    refine (settles_declareGlobalFunction hglobal hcan.1).bind fun _ s₁ ⟨h₁, hf⟩ => ?_
    have hcan₁ : ∀ g ∈ rest, Eval.canDeclareFunction (g.name.getD "") s₁.heap = true := by
      intro g hg
      refine (h₁.canDeclareFunction ?_).trans (hcan.2 g hg)
      rw [List.mem_singleton]
      exact fun heq => hnodup.1 (List.mem_map.mpr ⟨g, hg, heq⟩)
    obtain ⟨_, s₂, hs₂, h₂, hrest⟩ := ih (Nat.lt_of_lt_of_le hglobal h₁.size) hnodup.2 hcan₁
    refine ⟨(), s₂, hs₂, h₁.trans h₂, ?_⟩
    exact List.forall_mem_cons.mpr ⟨hf.mono h₂ hnodup.1, hrest⟩

/-- Where a variable may be declared, it is a property afterwards; one that is there stays. -/
theorem settles_declareGlobalVar {name : String}
    (hglobal : globalObject.index < s.heap.objects.size)
    (hcan : Eval.canDeclareVar name s.heap = true) :
    Settles (fun _ => declareGlobalVar name) s fun _ s' =>
      s.Defines ([name].filter fun n => (s.heap.getOwn? globalObject n).isNone) s' ∧
        (s'.heap.getOwn? globalObject name).isSome = true := by
  cases hown : s.heap.getOwn? globalObject name with
  | some p =>
    refine ⟨(), s, fun _ => ?_, (State.Defines.of_adds hglobal (.refl _ s)).mono (by simp),
      by simp [hown]⟩
    have hhas : (s.heap.get globalObject).hasOwn name = true := Option.isSome_of_eq_some hown
    simp [declareGlobalVar, Eval.heap, bind, EStateM.bind, hhas, pure, EStateM.pure]
  | none =>
    have hext : (s.heap.get globalObject).extensible = true := by
      simpa [Eval.canDeclareVar, hown] using hcan
    obtain ⟨data, hdata, hvalue⟩ :=
      ObjectData.define_new (d := .data .undefined true true false) hown hext
    obtain ⟨s', hs', hdefines, hget⟩ := Eval.define_global hglobal hdata
    refine ⟨(), s', fun _ => ?_, by simpa [hown] using hdefines, ?_⟩
    · have hhas : (s.heap.get globalObject).hasOwn name = false := by
        rw [ObjectData.hasOwn, ← Heap.getOwn?, hown, Option.isSome_none]
      simp [declareGlobalVar, defineOrThrow, Eval.heap, bind, EStateM.bind, hhas, hext, hs', pure,
        EStateM.pure]
    · rw [Heap.getOwn?, hget, hvalue, Option.isSome_some]

theorem settles_declareGlobalVars {names : List String}
    (hglobal : globalObject.index < s.heap.objects.size)
    (hcan : ∀ name ∈ names, Eval.canDeclareVar name s.heap = true) :
    Settles (fun _ => names.forM declareGlobalVar) s fun _ s' =>
      s.Defines (names.filter fun n => (s.heap.getOwn? globalObject n).isNone) s' ∧
        ∀ name ∈ names, (s'.heap.getOwn? globalObject name).isSome = true := by
  induction names generalizing s with
  | nil => exact ⟨(), s, fun _ => rfl, .of_adds hglobal (.refl _ s), by simp⟩
  | cons name rest ih =>
    rw [List.forall_mem_cons] at hcan
    refine (settles_declareGlobalVar hglobal hcan.1).bind fun _ s₁ ⟨h₁, hname⟩ => ?_
    obtain ⟨_, s₂, hs₂, h₂, hrest⟩ := ih (Nat.lt_of_lt_of_le hglobal h₁.size)
      fun other hother => h₁.canDeclareVar (hcan.2 other hother)
    refine ⟨(), s₂, hs₂, (h₁.trans h₂).mono fun other hother => ?_,
      List.forall_mem_cons.mpr ⟨h₂.present _ hname, hrest⟩⟩
    -- What is there before the first variable is made is there after it.
    rcases List.mem_append.mp hother with hother | hother
    · exact (List.Sublist.filter _ (List.singleton_sublist.mpr List.mem_cons_self)).subset hother
    · obtain ⟨hmem, hnone⟩ := List.mem_filter.mp hother
      refine List.mem_filter.mpr ⟨List.mem_cons_of_mem _ hmem, ?_⟩
      rw [Option.isNone_iff_eq_none, ← Option.not_isSome_iff_eq_none] at hnone ⊢
      exact fun hsome => hnone (h₁.present _ hsome)

/-- The steps after the checks. -/
def makeGlobals (eng : Engine) (p : Program) : Eval Unit := do
  Eval.modifyScope globalScope (·.declareLexical (Stmt.lexicalBindingsOf p.body))
  (Eval.lastFunctions (Stmt.functionsOf p.body)).forM eng.declareGlobalFunction
  p.varNames.forM declareGlobalVar

theorem declareGlobals_eq (eng : Engine) (p : Program) :
    eng.declareGlobals p = Eval.checkGlobals p >>= fun _ => eng.makeGlobals p := by
  simp only [declareGlobals, Eval.checkGlobals, makeGlobals, bind_assoc]

end Engine

/-! ### All or nothing -/

/-- What the declarations of a script make of the global scope and the global object: a lexical name
is bound without a value, the last function of each name is a property, and every variable is one.
Nothing else changes about them. -/
structure State.Declares (s : State) (p : Program) (s' : State) : Prop where
  lexical : ∀ name kind, (name, kind) ∈ Stmt.lexicalBindingsOf p.body →
    (s'.scopes.get globalScope).bindings.lookup name = some ⟨kind.bindingKind, none⟩
  functions : ∀ before f after name, Stmt.functionsOf p.body = before ++ f :: after →
    (∀ g ∈ after, g.name ≠ f.name) → f.name = some name → Engine.IsGlobal f name s'
  vars : ∀ name ∈ p.varNames, (s'.heap.getOwn? globalObject name).isSome = true
  otherBindings : ∀ name ∉ Stmt.lexicalNamesOf p.body,
    (s'.scopes.get globalScope).bindings.lookup name =
      (s.scopes.get globalScope).bindings.lookup name
  otherProperties : ∀ key : PropertyKey,
    (∀ name ∈ p.varNames ++ (Stmt.functionsOf p.body).filterMap FunctionDef.name, key ≠ name) →
      s'.heap.getOwn? globalObject key = s.heap.getOwn? globalObject key
  extensible : (s'.heap.get globalObject).extensible = (s.heap.get globalObject).extensible
  prototype : (s'.heap.get globalObject).prototype = (s.heap.get globalObject).prototype

/-- Every function that an accepted script declares has a name. -/
theorem Program.Legal.isSome_name {p : Program} (hp : p.Legal) {f : FunctionDef}
    (hf : f ∈ Stmt.functionsOf p.body) : f.name.isSome = true := by
  obtain ⟨t, ht, heq⟩ := List.mem_filterMap.mp hf
  cases t with
  | function g =>
    cases heq
    cases hp.body _ ht with
    | function _ hd => exact hd
  | _ => cases heq

theorem State.Reached.globalObject_lt {s : State} (hs : s.Reached) :
    globalObject.index < s.heap.objects.size := by
  induction hs with
  | initial => exact closed_initial.intrinsics
  | @request s hs q fuel ih =>
    have hstarts := Eval.Starts.ofDepth (Nat.le_refl _) (hs.idle.2 ▸ Nat.zero_le _)
    have hframe := (q.keeps_after fuel hstarts).1
    exact Nat.lt_of_lt_of_le ih hframe.size

namespace Engine

variable {s : State} {p : Program}

/-- For a script that is admitted, the steps after the checks make all declarations. -/
theorem settles_makeGlobals (hp : p.Legal) (hglobal : globalObject.index < s.heap.objects.size)
    (hscope : globalScope.index < s.scopes.environments.size) (hadmits : s.Admits p) :
    Settles (·.makeGlobals p) s fun _ s' => s.Declares p s' := by
  let functions := Eval.lastFunctions (Stmt.functionsOf p.body)
  have hnames : ∀ f ∈ functions, f.name = some (f.name.getD "") := by
    intro f hf
    obtain ⟨name, hname⟩ := Option.isSome_iff_exists.mp
      (hp.isSome_name (Eval.mem_of_mem_lastFunctions hf))
    rw [hname, Option.getD_some]
  have hnodup : (functions.map fun f => f.name.getD "").Nodup := by
    have hall := Eval.nodup_lastFunctions (Stmt.functionsOf p.body)
    rw [List.map_congr_left hnames, ← Function.comp_def some, ← List.map_map] at hall
    exact hall.of_map some
  -- The scopes change first, then only the heap does.
  let lexical (e : Environment) := e.declareLexical (Stmt.lexicalBindingsOf p.body)
  let s₀ : State := { s with scopes := s.scopes.modify globalScope lexical }
  have hdeclared := Scopes.get_modify_self hscope lexical
  have hcan : ∀ f ∈ functions, Eval.canDeclareFunction (f.name.getD "") s₀.heap = true :=
    fun f hf => hadmits.functions f (Eval.mem_of_mem_lastFunctions hf)
  have hstart : Settles (fun _ => Eval.modifyScope globalScope lexical) s fun _ s' => s' = s₀ :=
    ⟨(), s₀, fun _ => rfl, rfl⟩
  refine hstart.bind ?_
  rintro _ _ rfl
  refine (settles_declareGlobalFunctions (s := s₀) hglobal hnodup hcan).bind
    fun _ s₁ ⟨h₁, hfunctions⟩ => ?_
  have hcanVars : ∀ name ∈ p.varNames, Eval.canDeclareVar name s₁.heap = true :=
    fun name hname => h₁.canDeclareVar (hadmits.vars name hname)
  obtain ⟨_, s₂, hs₂, h₂, hvars⟩ :=
    settles_declareGlobalVars (Nat.lt_of_lt_of_le hglobal h₁.size) hcanVars
  have h := h₁.trans h₂
  have hscopes : s₂.scopes.get globalScope = (s.scopes.get globalScope).declareLexical
      (Stmt.lexicalBindingsOf p.body) := by
    rw [h.scopes]
    exact hdeclared
  refine ⟨(), s₂, hs₂, ⟨fun name kind hmem => ?_, fun before f after name heq hlast hname =>
    ?_, hvars, fun name hname => ?_, fun key hkey => h.others key fun name hname => ?_, h.extensible,
    h.prototype⟩⟩
  · rw [hscopes]
    refine Environment.lookup_declareLexical ?_ hmem (Stmt.ne_var_of_mem_lexicalBindingsOf hmem)
    rw [Stmt.map_fst_lexicalBindingsOf]
    exact hp.names.distinct
  · have hmem : f ∈ functions := by
      simp only [functions, heq]
      exact Eval.mem_lastFunctions_of_last hlast
    have hf := hfunctions f hmem
    rw [hname, Option.getD_some] at hf
    refine hf.mono h₂ fun hnone => ?_
    obtain ⟨o, function, hown, -⟩ := hf
    simp [hown] at hnone
  · rw [hscopes]
    refine Environment.lookup_declareLexical_ne ?_
    rwa [Stmt.map_fst_lexicalBindingsOf]
  · rcases List.mem_append.mp hname with hname | hname
    · obtain ⟨f, hf, rfl⟩ := List.mem_map.mp hname
      exact hkey _ (List.mem_append_right _
        (List.mem_filterMap.mpr ⟨f, Eval.mem_of_mem_lastFunctions hf, hnames f hf⟩))
    · exact hkey _ (List.mem_append_left _ (List.mem_filter.mp hname).1)

/-- Making the global bindings of an accepted script is all or nothing, in every state that has the
heap and the scopes of one that requests lead to. If it throws, the global object and the scopes are
as they were. It throws unless the script is admitted, and then every step after the checks succeeds
and runs no script code: the outcome is the same whatever the evaluator. -/
theorem global_declarations_atomic {source : String} (hparse : Program.parse source = .ok p)
    {t : State} (ht : t.Reached) (hheap : s.heap = t.heap) (hscopes : s.scopes = t.scopes) :
    (∀ (eng : Engine) e s', eng.declareGlobals p s = .error e s' →
      s'.heap.get globalObject = s.heap.get globalObject ∧ s'.scopes = s.scopes) ∧
    (¬s.Admits p → ∃ v s', ∀ eng : Engine, eng.declareGlobals p s = .error (.thrown v) s') ∧
    (s.Admits p → ∃ s', (∀ eng : Engine, eng.declareGlobals p s = .ok () s') ∧
      s.Declares p s') := by
  have hglobal : globalObject.index < s.heap.objects.size := hheap ▸ ht.globalObject_lt
  have hscope : globalScope.index < s.scopes.environments.size := hscopes ▸ ht.sound.scopes
  simp only [declareGlobals_eq]
  rcases Eval.checks_checkGlobals (s := s) p with ⟨hadmits, hok⟩ | ⟨hadmits, cause, hraise⟩
  · obtain ⟨_, s', hs', hdeclares⟩ :=
      settles_makeGlobals (Program.legal_of_parse hparse) hglobal hscope hadmits
    have hall (eng : Engine) : (Eval.checkGlobals p >>= fun _ => eng.makeGlobals p) s = .ok () s' := by
      simp only [bind, EStateM.bind, hok, hs' eng]
    refine ⟨fun eng e s'' herror => ?_, fun hnot => absurd hadmits hnot, fun _ => ⟨s', hall, hdeclares⟩⟩
    rw [hall eng] at herror
    cases herror
  · obtain ⟨s', hs', hadds⟩ := Eval.raise_adds (α := Unit) (s := s) cause (Nat.le_refl _)
    have hall (eng : Engine) : (Eval.checkGlobals p >>= fun _ => eng.makeGlobals p) s =
        .error (.thrown (.object s.heap.next)) s' := by
      simp only [bind, EStateM.bind, hraise, hs']
    refine ⟨fun eng e s'' herror => ?_, fun _ => ⟨_, s', hall⟩, fun h => absurd h hadmits⟩
    rw [hall eng] at herror
    cases herror
    exact ⟨hadds.objects _ hglobal, hadds.scopes⟩

/-- A script with all kinds of declarations, of which one function replaces another. -/
theorem global_declarations_atomic_replaced :
    ∃ p s', Program.parse "let a; function f() \x7b\x7d var b, f; function f(x) \x7b\x7d" = .ok p ∧
      (∀ eng : Engine, eng.declareGlobals p State.initial = .ok () s') ∧
      State.initial.Declares p s' := by
  have hadmitted : (Program.parse
      "let a; function f() \x7b\x7d var b, f; function f(x) \x7b\x7d").toOption.any
      (fun p => decide (State.initial.Admits p)) = true := by
    decide +kernel
  cases hparse : Program.parse "let a; function f() \x7b\x7d var b, f; function f(x) \x7b\x7d" with
  | error e =>
    rw [hparse] at hadmitted
    cases hadmitted
  | ok p =>
    rw [hparse] at hadmitted
    obtain ⟨-, -, hmade⟩ := global_declarations_atomic hparse .initial rfl rfl
    obtain ⟨s', hs', hdeclares⟩ := hmade (of_decide_eq_true hadmitted)
    exact ⟨p, s', rfl, hs', hdeclares⟩

end Engine

end Ecma
