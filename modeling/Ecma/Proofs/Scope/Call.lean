import Ecma.Proofs.Object.Index
import Ecma.Proofs.Scope.Global
import Ecma.Proofs.Syntax.Declared
import Ecma.Proofs.Syntax.Variables

/-! The scopes in which the body of a function starts. Parameters, the arguments object, variables
and functions are bound one after the other in one scope, and the lexical declarations in another
one inside it. What each name holds in the end depends on what declares it and on nothing else. -/

namespace Ecma

/-! ### Keys of indices -/

namespace PropertyKey

/-- A word that does not read as a number is no index. -/
theorem ofIndex_ne {s : Units} (h : Units.readIndexFrom 0 s.toList = none) (i : Nat) :
    PropertyKey.ofIndex i ≠ .string s := by
  intro heq
  rw [← PropertyKey.string.inj heq, Units.readIndexFrom_ofIndex] at h
  cases h

theorem ofIndex_ne_length (i : Nat) : PropertyKey.ofIndex i ≠ "length" :=
  ofIndex_ne (by decide +kernel) i

theorem ofIndex_ne_callee (i : Nat) : PropertyKey.ofIndex i ≠ "callee" :=
  ofIndex_ne (by decide +kernel) i

end PropertyKey

/-! ### Names in one scope -/

namespace Environment

variable {e : Environment} {name other : String} {kind : BindingKind} {v : Value}

theorem get_eq_of_lookup {e' : Environment}
    (h : e'.bindings.lookup name = e.bindings.lookup name) : e'.get name = e.get name := by
  rw [get, h, get]

theorem has_eq_of_lookup {e' : Environment}
    (h : e'.bindings.lookup name = e.bindings.lookup name) : e'.has name = e.has name := by
  rw [has, h, has]

theorem has_declare (e : Environment) (name other : String) (kind : BindingKind) :
    (e.declare name kind).has other = (other == name || e.has other) := by
  by_cases heq : other = name
  · rw [heq, has, lookup_declare_self, beq_self_eq_true, Bool.true_or, Option.isSome_some]
  · rw [has_eq_of_lookup (lookup_declare_ne heq kind), beq_false_of_ne heq, Bool.false_or]

theorem has_declareNew (e : Environment) (name other : String) (kind : BindingKind) :
    (e.declareNew name kind).has other = (other == name || e.has other) := by
  unfold declareNew
  split
  · next hold =>
    by_cases heq : other = name
    · rw [heq, hold, Bool.or_true]
    · rw [beq_false_of_ne heq, Bool.false_or]
  · exact has_declare ..

theorem get_declare_var : (e.declare name .var).get name = .ok .undefined := by
  rw [get, lookup_declare_self]
  rfl

theorem get_declareNew_ne (hne : other ≠ name) : (e.declareNew name kind).get other = e.get other := by
  unfold declareNew
  split
  · rfl
  · exact get_eq_of_lookup (lookup_declare_ne hne kind)

theorem get_declareNew_of_has (h : e.has other = true) :
    (e.declareNew name kind).get other = e.get other := by
  by_cases heq : other = name
  · rw [declareNew, if_pos (heq ▸ h)]
  · exact get_declareNew_ne heq

theorem lookup_initialise_ne (hne : other ≠ name) :
    (e.initialise name v).bindings.lookup other = e.bindings.lookup other := by
  unfold initialise
  split
  · exact lookup_put_ne hne _
  · rfl

theorem has_initialise : (e.initialise name v).has other = e.has other := by
  by_cases heq : other = name
  · unfold initialise
    split
    · next b hb =>
      rw [heq, has, has, lookup_put_self, hb, Option.isSome_some, Option.isSome_some]
    · rfl
  · exact has_eq_of_lookup (lookup_initialise_ne heq)

theorem get_initialise_self (h : e.has name = true) : (e.initialise name v).get name = .ok v := by
  obtain ⟨b, hb⟩ := Option.isSome_iff_exists.mp h
  have hput : (e.initialise name v).bindings.lookup name = some { b with value := some v } := by
    simp only [initialise, hb]
    exact lookup_put_self _
  rw [get, hput]

theorem get_initialise_ne (hne : other ≠ name) : (e.initialise name v).get other = e.get other :=
  get_eq_of_lookup (lookup_initialise_ne hne)

/-! ### Several names -/

theorem has_bindParameters (e : Environment) (params : List String) (args : List Value)
    (name : String) :
    (e.bindParameters params args).has name = true ↔ name ∈ params ∨ e.has name = true := by
  induction params generalizing e args with
  | nil => simp [bindParameters]
  | cons param rest ih =>
    rw [bindParameters, ih, has_initialise, has_declareNew]
    simp only [Bool.or_eq_true, beq_iff_eq, List.mem_cons]
    tauto

theorem get_bindParameters_of_not_mem {params : List String} (h : name ∉ params)
    (args : List Value) : (e.bindParameters params args).get name = e.get name := by
  induction params generalizing e args with
  | nil => rfl
  | cons param rest ih =>
    rw [List.mem_cons, not_or] at h
    rw [bindParameters, ih h.2, get_initialise_ne h.1, get_declareNew_ne h.1]

/-- A parameter holds the argument at the last place where the parameter stands. -/
theorem get_bindParameters {before after : List String} (h : name ∉ after) (args : List Value) :
    (e.bindParameters (before ++ name :: after) args).get name =
      .ok (args.getD before.length .undefined) := by
  induction before generalizing e args with
  | nil =>
    rw [List.nil_append, bindParameters, get_bindParameters_of_not_mem h, get_initialise_self]
    · rw [List.headD_eq_head?_getD, List.head?_eq_getElem?, List.getD_eq_getElem?_getD,
        List.length_nil]
    · rw [has_declareNew, beq_self_eq_true, Bool.true_or]
  | cons param rest ih =>
    rw [List.cons_append, bindParameters, ih, List.getD_eq_getElem?_getD, List.getElem?_tail,
      List.getD_eq_getElem?_getD, List.length_cons]

theorem has_declareVars (e : Environment) (names : List String) (name : String) :
    (e.declareVars names).has name = true ↔ name ∈ names ∨ e.has name = true := by
  induction names generalizing e with
  | nil => simp [declareVars]
  | cons n rest ih =>
    have hrest := ih (e.declareNew n .var)
    rw [has_declareNew, Bool.or_eq_true, beq_iff_eq] at hrest
    rw [List.mem_cons, or_comm (a := name = n), or_assoc]
    exact hrest

/-- A name that is bound already keeps what it holds. -/
theorem get_declareVars_of_has (names : List String) (h : e.has name = true) :
    (e.declareVars names).get name = e.get name := by
  induction names generalizing e with
  | nil => rfl
  | cons n rest ih =>
    have hkept : (e.declareNew n .var).has name = true := by
      rw [has_declareNew, h, Bool.or_true]
    exact (ih hkept).trans (get_declareNew_of_has h)

theorem get_declareVars {names : List String} (hmem : name ∈ names) (h : e.has name = false) :
    (e.declareVars names).get name = .ok .undefined := by
  induction names generalizing e with
  | nil => cases hmem
  | cons n rest ih =>
    by_cases heq : name = n
    · subst heq
      have hbound : (e.declareNew name .var).has name = true := by
        rw [has_declareNew, beq_self_eq_true, Bool.true_or]
      refine (get_declareVars_of_has rest hbound).trans ?_
      rw [declareNew, if_neg (Bool.not_eq_true _ ▸ h), get_declare_var]
    · refine ih ((List.mem_cons.mp hmem).resolve_left heq) ?_
      rw [has_declareNew, beq_false_of_ne heq, h, Bool.or_false]

theorem has_declareLexical (e : Environment) (bindings : List (String × VarKind)) (name : String) :
    (e.declareLexical bindings).has name = true ↔
      name ∈ bindings.map Prod.fst ∨ e.has name = true := by
  induction bindings generalizing e with
  | nil => simp [declareLexical]
  | cons b rest ih =>
    have hrest := ih (e.declare b.1 b.2.bindingKind)
    rw [has_declare, Bool.or_eq_true, beq_iff_eq] at hrest
    rw [List.map_cons, List.mem_cons, or_comm (a := name = b.1), or_assoc]
    exact hrest

end Environment

/-! ### The object of the arguments -/

/-- An object lists the arguments of a call, as its length and its elements. -/
structure Heap.ListsArguments (h : Heap) (o : ObjectRef) (args : List Value) : Prop where
  kind : (h.get o).kind = .arguments
  length : h.getOwn? o "length" = some (.data (.number (Number.ofInt args.length)) true false true)
  elements : ∀ i, h.getOwn? o (.ofIndex i) = args[i]?.map fun v => .data v true true true

/-- An arguments object with properties. -/
def argumentsObject (properties : List (PropertyKey × Property)) : ObjectData where
  prototype := some Intrinsic.objectPrototype
  properties := properties
  kind := .arguments

/-- The properties of an arguments object for its elements, of which the first has index `i`. -/
def argumentProperties (i : Nat) (args : List Value) : List (PropertyKey × Property) :=
  (args.zipIdx i).map fun (v, j) => (.ofIndex j, .data v true true true)

theorem lookup_argumentProperties (i j : Nat) (args : List Value) :
    (argumentProperties i args).lookup (.ofIndex j) =
      if i ≤ j then args[j - i]?.map fun v => .data v true true true else none := by
  induction args generalizing i with
  | nil => simp [argumentProperties]
  | cons v rest ih =>
    have hcons : argumentProperties i (v :: rest) =
        (.ofIndex i, .data v true true true) :: argumentProperties (i + 1) rest := rfl
    rw [hcons, List.lookup_cons]
    by_cases heq : j = i
    · subst heq
      simp
    · have hkey : (PropertyKey.ofIndex j == .ofIndex i) = false := by
        simpa [PropertyKey.ofIndex_inj] using heq
      rw [hkey, ih]
      by_cases hle : i ≤ j
      · obtain ⟨k, rfl⟩ : ∃ k, j = i + 1 + k := ⟨j - i - 1, by omega⟩
        simp [show i + 1 + k - i = k + 1 by omega, show i ≤ i + 1 + k by omega]
      · rw [if_neg (by omega), if_neg hle]

theorem lookup_argumentProperties_ne {key : PropertyKey} (h : ∀ j, PropertyKey.ofIndex j ≠ key)
    (i : Nat) (args : List Value) : (argumentProperties i args).lookup key = none := by
  refine List.lookup_eq_none_iff.mpr fun entry hentry => ?_
  obtain ⟨⟨_, j⟩, -, rfl⟩ := List.mem_map.mp hentry
  exact bne_iff_ne.mpr (h j).symm

namespace Eval

variable {s : State} {o : ObjectRef} {properties : List (PropertyKey × Property)}

/-- A property that an arguments object does not have yet is put after the others. -/
theorem put_argument (key : PropertyKey) (d : Descriptor) (ho : o.index < s.heap.objects.size)
    (hget : s.heap.get o = argumentsObject properties) (hnew : properties.lookup key = none) :
    ∃ s', put o key d s = .ok () s' ∧ s.Adds o.index s' ∧
      s'.heap.get o = argumentsObject (properties ++ [(key, d.complete)]) := by
  let data := argumentsObject (properties ++ [(key, d.complete)])
  have hdefine : (s.heap.get o).define key d = some data := by
    have hnone : (argumentsObject properties).getOwn? key = none := hnew
    rw [hget, ObjectData.define, hnone]
    rfl
  have hput : put o key d s = .ok () { s with heap := s.heap.modify o fun _ => data } := by
    simp [put, define, tryObject, discard, Functor.discard, Functor.mapConst, EStateM.map, hdefine]
  obtain ⟨s', hs', hadds⟩ := put_adds (s := s) (Nat.le_refl o.index) key d
  rw [hput] at hs'
  cases hs'
  exact ⟨_, hput, hadds, Heap.get_modify_self ho _⟩

/-- The elements of an arguments object are put one after the other. -/
theorem put_elements {i : Nat} (args : List Value) (ho : o.index < s.heap.objects.size)
    (hget : s.heap.get o = argumentsObject properties)
    (hnew : ∀ j, i ≤ j → properties.lookup (.ofIndex j) = none) :
    ∃ s', ((args.zipIdx i).forM fun (v, j) => put o (.ofIndex j) (.plain v)) s = .ok () s' ∧
      s.Adds o.index s' ∧
      s'.heap.get o = argumentsObject (properties ++ argumentProperties i args) := by
  induction args generalizing i s properties with
  | nil =>
    refine ⟨s, rfl, .refl _ s, ?_⟩
    rw [hget, argumentProperties, List.zipIdx_nil, List.map_nil, List.append_nil]
  | cons v rest ih =>
    obtain ⟨s₁, hs₁, h₁, hget₁⟩ := put_argument (.ofIndex i) (.plain v) ho hget (hnew i (Nat.le_refl i))
    have hnew₁ : ∀ j, i + 1 ≤ j →
        (properties ++ [(PropertyKey.ofIndex i, (Descriptor.plain v).complete)]).lookup
          (.ofIndex j) = none := by
      intro j hj
      have hne : PropertyKey.ofIndex j ≠ .ofIndex i := fun heq => by
        have := PropertyKey.ofIndex_inj.mp heq
        omega
      rw [List.lookup_append, hnew j (by omega), List.lookup_cons, beq_false_of_ne hne]
      rfl
    obtain ⟨s₂, hs₂, h₂, hget₂⟩ := ih (Nat.lt_of_lt_of_le ho h₁.size) hget₁ hnew₁
    refine ⟨s₂, ?_, h₁.trans h₂, ?_⟩
    · change (put o (.ofIndex i) (.plain v) >>= fun _ =>
        (rest.zipIdx (i + 1)).forM fun (v, j) => put o (.ofIndex j) (.plain v)) s = _
      simp only [bind, EStateM.bind, hs₁, hs₂]
    · rw [hget₂, List.append_assoc]
      rfl

/-- The object of the arguments of a call is new, and lists them. -/
theorem createArguments_adds (callee : ObjectRef) (args : List Value) (strict : Bool) :
    ∃ o s', createArguments callee args strict s = .ok o s' ∧ s.Adds s.heap.objects.size s' ∧
      s.heap.objects.size ≤ o.index ∧ o.index < s'.heap.objects.size ∧
      s'.heap.ListsArguments o args := by
  obtain ⟨s₁, hs₁, h₁, hget₁, hlt₁⟩ := alloc_adds (s := s) (Nat.le_refl _) (argumentsObject [])
  let length : Property := .data (.number (Number.ofInt args.length)) true false true
  obtain ⟨s₂, hs₂, h₂, hget₂⟩ := put_argument "length"
    (.hidden (.number (Number.ofInt args.length))) hlt₁ hget₁ rfl
  have hlt₂ := Nat.lt_of_lt_of_le hlt₁ h₂.size
  have hnew : ∀ j, 0 ≤ j →
      List.lookup (PropertyKey.ofIndex j) [("length", length)] = none := by
    intro j _
    rw [List.lookup_cons, beq_false_of_ne (PropertyKey.ofIndex_ne_length j), List.lookup_nil]
  obtain ⟨s₃, hs₃, h₃, hget₃⟩ := put_elements args hlt₂ hget₂ hnew
  have hlt₃ := Nat.lt_of_lt_of_le hlt₂ h₃.size
  -- The function that is called comes last, as a value or as accessors that throw.
  let thrower : Value := .object Intrinsic.throwTypeError
  let called : Descriptor :=
    if strict then .accessor thrower thrower false false else .hidden (.object callee)
  have hcallee : List.lookup ("callee" : PropertyKey)
      (("length", length) :: argumentProperties 0 args) = none :=
    lookup_argumentProperties_ne PropertyKey.ofIndex_ne_callee 0 args
  obtain ⟨s₄, hs₄, h₄, hget₄⟩ := put_argument "callee" called hlt₃ hget₃ hcallee
  refine ⟨s.heap.next, s₄, ?_, h₁.trans (h₂.trans (h₃.trans h₄)), Nat.le_refl _,
    Nat.lt_of_lt_of_le hlt₃ h₄.size, congrArg ObjectData.kind hget₄, ?_, fun i => ?_⟩
  · have hbefore : newObject (some Intrinsic.objectPrototype) .arguments s =
        .ok s.heap.next s₁ := hs₁
    cases strict <;>
      simp only [createArguments, bind, EStateM.bind, hbefore, hs₂, hs₃, if_true,
        Bool.false_eq_true, if_false] <;>
      simp only [called, if_true, Bool.false_eq_true, if_false, thrower] at hs₄ <;>
      rw [hs₄] <;> rfl
  · rw [Heap.getOwn?, hget₄]
    rfl
  · have hone : (PropertyKey.ofIndex i == "callee") = false :=
      beq_false_of_ne (PropertyKey.ofIndex_ne_callee i)
    have hown : s₄.heap.getOwn? s.heap.next (.ofIndex i) =
        (((("length" : PropertyKey), length) :: argumentProperties 0 args) ++
          [(("callee" : PropertyKey), called.complete)]).lookup (.ofIndex i) := by
      rw [Heap.getOwn?, hget₄]
      rfl
    rw [hown, List.lookup_append, List.lookup_cons,
      beq_false_of_ne (PropertyKey.ofIndex_ne_length i), List.lookup_cons, hone, List.lookup_nil,
      Option.or_none, lookup_argumentProperties, if_pos (Nat.zero_le i), Nat.sub_zero]

end Eval

/-! ### The declared functions -/

/-- What has happened to a state in which objects were made and names were bound in one scope:
nothing else has changed. -/
structure State.Binds (s : State) (scope : ScopeRef) (s' : State) : Prop where
  size : s.heap.objects.size ≤ s'.heap.objects.size
  objects : ∀ o : ObjectRef, o.index < s.heap.objects.size → s'.heap.get o = s.heap.get o
  scopes : s'.scopes.environments.size = s.scopes.environments.size
  others : ∀ r : ScopeRef, r ≠ scope → s'.scopes.get r = s.scopes.get r

namespace State.Binds

variable {s s₁ s₂ : State} {scope : ScopeRef}

theorem trans (h₁ : s.Binds scope s₁) (h₂ : s₁.Binds scope s₂) : s.Binds scope s₂ where
  size := Nat.le_trans h₁.size h₂.size
  objects o ho := (h₂.objects o (Nat.lt_of_lt_of_le ho h₁.size)).trans (h₁.objects o ho)
  scopes := h₂.scopes.trans h₁.scopes
  others r hr := (h₂.others r hr).trans (h₁.others r hr)

theorem of_adds (h : s.Adds s.heap.objects.size s₁) : s.Binds scope s₁ :=
  ⟨h.size, h.objects, congrArg (·.environments.size) h.scopes, fun r _ => congrArg (·.get r) h.scopes⟩

theorem modifyScope (s : State) (scope : ScopeRef) (f : Environment → Environment) :
    s.Binds scope { s with scopes := s.scopes.modify scope f } where
  size := Nat.le_refl _
  objects _ _ := rfl
  scopes := Array.size_modify
  others r hr := (s.scopes.get_modify_cases scope f r).resolve_right fun h => hr h.1

end State.Binds

/-- A name holds the object of a function, which has been made since `s` and sees the scope
`inner`. -/
def State.HoldsNew (s : State) (f : FunctionDef) (inner : ScopeRef) (held : Except BindingError Value)
    (s' : State) : Prop :=
  ∃ o function, held = .ok (.object o) ∧ s.heap.objects.size ≤ o.index ∧
    o.index < s'.heap.objects.size ∧ s'.heap.scriptFunction? o = some function ∧
    function.code = .script f ∧ function.scope = inner

theorem State.HoldsNew.mono {s₀ s s₁ s₂ : State} {f : FunctionDef} {scope inner : ScopeRef}
    {held : Except BindingError Value} (h : s.HoldsNew f inner held s₁)
    (h₀ : s₀.heap.objects.size ≤ s.heap.objects.size) (h₂ : s₁.Binds scope s₂) :
    s₀.HoldsNew f inner held s₂ := by
  obtain ⟨o, function, hheld, hnew, hlt, hfunction, hcode⟩ := h
  refine ⟨o, function, hheld, Nat.le_trans h₀ hnew, Nat.lt_of_lt_of_le hlt h₂.size, ?_, hcode⟩
  rw [Heap.scriptFunction?, h₂.objects o hlt]
  exact hfunction

namespace Eval

variable {s : State}

/-- Functions are bound to new objects, of functions with one name the last one. -/
theorem declareFunctions_binds (functions : List FunctionDef) (inner : ScopeRef)
    {outer : ScopeRef} (kind : BindingKind) (houter : outer.index < s.scopes.environments.size) :
    ∃ s', declareFunctions functions inner outer kind s = .ok () s' ∧ s.Binds outer s' ∧
      (∀ name, (s'.scopes.get outer).has name = true ↔
        name ∈ functionNames functions ∨ (s.scopes.get outer).has name = true) ∧
      (∀ name ∉ functionNames functions,
        (s'.scopes.get outer).get name = (s.scopes.get outer).get name) ∧
      ∀ before f after, functions = before ++ f :: after →
        f.name.getD "" ∉ functionNames after →
          s.HoldsNew f inner ((s'.scopes.get outer).get (f.name.getD "")) s' := by
  induction functions generalizing s with
  | nil =>
    exact ⟨s, rfl, .of_adds (.refl _ s), by simp [functionNames], fun _ _ => rfl, by simp⟩
  | cons f rest ih =>
    let name := f.name.getD ""
    obtain ⟨s₁, function, hs₁, h₁, hlt, hfunction, hcode, hscope⟩ :=
      instantiateFunction_adds (s := s) f inner name (Nat.le_refl _)
    let bind (e : Environment) := (e.declareNew name kind).initialise name (.object s.heap.next)
    let s₂ : State := { s₁ with scopes := s₁.scopes.modify outer bind }
    have hbinds₁ : s.Binds outer s₁ := .of_adds h₁
    have hbinds₂ : s₁.Binds outer s₂ := .modifyScope s₁ outer bind
    have hbinds := hbinds₁.trans hbinds₂
    have houter₁ : outer.index < s₁.scopes.environments.size := hbinds₁.scopes ▸ houter
    have hget₂ : s₂.scopes.get outer = bind (s.scopes.get outer) := by
      rw [Scopes.get_modify_self houter₁, h₁.scopes]
    obtain ⟨s₃, hs₃, h₃, hhas, hget, hlast⟩ := ih (s := s₂) (hbinds.scopes ▸ houter)
    have hcons : functionNames (f :: rest) = name :: functionNames rest := rfl
    refine ⟨s₃, ?_, hbinds.trans h₃, fun n => ?_, fun n hn => ?_, ?_⟩
    · change ((instantiateFunction f inner name >>= fun o => modifyScope outer fun e =>
        (e.declareNew name kind).initialise name (.object o)) >>= fun _ =>
          declareFunctions rest inner outer kind) s = _
      simp only [Bind.bind, EStateM.bind, hs₁]
      exact hs₃
    · rw [hhas, hget₂, Environment.has_initialise, Environment.has_declareNew, hcons,
        List.mem_cons, Bool.or_eq_true, beq_iff_eq]
      tauto
    · rw [hcons, List.mem_cons, not_or] at hn
      rw [hget n hn.2, hget₂, Environment.get_initialise_ne hn.1, Environment.get_declareNew_ne hn.1]
    · intro before g after heq hafter
      cases before with
      | nil =>
        -- No later function has the name of this one, so the name keeps it.
        cases heq
        refine (show s.HoldsNew f inner _ s₂ from ?_).mono (Nat.le_refl _) h₃
        refine ⟨s.heap.next, function, ?_, Nat.le_refl _, hlt, hfunction, hcode, hscope⟩
        rw [hget name hafter, hget₂]
        refine Environment.get_initialise_self ?_
        rw [Environment.has_declareNew, beq_self_eq_true, Bool.true_or]
      | cons first before =>
        cases heq
        have hsame : s₃.Binds outer s₃ := .of_adds (.refl _ s₃)
        exact (hlast before g after rfl hafter).mono hbinds.size hsame

/-- Binds the arguments object, if the body can see one. -/
def bindArguments (callee : ObjectRef) (f : FunctionDef) (scope : ScopeRef) (args : List Value) :
    Eval Unit := do
  if needsArguments f then
    let o ← createArguments callee args f.strict
    let kind : BindingKind := if f.strict then .const else .var
    modifyScope scope fun e => (e.declare "arguments" kind).initialise "arguments" (.object o)

/-- Fills the scope of a call, but for the functions that are declared in the body. -/
def fillScope (callee : ObjectRef) (f : FunctionDef) (scope : ScopeRef) (args : List Value) :
    Eval Unit := do
  modifyScope scope (·.bindParameters f.params args)
  bindArguments callee f scope args
  modifyScope scope (·.declareVars f.varNames)

theorem instantiateBody_eq (callee : ObjectRef) (f : FunctionDef) (scope : ScopeRef)
    (args : List Value) : instantiateBody callee f scope args = (do
      fillScope callee f scope args
      let inner ← innerScope scope
      modifyScope inner (·.declareLexical (Stmt.lexicalBindingsOf f.body))
      declareFunctions (Stmt.functionsOf f.body) inner scope .var
      return inner) := by
  unfold instantiateBody fillScope bindArguments
  split <;> simp only [bind_assoc, pure_bind]

theorem bindArguments_binds (callee : ObjectRef) (f : FunctionDef) {scope : ScopeRef}
    (args : List Value) (hscope : scope.index < s.scopes.environments.size) :
    ∃ s', bindArguments callee f scope args s = .ok () s' ∧ s.Binds scope s' ∧
      (∀ name, (s'.scopes.get scope).has name = true ↔
        (needsArguments f = true ∧ name = "arguments") ∨ (s.scopes.get scope).has name = true) ∧
      (∀ name, (needsArguments f = true → name ≠ "arguments") →
        (s'.scopes.get scope).get name = (s.scopes.get scope).get name) ∧
      (needsArguments f = true → ∃ o, (s'.scopes.get scope).get "arguments" = .ok (.object o) ∧
        s.heap.objects.size ≤ o.index ∧ o.index < s'.heap.objects.size ∧
        s'.heap.ListsArguments o args) := by
  unfold bindArguments
  cases hneeds : needsArguments f with
  | false =>
    exact ⟨s, rfl, .of_adds (.refl _ s), by simp, fun _ _ => rfl, Bool.noConfusion⟩
  | true =>
    obtain ⟨o, s₁, hs₁, h₁, hnew, hlt, hlists⟩ := createArguments_adds (s := s) callee args f.strict
    let kind : BindingKind := if f.strict then .const else .var
    let bind (e : Environment) := (e.declare "arguments" kind).initialise "arguments" (.object o)
    let s₂ : State := { s₁ with scopes := s₁.scopes.modify scope bind }
    have hget : s₂.scopes.get scope = bind (s.scopes.get scope) := by
      have hscope₁ : scope.index < s₁.scopes.environments.size := h₁.scopes ▸ hscope
      rw [Scopes.get_modify_self hscope₁, h₁.scopes]
    refine ⟨s₂, ?_, (State.Binds.of_adds h₁).trans (.modifyScope s₁ scope bind), fun name => ?_,
      fun name hname => ?_, fun _ => ⟨o, ?_, hnew, hlt, hlists⟩⟩
    · simp only [if_true, Bind.bind, EStateM.bind, hs₁]
      rfl
    · rw [hget, Environment.has_initialise, Environment.has_declare, Bool.or_eq_true, beq_iff_eq]
      simp
    · rw [hget, Environment.get_initialise_ne (hname rfl)]
      exact Environment.get_eq_of_lookup (Environment.lookup_declare_ne (hname rfl) kind)
    · rw [hget]
      refine Environment.get_initialise_self ?_
      rw [Environment.has_declare, beq_self_eq_true, Bool.true_or]

/-- Parameters come before the arguments object, and that before the variables. -/
theorem fillScope_binds (callee : ObjectRef) (f : FunctionDef) {scope : ScopeRef}
    (args : List Value) (hscope : scope.index < s.scopes.environments.size)
    (hempty : (s.scopes.get scope).bindings = []) :
    ∃ s', fillScope callee f scope args s = .ok () s' ∧ s.Binds scope s' ∧
      (∀ name, (s'.scopes.get scope).has name = true ↔
        name ∈ f.params ∨ name ∈ f.varNames ∨ (needsArguments f = true ∧ name = "arguments")) ∧
      (∀ before name after, f.params = before ++ name :: after → name ∉ after →
        (s'.scopes.get scope).get name = .ok (args.getD before.length .undefined)) ∧
      (needsArguments f = true → ∃ o, (s'.scopes.get scope).get "arguments" = .ok (.object o) ∧
        s.heap.objects.size ≤ o.index ∧ o.index < s'.heap.objects.size ∧
        s'.heap.ListsArguments o args) ∧
      ∀ name ∈ f.varNames, name ∉ f.params → (needsArguments f = true → name ≠ "arguments") →
        (s'.scopes.get scope).get name = .ok .undefined := by
  have hnone (name : String) : (s.scopes.get scope).has name = false := by
    rw [Environment.has, hempty, List.lookup_nil, Option.isSome_none]
  let s₁ : State := { s with scopes := s.scopes.modify scope (·.bindParameters f.params args) }
  have hbinds₁ : s.Binds scope s₁ := .modifyScope s scope (·.bindParameters f.params args)
  have hget₁ : s₁.scopes.get scope = (s.scopes.get scope).bindParameters f.params args :=
    Scopes.get_modify_self hscope _
  have hhas₁ (name : String) : (s₁.scopes.get scope).has name = true ↔ name ∈ f.params := by
    rw [hget₁, Environment.has_bindParameters, hnone]
    simp
  obtain ⟨s₂, hs₂, hbinds₂, hhas₂, hsame₂, hneeds⟩ :=
    bindArguments_binds callee f args (hbinds₁.scopes ▸ hscope)
  let s₃ : State := { s₂ with scopes := s₂.scopes.modify scope (·.declareVars f.varNames) }
  have hbinds₃ : s₂.Binds scope s₃ := .modifyScope s₂ scope (·.declareVars f.varNames)
  have hget₃ : s₃.scopes.get scope = (s₂.scopes.get scope).declareVars f.varNames :=
    Scopes.get_modify_self (hbinds₂.scopes ▸ hbinds₁.scopes ▸ hscope) _
  refine ⟨s₃, ?_, hbinds₁.trans (hbinds₂.trans hbinds₃), fun name => ?_,
    fun before name after heq hafter => ?_, fun h => ?_, fun name hname hparam hne => ?_⟩
  · have hfirst : modifyScope scope (·.bindParameters f.params args) s = .ok () s₁ := rfl
    simp only [fillScope, bind, EStateM.bind, hfirst, hs₂]
    rfl
  · rw [hget₃, Environment.has_declareVars, hhas₂, hhas₁]
    tauto
  · have hparam : name ∈ f.params := heq ▸ List.mem_append_right _ List.mem_cons_self
    have hbound₂ : (s₂.scopes.get scope).has name = true :=
      (hhas₂ name).mpr (.inr ((hhas₁ name).mpr hparam))
    have hother : needsArguments f = true → name ≠ "arguments" := by
      rintro hneed rfl
      simp [needsArguments, hparam] at hneed
    rw [hget₃, Environment.get_declareVars_of_has _ hbound₂, hsame₂ name hother, hget₁, heq]
    exact Environment.get_bindParameters hafter args
  · obtain ⟨o, hget, hnew, hlists⟩ := hneeds h
    refine ⟨o, ?_, hnew, hlists⟩
    rw [hget₃, Environment.get_declareVars_of_has _ ((hhas₂ _).mpr (.inl ⟨h, rfl⟩)), hget]
  · have hunbound : (s₂.scopes.get scope).has name = false := by
      rw [← Bool.not_eq_true, hhas₂, hhas₁]
      tauto
    rw [hget₃]
    exact Environment.get_declareVars hname hunbound

end Eval

/-! ### The scopes of a call -/

/-- A function of that name is declared directly in the body. -/
def FunctionDef.DeclaresFunction (f : FunctionDef) (name : String) : Prop :=
  ∃ g ∈ Stmt.functionsOf f.body, g.name = some name

/-- What a call that starts in `s` has made of the scope `outer` when the body of the function
starts to run in the scope `inner`. -/
structure FunctionDef.Instantiates (f : FunctionDef) (args : List Value) (s : State)
    (outer inner : ScopeRef) (s' : State) : Prop where
  names : ∀ name, (s'.scopes.get outer).has name = true ↔
    name ∈ f.params ∨ name ∈ f.varNames ∨ f.DeclaresFunction name ∨
      (name = "arguments" ∧ name ∉ f.params ∧ ¬f.DeclaresFunction name ∧
        name ∉ Stmt.lexicalNamesOf f.body)
  /-- The last function of a name takes it. -/
  functions : ∀ before g after name, Stmt.functionsOf f.body = before ++ g :: after →
    g.name = some name → (∀ k ∈ after, k.name ≠ some name) →
      s.HoldsNew g inner ((s'.scopes.get outer).get name) s'
  /-- The last place of a parameter counts; the argument there may be missing. -/
  params : ∀ before name after, f.params = before ++ name :: after → name ∉ after →
    ¬f.DeclaresFunction name →
      (s'.scopes.get outer).get name = .ok (args.getD before.length .undefined)
  arguments : (s'.scopes.get outer).has "arguments" = true → "arguments" ∉ f.params →
    ¬f.DeclaresFunction "arguments" →
      ∃ o, (s'.scopes.get outer).get "arguments" = .ok (.object o) ∧
        s.heap.objects.size ≤ o.index ∧ s'.heap.ListsArguments o args
  vars : ∀ name ∈ f.varNames, name ∉ f.params → ¬f.DeclaresFunction name →
    name ≠ "arguments" → (s'.scopes.get outer).get name = .ok .undefined
  inside : inner = s.scopes.next ∧ (s'.scopes.get inner).parent = some outer
  lexical : ∀ name, (s'.scopes.get inner).has name = true ↔ name ∈ Stmt.lexicalNamesOf f.body
  uninitialised : ∀ name ∈ Stmt.lexicalNamesOf f.body,
    (s'.scopes.get inner).get name = .error .uninitialised
  /-- What was there before the call is as it was, but for the scope of the call. -/
  objects : ∀ o : ObjectRef, o.index < s.heap.objects.size → s'.heap.get o = s.heap.get o
  others : ∀ r : ScopeRef, r.index < s.scopes.environments.size → r ≠ outer →
    s'.scopes.get r = s.scopes.get r

theorem Heap.ListsArguments.congr {h h' : Heap} {o : ObjectRef} {args : List Value}
    (hlists : h.ListsArguments o args) (hget : h'.get o = h.get o) : h'.ListsArguments o args := by
  obtain ⟨hkind, hlength, helements⟩ := hlists
  refine ⟨hget ▸ hkind, ?_, fun i => ?_⟩
  · rw [Heap.getOwn?, hget]
    exact hlength
  · rw [Heap.getOwn?, hget]
    exact helements i

namespace Place.Has

variable {source : String} {p : Program} {l : Place} {f : FunctionDef}
  {superProperty superCall : Bool}

theorem functions_isSome_name (h : l.Has (.function f superProperty superCall)) :
    ∀ g ∈ Stmt.functionsOf f.body, g.name.isSome = true :=
  isSome_name fun _ ht => h.body ht

theorem mem_functionNames (h : l.Has (.function f superProperty superCall)) (name : String) :
    name ∈ Eval.functionNames (Stmt.functionsOf f.body) ↔ f.DeclaresFunction name := by
  constructor
  · intro hmem
    obtain ⟨g, hg, rfl⟩ := List.mem_map.mp hmem
    obtain ⟨own, hown⟩ := Option.isSome_iff_exists.mp (h.functions_isSome_name g hg)
    exact ⟨g, hg, by rw [hown, Option.getD_some]⟩
  · rintro ⟨g, hg, hname⟩
    exact List.mem_map.mpr ⟨g, hg, by rw [hname, Option.getD_some]⟩

theorem unambiguous (h : l.Has (.function f superProperty superCall)) :
    (StatementList.ofFunction f).Unambiguous :=
  h.legal.unambiguous (List.mem_singleton.mpr rfl)

/-- The variables of a function in an accepted script are none of its lexical names. -/
theorem not_mem_lexicalNamesOf (h : l.Has (.function f superProperty superCall))
    (hparse : Program.parse source = .ok p) (hl : l.program = p) {name : String}
    (hname : name ∈ f.varNames) : name ∉ Stmt.lexicalNamesOf f.body := by
  subst hl
  have htokens : ∀ t ∈ (Lexed.ofString source).tokens.filter Token.isSignificant,
      t.declaredName = t.text :=
    fun t ht => Lexed.declaredName_eq (List.mem_of_mem_filter ht)
  obtain ⟨-, hbody⟩ := Program.known_of_parse hparse
  obtain ⟨hhere, -⟩ := h.each hbody
  have hvars := (hhere f rfl).hoists.variablesOf htokens
  intro hlexical
  exact h.unambiguous.vars name hlexical (Stmt.mem_varNamesOf.mpr ((hvars.declared name).mp hname))

end Place.Has

theorem Eval.needsArguments_iff {f : FunctionDef} : Eval.needsArguments f = true ↔
    "arguments" ∉ f.params ∧ ¬f.DeclaresFunction "arguments" ∧
      "arguments" ∉ Stmt.lexicalNamesOf f.body := by
  have hlexical : (Stmt.lexicalBindingsOf f.body).any (·.1 == "arguments") = true ↔
      "arguments" ∈ Stmt.lexicalNamesOf f.body := by
    rw [← Stmt.map_fst_lexicalBindingsOf, List.any_eq_true, List.mem_map]
    simp only [beq_iff_eq]
  have hfunctions : (Stmt.functionsOf f.body).any (·.name == some "arguments") = true ↔
      f.DeclaresFunction "arguments" := by
    rw [List.any_eq_true, FunctionDef.DeclaresFunction]
    simp only [beq_iff_eq]
  rw [Eval.needsArguments, Bool.and_eq_true, Bool.and_eq_true, Bool.not_eq_true', Bool.not_eq_true',
    Bool.not_eq_true', ← Bool.not_eq_true, ← Bool.not_eq_true, ← Bool.not_eq_true, hlexical,
    hfunctions, List.contains_iff_mem, and_assoc]

namespace Eval

variable {source : String} {p : Program} {l : Place} {f : FunctionDef}
  {superProperty superCall : Bool} {s : State} {scope : ScopeRef}

/-- A call of a function in an accepted script makes the scopes of its body, for arguments of any
number. -/
theorem function_scopes_made (hparse : Program.parse source = .ok p) (hl : l.program = p)
    (hf : l.Has (.function f superProperty superCall)) (callee : ObjectRef) (args : List Value)
    (hscope : scope.index < s.scopes.environments.size)
    (hempty : (s.scopes.get scope).bindings = []) :
    ∃ inner s', instantiateBody callee f scope args s = .ok inner s' ∧
      f.Instantiates args s scope inner s' := by
  obtain ⟨s₁, hs₁, hbinds₁, hhas₁, hparams, harguments, hvars⟩ :=
    fillScope_binds callee f args hscope hempty
  have hscope₁ : scope.index < s₁.scopes.environments.size := hbinds₁.scopes ▸ hscope
  -- The scope inside has the lexical names.
  let lexical : Environment :=
    Environment.declareLexical { parent := some scope } (Stmt.lexicalBindingsOf f.body)
  let s₂ : State := { s₁ with scopes := s₁.scopes.push lexical }
  have hnext : s₁.scopes.next = s.scopes.next := congrArg ScopeRef.mk hbinds₁.scopes
  have hget₂ : s₂.scopes.get scope = s₁.scopes.get scope := Scopes.get_push_of_lt hscope₁ _
  have hscope₂ : scope.index < s₂.scopes.environments.size := by
    simpa [s₂, Scopes.push] using Nat.lt_succ_of_lt hscope₁
  -- Functions replace what their names held.
  obtain ⟨s₃, hs₃, hbinds₃, hhas₃, hsame₃, hlast⟩ :=
    declareFunctions_binds (s := s₂) (Stmt.functionsOf f.body) s.scopes.next .var hscope₂
  have hhas (name : String) : (s₃.scopes.get scope).has name = true ↔
      f.DeclaresFunction name ∨ name ∈ f.params ∨ name ∈ f.varNames ∨
        (needsArguments f = true ∧ name = "arguments") := by
    rw [hhas₃, hget₂, hhas₁, hf.mem_functionNames]
  have hsame (name : String) (hname : ¬f.DeclaresFunction name) :
      (s₃.scopes.get scope).get name = (s₁.scopes.get scope).get name := by
    rw [hsame₃ name (mt (hf.mem_functionNames name).mp hname), hget₂]
  have hinner : s₃.scopes.get s.scopes.next = lexical := by
    have hne : s.scopes.next ≠ scope := by
      rintro rfl
      exact Nat.lt_irrefl _ hscope
    rw [hbinds₃.others _ hne, ← hnext]
    exact Scopes.get_push_next _ _
  have hnodup : ((Stmt.lexicalBindingsOf f.body).map Prod.fst).Nodup := by
    rw [Stmt.map_fst_lexicalBindingsOf]
    exact hf.unambiguous.distinct
  refine ⟨s.scopes.next, s₃, ?_, ?_⟩
  · have hpush : modifyScope s.scopes.next (·.declareLexical (Stmt.lexicalBindingsOf f.body))
        { s₁ with scopes := s₁.scopes.push { parent := some scope } } = .ok () s₂ := by
      simp only [modifyScope, modify, modifyGet, MonadStateOf.modifyGet, EStateM.modifyGet, ← hnext,
        Scopes.modify_push_next, s₂, lexical]
    have hinnerScope : innerScope scope s₁ =
        .ok s.scopes.next { s₁ with scopes := s₁.scopes.push { parent := some scope } } :=
      congrArg (EStateM.Result.ok · _) hnext
    simp only [instantiateBody_eq, bind, EStateM.bind, hs₁, hinnerScope, hpush, hs₃, pure,
      EStateM.pure]
  refine
    { names := fun name => ?_
      functions := fun before g after name heq hname hafter => ?_
      params := fun before name after heq hafter hdeclared => ?_
      arguments := fun hbound hparam hdeclared => ?_
      vars := fun name hname hparam hdeclared hne => ?_
      inside := ⟨rfl, ?_⟩
      lexical := fun name => ?_
      uninitialised := fun name hname => ?_
      objects := fun o ho => ?_
      others := fun r hr hne => ?_ }
  · rw [hhas, needsArguments_iff]
    constructor
    · rintro (h | h | h | ⟨⟨hparam, hdeclared, hlexical⟩, rfl⟩)
      · exact .inr (.inr (.inl h))
      · exact .inl h
      · exact .inr (.inl h)
      · exact .inr (.inr (.inr ⟨rfl, hparam, hdeclared, hlexical⟩))
    · rintro (h | h | h | ⟨rfl, hother⟩)
      · exact .inr (.inl h)
      · exact .inr (.inr (.inl h))
      · exact .inl h
      · exact .inr (.inr (.inr ⟨hother, rfl⟩))
  · have hheld := hlast before g after heq fun hmem => by
      obtain ⟨k, hk, hkname⟩ := List.mem_map.mp hmem
      have hsome : k.name.isSome = true := by
        refine hf.functions_isSome_name k ?_
        rw [heq]
        exact List.mem_append_right _ (List.mem_cons_of_mem _ hk)
      obtain ⟨own, hown⟩ := Option.isSome_iff_exists.mp hsome
      rw [hown, hname] at hkname
      exact hafter k hk (hown.trans (congrArg some hkname))
    rw [hname] at hheld
    have hstays : s₃.Binds scope s₃ := .of_adds (.refl _ s₃)
    exact hheld.mono hbinds₁.size hstays
  · rw [hsame name hdeclared]
    exact hparams before name after heq hafter
  · have hneeds : needsArguments f = true := by
      -- A variable of the name is no lexical declaration of it.
      rcases (hhas _).mp hbound with h | h | h | ⟨h, -⟩
      · exact absurd h hdeclared
      · exact absurd h hparam
      · exact needsArguments_iff.mpr ⟨hparam, hdeclared, hf.not_mem_lexicalNamesOf hparse hl h⟩
      · exact h
    obtain ⟨o, hget, hnew, hlt, hlists⟩ := harguments hneeds
    exact ⟨o, (hsame _ hdeclared).trans hget, hnew, hlists.congr (hbinds₃.objects o hlt)⟩
  · rw [hsame name hdeclared]
    exact hvars name hname hparam fun _ => hne
  · rw [hinner]
    exact (Environment.extends_declareLexical _ _).parent
  · rw [hinner, Environment.has_declareLexical, Stmt.map_fst_lexicalBindingsOf]
    exact or_iff_left Bool.false_ne_true
  · rw [← Stmt.map_fst_lexicalBindingsOf] at hname
    obtain ⟨⟨_, kind⟩, hmem, rfl⟩ := List.mem_map.mp hname
    rw [hinner, Environment.get, Environment.lookup_declareLexical hnodup hmem
      (Stmt.ne_var_of_mem_lexicalBindingsOf hmem)]
  · rw [hbinds₃.objects o (Nat.lt_of_lt_of_le ho hbinds₁.size)]
    exact hbinds₁.objects o ho
  · rw [hbinds₃.others r hne, Scopes.get_push_of_lt (hbinds₁.scopes ▸ hr)]
    exact hbinds₁.others r hne

/-- A parameter that stands twice, another one that a function takes over, two functions of one
name, and a variable that holds the arguments, in a call with one argument. -/
theorem function_scopes_made_overlapping :
    let source := "function f(a, a, g) \x7b var arguments, b; let c; " ++
      "function g() \x7b\x7d function g(x) \x7b\x7d \x7d"
    let s : State := { State.initial with scopes := State.initial.scopes.push {} }
    let scope := State.initial.scopes.next
    ∃ p f inner s', Program.parse source = .ok p ∧ Stmt.functionsOf p.body = [f] ∧
      f.params = ["a", "a", "g"] ∧ f.varNames = ["arguments", "b"] ∧
      (Stmt.functionsOf f.body).map FunctionDef.name = [some "g", some "g"] ∧
      (⟨p, []⟩ : Place).Has (.function f false false) ∧
      scope.index < s.scopes.environments.size ∧ (s.scopes.get scope).bindings = [] ∧
      instantiateBody Intrinsic.functionPrototype f scope [.null] s = .ok inner s' ∧
      f.Instantiates [.null] s scope inner s' := by
  intro source s scope
  have hshape : ((Program.parse source).toOption.map fun p =>
      (Stmt.functionsOf p.body).map fun f =>
        (f.params, f.varNames, (Stmt.functionsOf f.body).map FunctionDef.name)) =
      some [(["a", "a", "g"], ["arguments", "b"], [some "g", some "g"])] := by
    decide +kernel
  cases hparse : Program.parse source with
  | error e =>
    rw [hparse] at hshape
    cases hshape
  | ok p =>
    rw [hparse] at hshape
    obtain ⟨f, hfunctions, hf⟩ := List.map_eq_singleton_iff.mp (Option.some.inj hshape)
    obtain ⟨hparams, hrest⟩ := Prod.mk.inj hf
    obtain ⟨hvars, hnames⟩ := Prod.mk.inj hrest
    have hhas : (⟨p, []⟩ : Place).Has (.function f false false) :=
      Place.Has.functionsOf (fun _ ht => .script ⟨source, hparse⟩ ht) f (by simp [hfunctions])
    have hscope : scope.index < s.scopes.environments.size := by
      simp [s, scope, Scopes.push, Scopes.next]
    have hempty : (s.scopes.get scope).bindings = [] :=
      congrArg Environment.bindings (Scopes.get_push_next _ _)
    obtain ⟨inner, s', hs', hmade⟩ :=
      function_scopes_made hparse rfl hhas Intrinsic.functionPrototype [.null] hscope hempty
    exact ⟨p, f, inner, s', rfl, hfunctions, hparams, hvars, hnames, hhas, hscope, hempty, hs',
      hmade⟩

end Eval

end Ecma
