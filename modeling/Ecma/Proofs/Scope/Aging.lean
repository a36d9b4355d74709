import Ecma.Proofs.Run.Store
import Ecma.Proofs.Scope.Binding

/-! How scopes age. A binding that has a value keeps one, and a constant keeps its own; a call gets
its `this` value once; what a scope stands in never changes. A step that ages scopes may be steady
as well: it leaves names without a value as they are, but for some that it tells. -/

namespace Ecma

/-! ### Bindings and calls -/

namespace BindingKind

/-- A binding of this kind never gets a second value. -/
def isConstant : BindingKind → Bool
  | .const | .functionName => true
  | .var | .letVar => false

end BindingKind

/-- What a binding may become. -/
structure Binding.Settles (b b' : Binding) : Prop where
  kind : b'.kind = b.kind
  initialised : b.value.isSome = true → b'.value.isSome = true
  constant : b.kind.isConstant = true → b.value.isSome = true → b'.value = b.value

namespace Binding.Settles

variable {b b₁ b₂ b₃ : Binding}

theorem refl (b : Binding) : b.Settles b :=
  ⟨rfl, id, fun _ _ => rfl⟩

theorem trans (h₁ : b₁.Settles b₂) (h₂ : b₂.Settles b₃) : b₁.Settles b₃ where
  kind := h₂.kind.trans h₁.kind
  initialised hvalue := h₂.initialised (h₁.initialised hvalue)
  constant hkind hvalue :=
    (h₂.constant (h₁.kind ▸ hkind) (h₁.initialised hvalue)).trans (h₁.constant hkind hvalue)

/-- A binding without a value may get any. -/
theorem of_uninitialised {kind : BindingKind} (value : Option Value) :
    Binding.Settles ⟨kind, none⟩ ⟨kind, value⟩ :=
  ⟨rfl, nofun, fun _ => nofun⟩

/-- A variable may get any value. -/
theorem of_variable {kind : BindingKind} (hkind : kind.isConstant = false) (old : Option Value)
    (value : Value) : Binding.Settles ⟨kind, old⟩ ⟨kind, some value⟩ :=
  ⟨rfl, fun _ => rfl, fun h => absurd h (by simp [hkind])⟩

end Binding.Settles

/-- What the scope of a call may become: `this` is bound at most once. -/
structure FunctionScope.Settles (f f' : FunctionScope) : Prop where
  function : f'.function = f.function
  newTarget : f'.newTarget = f.newTarget
  this : f.this.isSome = true → f'.this = f.this

namespace FunctionScope.Settles

theorem refl (f : FunctionScope) : f.Settles f :=
  ⟨rfl, rfl, fun _ => rfl⟩

theorem trans {f₁ f₂ f₃ : FunctionScope} (h₁ : f₁.Settles f₂) (h₂ : f₂.Settles f₃) :
    f₁.Settles f₃ where
  function := h₂.function.trans h₁.function
  newTarget := h₂.newTarget.trans h₁.newTarget
  this hthis := (h₂.this (by rw [h₁.this hthis, hthis])).trans (h₁.this hthis)

end FunctionScope.Settles

/-! ### Scopes -/

namespace Environment

/-- What a scope may become. -/
structure Ages (e e' : Environment) : Prop where
  parent : e'.parent = e.parent
  bindings : ∀ name b, e.bindings.lookup name = some b →
    ∃ b', e'.bindings.lookup name = some b' ∧ b.Settles b'
  isCall : e'.function.isSome = e.function.isSome
  function : ∀ f, e.function = some f → ∃ f', e'.function = some f' ∧ f.Settles f'

/-- A name that is not bound, or has no value yet. -/
def Awaits (e : Environment) (name : String) : Prop :=
  (e.bindings.lookup name).bind Binding.value = none

/-- The scope ages, and names without a value stay as they are but for some. -/
structure Steady (but : Set String) (e e' : Environment) : Prop extends e.Ages e' where
  awaits : ∀ name, name ∉ but → e.Awaits name → e'.bindings.lookup name = e.bindings.lookup name

variable {e e₁ e₂ e₃ : Environment} {but but' : Set String} {name : String}

theorem Ages.refl (e : Environment) : e.Ages e :=
  ⟨rfl, fun _ b h => ⟨b, h, .refl b⟩, rfl, fun f h => ⟨f, h, .refl f⟩⟩

theorem Ages.trans (h₁ : e₁.Ages e₂) (h₂ : e₂.Ages e₃) : e₁.Ages e₃ where
  parent := h₂.parent.trans h₁.parent
  bindings name b hb := by
    obtain ⟨b', hb', hsettles⟩ := h₁.bindings name b hb
    obtain ⟨b'', hb'', hsettles'⟩ := h₂.bindings name b' hb'
    exact ⟨b'', hb'', hsettles.trans hsettles'⟩
  isCall := h₂.isCall.trans h₁.isCall
  function f hf := by
    obtain ⟨f', hf', hsettles⟩ := h₁.function f hf
    obtain ⟨f'', hf'', hsettles'⟩ := h₂.function f' hf'
    exact ⟨f'', hf'', hsettles.trans hsettles'⟩

theorem Steady.refl (but : Set String) (e : Environment) : e.Steady but e :=
  ⟨.refl e, fun _ _ _ => rfl⟩

theorem Steady.trans (h₁ : e₁.Steady but e₂) (h₂ : e₂.Steady but e₃) : e₁.Steady but e₃ where
  toAges := h₁.toAges.trans h₂.toAges
  awaits name hname hawaits := by
    have hsame := h₁.awaits name hname hawaits
    refine (h₂.awaits name hname ?_).trans hsame
    rwa [Awaits, hsame]

theorem Steady.mono (h : e₁.Steady but e₂) (hsub : but ⊆ but') : e₁.Steady but' e₂ :=
  ⟨h.toAges, fun name hname => h.awaits name fun hmem => hname (hsub hmem)⟩

/-- A step on one binding. -/
theorem steady_put {b : Binding}
    (h : ∀ old, e.bindings.lookup name = some old → old.Settles b) :
    e.Steady {name} { e with bindings := put name b e.bindings } where
  parent := rfl
  bindings other old hold := by
    by_cases heq : other = name
    · subst heq
      exact ⟨b, lookup_put_self _, h old hold⟩
    · exact ⟨old, (lookup_put_ne heq _).trans hold, .refl old⟩
  isCall := rfl
  function f hf := ⟨f, hf, .refl f⟩
  awaits other hother _ := lookup_put_ne hother _

/-- A name that is not bound may be declared. -/
theorem steady_declare (h : e.bindings.lookup name = none) (kind : BindingKind) :
    e.Steady {name} (e.declare name kind) :=
  steady_put fun old hold => by rw [h] at hold; cases hold

theorem steady_declareNew (e : Environment) (name : String) (kind : BindingKind) :
    e.Steady {name} (e.declareNew name kind) := by
  unfold declareNew
  split
  · exact .refl _ e
  · next hnone => exact steady_declare (Option.not_isSome_iff_eq_none.mp hnone) kind

theorem lookup_initialise {b : Binding} (h : e.bindings.lookup name = some b) (value : Value) :
    (e.initialise name value).bindings.lookup name = some { b with value := some value } := by
  rw [initialise, h]
  exact lookup_put_self _

/-- A binding gets a value if it has none, or is none of a constant. -/
theorem steady_initialise
    (h : ∀ b, e.bindings.lookup name = some b → b.value = none ∨ b.kind.isConstant = false)
    (value : Value) : e.Steady {name} (e.initialise name value) := by
  unfold initialise
  split
  · next b hb =>
    refine steady_put fun old hold => ?_
    cases hb.symm.trans hold
    obtain ⟨kind, old⟩ := b
    rcases h _ hb with hnone | hkind
    · cases hnone
      exact .of_uninitialised _
    · exact .of_variable hkind old value
  · exact .refl _ e

/-- A name that is not bound may be declared with a value. -/
theorem steady_bind (h : e.bindings.lookup name = none) (kind : BindingKind) (value : Value) :
    e.Steady {name} ((e.declare name kind).initialise name value) := by
  refine (steady_declare h kind).trans (steady_initialise (fun b hb => ?_) value)
  cases (lookup_declare_self kind).symm.trans hb
  cases kind with
  | var => exact .inr rfl
  | letVar | const | functionName => exact .inl rfl

/-- An assignment finds a value, and replaces none of a constant. -/
theorem steady_set {e' : Environment} {value : Value} {strict : Bool}
    (h : e.set name value strict = .ok e') : e.Steady ∅ e' := by
  unfold set at h
  split at h
  · cases h
  · cases h
  · cases h
  · split at h
    · cases h
    · cases h
      exact .refl _ e
  · next kind old hconst hname hb =>
    cases h
    have hkind : kind.isConstant = false := by
      cases kind with
      | const => exact absurd rfl hconst
      | functionName => exact absurd rfl hname
      | var | letVar => rfl
    have hput : e.Steady {name}
        { e with bindings := put name ⟨kind, some value⟩ e.bindings } :=
      steady_put fun b hb' => by
        cases hb.symm.trans hb'
        exact Binding.Settles.of_variable hkind _ value
    refine ⟨hput.toAges, fun other _ hawaits => ?_⟩
    by_cases heq : other = name
    · subst heq
      rw [Awaits, hb] at hawaits
      cases hawaits
    · exact hput.awaits other heq hawaits

/-- A call that has no `this` value gets one. -/
theorem steady_bindThis {f : FunctionScope} (hf : e.function = some f) (hthis : f.this = none)
    (this : Value) :
    e.Steady ∅ { e with function := e.function.map fun f => { f with this := some this } } where
  parent := rfl
  bindings _ b hb := ⟨b, hb, .refl b⟩
  isCall := by simp
  function g hg := by
    cases hf.symm.trans hg
    refine ⟨{ f with this := some this }, congrArg (Option.map _) hf, rfl, rfl, fun h => ?_⟩
    rw [hthis] at h
    cases h
  awaits _ _ _ := rfl

/-! ### Filling a scope -/

/-- A name that may be bound to a value any number of times: it is not bound, or a variable that has
a value. -/
def Open (e : Environment) (name : String) : Prop :=
  ∀ b, e.bindings.lookup name = some b → b.value.isSome = true ∧ b.kind.isConstant = false

theorem Open.of_none (h : e.bindings.lookup name = none) : e.Open name := by
  intro b hb
  rw [h] at hb
  cases hb

theorem Open.of_some {kind : BindingKind} {value : Value} (hkind : kind.isConstant = false)
    (h : e.bindings.lookup name = some ⟨kind, some value⟩) : e.Open name := by
  intro b hb
  cases h.symm.trans hb
  exact ⟨rfl, hkind⟩

theorem Open.mono (h : e₁.Open name) (hsteady : e₁.Steady but e₂) (hname : name ∉ but) :
    e₂.Open name := by
  cases hb : e₁.bindings.lookup name with
  | none =>
    refine .of_none ((hsteady.awaits name hname ?_).trans hb)
    rw [Awaits, hb]
    rfl
  | some b =>
    obtain ⟨hvalue, hkind⟩ := h b hb
    obtain ⟨⟨kind, value⟩, hb', hsettles⟩ := hsteady.bindings name b hb
    obtain ⟨v, rfl⟩ := Option.isSome_iff_exists.mp (hsettles.initialised hvalue)
    have hsame : kind = b.kind := hsettles.kind
    exact .of_some (hsame ▸ hkind) hb'

/-- A name that may be bound is, and may be again. -/
theorem Open.bind {kind : BindingKind} (h : e.Open name) (hkind : kind.isConstant = false)
    (value : Value) :
    e.Steady {name} ((e.declareNew name kind).initialise name value) ∧
      ((e.declareNew name kind).initialise name value).Open name := by
  -- The name is bound after the first step: to what it was, or anew.
  obtain ⟨b, hb, hconstant⟩ : ∃ b, (e.declareNew name kind).bindings.lookup name = some b ∧
      b.kind.isConstant = false := by
    unfold declareNew has
    split
    · next hsome =>
      obtain ⟨b, hb⟩ := Option.isSome_iff_exists.mp hsome
      exact ⟨b, hb, (h b hb).2⟩
    · exact ⟨_, lookup_declare_self kind, hkind⟩
  have hinitialised : (e.declareNew name kind).Steady {name}
      ((e.declareNew name kind).initialise name value) :=
    steady_initialise (fun b' hb' => .inr (by cases hb.symm.trans hb'; exact hconstant)) value
  exact ⟨(e.steady_declareNew name kind).trans hinitialised,
    .of_some hconstant (lookup_initialise hb value)⟩

theorem Open.bind_other {other : String} {kind : BindingKind} (h : e.Open name)
    (hkind : kind.isConstant = false) (value : Value) (hother : e.Open other) :
    ((e.declareNew name kind).initialise name value).Open other := by
  by_cases heq : other = name
  · exact heq ▸ (h.bind hkind value).2
  · exact hother.mono (h.bind hkind value).1 heq

theorem steady_bindParameters {params : List String} {args : List Value}
    (h : ∀ param ∈ params, e.Open param) :
    e.Steady {param | param ∈ params} (e.bindParameters params args) := by
  induction params generalizing e args with
  | nil => exact .refl _ e
  | cons param rest ih =>
    have hparam := h param (by simp)
    have hrest : ((e.declareNew param .var).initialise param (args.headD .undefined)).Steady
        {other | other ∈ rest} (e.bindParameters (param :: rest) args) :=
      ih fun other hother => hparam.bind_other rfl _ (h other (List.mem_cons_of_mem _ hother))
    refine ((hparam.bind rfl _).1.mono ?_).trans (hrest.mono ?_)
    · simp
    · exact fun other hother => List.mem_cons_of_mem _ hother

theorem Open.bindParameters {params : List String} {args : List Value}
    (h : ∀ param ∈ params, e.Open param) (hname : e.Open name) :
    (e.bindParameters params args).Open name := by
  induction params generalizing e args with
  | nil => exact hname
  | cons param rest ih =>
    have hparam := h param (by simp)
    refine ih (fun other hother => ?_) (hparam.bind_other rfl _ hname)
    exact hparam.bind_other rfl _ (h other (List.mem_cons_of_mem _ hother))

theorem steady_declareVars (e : Environment) (names : List String) :
    e.Steady {name | name ∈ names} (e.declareVars names) := by
  unfold declareVars
  induction names generalizing e with
  | nil => exact .refl _ e
  | cons name rest ih =>
    refine ((e.steady_declareNew name .var).mono ?_).trans ((ih _).mono ?_)
    · simp
    · exact fun other hother => List.mem_cons_of_mem _ hother

theorem Open.declareVars (h : e.Open name) (names : List String) :
    (e.declareVars names).Open name := by
  unfold Environment.declareVars
  induction names generalizing e with
  | nil => exact h
  | cons other rest ih =>
    refine ih ?_
    by_cases heq : name = other
    · subst heq
      change (e.declareNew name .var).Open name
      unfold declareNew
      split
      · exact h
      · exact .of_some rfl (lookup_declare_self .var)
    · exact h.mono (e.steady_declareNew other .var) heq

theorem steady_declareLexical {bindings : List (String × VarKind)}
    (hnodup : (bindings.map Prod.fst).Nodup)
    (h : ∀ name ∈ bindings.map Prod.fst, e.bindings.lookup name = none) :
    e.Steady {name | name ∈ bindings.map Prod.fst} (e.declareLexical bindings) := by
  induction bindings generalizing e with
  | nil => exact .refl _ e
  | cons entry rest ih =>
    simp only [List.map_cons, List.nodup_cons] at hnodup
    have hfirst := steady_declare (h entry.1 (by simp)) entry.2.bindingKind
    have hrest := ih (e := e.declare entry.1 entry.2.bindingKind) hnodup.2 fun name hname => by
      have hne : name ≠ entry.1 := fun heq => hnodup.1 (heq ▸ hname)
      rw [lookup_declare_ne hne]
      exact h name (by simp [hname])
    refine (hfirst.mono ?_).trans (hrest.mono ?_)
    · simp
    · exact fun name hname => List.mem_cons_of_mem _ hname

end Environment

/-! ### All scopes -/

/-- Some names in a scope. -/
def ScopeRef.names (q : ScopeRef) (names : Set String) : Set (ScopeRef × String) :=
  {p | p.1 = q ∧ p.2 ∈ names}

theorem ScopeRef.names_empty (q : ScopeRef) : q.names ∅ = ∅ :=
  Set.eq_empty_of_forall_notMem fun _ hp => hp.2

theorem ScopeRef.names_mono {q : ScopeRef} {names names' : Set String} (h : names ⊆ names') :
    q.names names ⊆ q.names names' :=
  fun _ hp => ⟨hp.1, h hp.2⟩

/-- All names in a scope. -/
def ScopeRef.all (q : ScopeRef) : Set (ScopeRef × String) :=
  q.names Set.univ

theorem ScopeRef.names_subset_all {q : ScopeRef} {names : Set String} : q.names names ⊆ q.all :=
  names_mono (Set.subset_univ names)

namespace Scopes

/-- Scopes are only added, and those that are there age. -/
structure Ages (s s' : Scopes) : Prop where
  size : s.environments.size ≤ s'.environments.size
  environments : ∀ q : ScopeRef, q.index < s.environments.size → (s.get q).Ages (s'.get q)

/-- Scopes age, and names without a value stay as they are but for some. -/
structure Steady (but : Set (ScopeRef × String)) (s s' : Scopes) : Prop where
  size : s.environments.size ≤ s'.environments.size
  environments : ∀ q : ScopeRef, q.index < s.environments.size →
    (s.get q).Steady {name | (q, name) ∈ but} (s'.get q)

variable {s s' s₁ s₂ s₃ : Scopes} {but but' : Set (ScopeRef × String)} {q : ScopeRef}
  {name : String}

theorem Ages.refl (s : Scopes) : s.Ages s :=
  ⟨Nat.le_refl _, fun q _ => .refl (s.get q)⟩

theorem Ages.trans (h₁ : s₁.Ages s₂) (h₂ : s₂.Ages s₃) : s₁.Ages s₃ :=
  ⟨Nat.le_trans h₁.size h₂.size, fun q hq =>
    (h₁.environments q hq).trans (h₂.environments q (Nat.lt_of_lt_of_le hq h₁.size))⟩

theorem Steady.ages (h : s.Steady but s') : s.Ages s' :=
  ⟨h.size, fun q hq => (h.environments q hq).toAges⟩

theorem Steady.refl (but : Set (ScopeRef × String)) (s : Scopes) : s.Steady but s :=
  ⟨Nat.le_refl _, fun q _ => .refl _ (s.get q)⟩

theorem Steady.trans (h₁ : s₁.Steady but s₂) (h₂ : s₂.Steady but s₃) : s₁.Steady but s₃ :=
  ⟨Nat.le_trans h₁.size h₂.size, fun q hq =>
    (h₁.environments q hq).trans (h₂.environments q (Nat.lt_of_lt_of_le hq h₁.size))⟩

theorem Steady.mono (h : s.Steady but s') (hsub : but ⊆ but') : s.Steady but' s' :=
  ⟨h.size, fun q hq => (h.environments q hq).mono fun _ hname => hsub hname⟩

/-- What is done to scopes that were not there does not count. -/
theorem Steady.forget (h : s.Steady but' s')
    (hnew : ∀ p ∈ but', p ∈ but ∨ s.environments.size ≤ p.1.index) : s.Steady but s' :=
  ⟨h.size, fun q hq => (h.environments q hq).mono fun _ hname =>
    (hnew _ hname).resolve_right (Nat.not_le.mpr hq)⟩

theorem steady_push (s : Scopes) (e : Environment) : s.Steady ∅ (s.push e) where
  size := by simp [push]
  environments q hq := by
    rw [get_push_of_lt hq]
    exact .refl _ _

theorem steady_modify {f : Environment → Environment} {names : Set String}
    (h : (s.get q).Steady names (f (s.get q))) :
    s.Steady (q.names names) (s.modify q f) where
  size := by simp [modify]
  environments p _ := by
    obtain heq | ⟨rfl, heq⟩ := s.get_modify_cases q f p
    · exact heq ▸ .refl _ _
    · rw [heq]
      exact h.mono fun name hname => ⟨rfl, hname⟩

/-! ### What a scope says of a name -/

/-- A scope that is there has nothing or a binding without a value under a name. -/
structure Finds (s : Scopes) (q : ScopeRef) (name : String) (found : Option BindingKind) :
    Prop where
  lt : q.index < s.environments.size
  lookup : (s.get q).bindings.lookup name = found.map fun kind => ⟨kind, none⟩

/-- Only a step that says so gives a name its value. -/
theorem Finds.mono {found : Option BindingKind} (h : s.Finds q name found)
    (hsteady : s.Steady but s') (hname : (q, name) ∉ but) : s'.Finds q name found := by
  refine ⟨Nat.lt_of_lt_of_le h.lt hsteady.size, ?_⟩
  refine ((hsteady.environments q h.lt).awaits name hname ?_).trans h.lookup
  rw [Environment.Awaits, h.lookup]
  cases found <;> rfl

theorem Finds.keep {found : Option BindingKind} (h : s.Finds q name found)
    (hsteady : s.Steady ∅ s') : s'.Finds q name found :=
  h.mono hsteady (Set.notMem_empty _)

/-- A scope that is there binds no name. -/
def Blank (s : Scopes) (q : ScopeRef) : Prop :=
  ∀ name, s.Finds q name none

theorem Blank.of_get {e : Environment} (hlt : q.index < s.environments.size) (hget : s.get q = e)
    (hempty : e.bindings = []) : s.Blank q :=
  fun _ => ⟨hlt, by rw [hget, hempty]; rfl⟩

/-- A scope that is there may bind a name to a value any number of times. -/
structure Open (s : Scopes) (q : ScopeRef) (name : String) : Prop where
  lt : q.index < s.environments.size
  binds : (s.get q).Open name

theorem Finds.isOpen (h : s.Finds q name none) : s.Open q name :=
  ⟨h.lt, .of_none h.lookup⟩

theorem Open.mono (h : s.Open q name) (hsteady : s.Steady but s') (hname : (q, name) ∉ but) :
    s'.Open q name :=
  ⟨Nat.lt_of_lt_of_le h.lt hsteady.size, h.binds.mono (hsteady.environments q h.lt) hname⟩

theorem Open.keep (h : s.Open q name) (hsteady : s.Steady ∅ s') : s'.Open q name :=
  h.mono hsteady (Set.notMem_empty _)

/-- Different names are bound in a scope and have no values yet. -/
structure Pending (s : Scopes) (q : ScopeRef) (names : List String) : Prop where
  distinct : names.Nodup
  finds : ∀ name ∈ names, ∃ kind, s.Finds q name (some kind)

variable {names names' : List String}

theorem Pending.nil : s.Pending q [] :=
  ⟨List.nodup_nil, nofun⟩

theorem Pending.sublist (h : s.Pending q names) (hsub : names'.Sublist names) :
    s.Pending q names' :=
  ⟨h.distinct.sublist hsub, fun name hname => h.finds name (hsub.subset hname)⟩

theorem Pending.append (h : s.Pending q names) (h' : s.Pending q names')
    (hdisjoint : ∀ name ∈ names, name ∉ names') : s.Pending q (names ++ names') :=
  ⟨List.nodup_append.mpr ⟨h.distinct, h'.distinct, fun name hname _ hname' heq =>
      hdisjoint name hname (heq ▸ hname')⟩,
    fun name hname => (List.mem_append.mp hname).elim (h.finds name) (h'.finds name)⟩

theorem Pending.mono (h : s.Pending q names) (hsteady : s.Steady but s')
    (hnames : ∀ name ∈ names, (q, name) ∉ but) : s'.Pending q names := by
  refine ⟨h.distinct, fun name hname => ?_⟩
  obtain ⟨kind, hfinds⟩ := h.finds name hname
  exact ⟨kind, hfinds.mono hsteady (hnames name hname)⟩

theorem Pending.keep (h : s.Pending q names) (hsteady : s.Steady ∅ s') : s'.Pending q names :=
  h.mono hsteady fun _ _ => Set.notMem_empty _

/-- A step on some of the names leaves the others as they are. -/
theorem Pending.rest (h : s.Pending q (names ++ names'))
    (hsteady : s.Steady (q.names {name | name ∈ names}) s') : s'.Pending q names' :=
  (h.sublist (List.sublist_append_right _ _)).mono hsteady fun name hname hp =>
    (List.nodup_append.mp h.distinct).2.2 name hp.2 name hname rfl

/-- Lexical declarations leave their names without values. -/
theorem pending_declareLexical {bindings : List (String × VarKind)}
    (hnodup : (bindings.map Prod.fst).Nodup) (hkind : ∀ b ∈ bindings, b.2 ≠ .var)
    (h : ∀ name ∈ bindings.map Prod.fst, s.Finds q name none) :
    (s.modify q (·.declareLexical bindings)).Pending q (bindings.map Prod.fst) := by
  refine ⟨hnodup, fun name hname => ?_⟩
  have hlt := (h name hname).lt
  obtain ⟨⟨_, kind⟩, hmem, rfl⟩ := List.mem_map.mp hname
  refine ⟨kind.bindingKind, by simpa [modify] using hlt, ?_⟩
  rw [get_modify_self hlt]
  exact Environment.lookup_declareLexical hnodup hmem (hkind _ hmem)

end Scopes

end Ecma
