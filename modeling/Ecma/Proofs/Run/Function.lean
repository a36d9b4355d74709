import Ecma.Eval.Class
import Ecma.Proofs.Run.Discipline
import Ecma.Proofs.Run.Safe

/-! Functions fit the scopes that they are made in, and the scopes of calls, blocks and classes
grant what the code in them uses. Such a scope comes without names, and each name that code declares
is bound in it once; lexical names are left without values. -/

namespace Ecma

/-! ### Changing scopes -/

namespace Environment

theorem extends_bindings (e : Environment) (bindings : List (String × Binding)) :
    e.Extends { e with bindings } :=
  ⟨rfl, rfl, rfl, rfl⟩

theorem extends_declare (e : Environment) (name : String) (kind : BindingKind) :
    e.Extends (e.declare name kind) :=
  e.extends_bindings _

theorem extends_declareNew (e : Environment) (name : String) (kind : BindingKind) :
    e.Extends (e.declareNew name kind) := by
  unfold declareNew
  split
  · exact .refl e
  · exact e.extends_declare name kind

theorem extends_initialise (e : Environment) (name : String) (value : Value) :
    e.Extends (e.initialise name value) := by
  unfold initialise
  split
  · exact e.extends_bindings _
  · exact .refl e

theorem extends_set {e e' : Environment} {name : String} {value : Value} {strict : Bool}
    (h : e.set name value strict = .ok e') : e.Extends e' := by
  unfold set at h
  split at h
  · cases h
  · cases h
  · cases h
  · split at h
    · cases h
    · cases h
      exact .refl e
  · cases h
    exact e.extends_bindings _

theorem extends_declareLexical (e : Environment) (bindings : List (String × VarKind)) :
    e.Extends (e.declareLexical bindings) := by
  unfold declareLexical
  induction bindings generalizing e with
  | nil => exact .refl e
  | cons b rest ih => exact (e.extends_declare _ _).trans (ih _)

theorem extends_bindParameters (e : Environment) (params : List String) (args : List Value) :
    e.Extends (e.bindParameters params args) := by
  induction params generalizing e args with
  | nil => exact .refl e
  | cons param params ih =>
    exact ((e.extends_declareNew _ _).trans (extends_initialise _ _ _)).trans (ih _ _)

theorem extends_declareVars (e : Environment) (names : List String) :
    e.Extends (e.declareVars names) := by
  unfold declareVars
  induction names generalizing e with
  | nil => exact .refl e
  | cons name rest ih => exact (e.extends_declareNew _ _).trans (ih _)

end Environment

/-! ### Functions in statements -/

/-- The functions that statements declare stand where the statements stand. -/
theorem Place.Has.functionsOf {l : Place} {body : List Stmt}
    (h : ∀ t ∈ body, l.Has (.statement t)) :
    ∀ f ∈ Stmt.functionsOf body, l.Has (.function f false false) := by
  intro f hf
  obtain ⟨t, ht, heq⟩ := List.mem_filterMap.mp hf
  split at heq
  · cases heq
    exact (h _ ht).part (by simp [Part.parts, Stmt.parts])
  · cases heq

/-- Every function that a statement declares has a name. -/
theorem Place.Has.isSome_name {l : Place} {body : List Stmt}
    (h : ∀ t ∈ body, l.Has (.statement t)) : ∀ f ∈ Stmt.functionsOf body, f.name.isSome = true := by
  intro f hf
  obtain ⟨t, ht, heq⟩ := List.mem_filterMap.mp hf
  split at heq
  · cases heq
    obtain ⟨_, hlegal⟩ := (h _ ht).legal
    cases hlegal with
    | function _ hname => exact hname
  · cases heq

namespace Stmt

theorem declaredNames_append (body body' : List Stmt) :
    declaredNames (body ++ body') = declaredNames body ++ declaredNames body' :=
  List.flatMap_append

theorem lexicalNamesOf_append (body body' : List Stmt) :
    lexicalNamesOf (body ++ body') = lexicalNamesOf body ++ lexicalNamesOf body' :=
  List.flatMap_append

theorem lexicalNames_sublist (t : Stmt) : t.lexicalNames.Sublist t.boundNames := by
  cases t with
  | function => exact List.nil_sublist _
  | _ => exact List.Sublist.refl _

theorem lexicalNamesOf_sublist (body : List Stmt) :
    (lexicalNamesOf body).Sublist (declaredNames body) := by
  induction body with
  | nil => exact List.Sublist.refl _
  | cons t rest ih => exact t.lexicalNames_sublist.append ih

/-- Where all names differ, none of a function is one of a lexical declaration. -/
theorem not_mem_lexicalNamesOf {body : List Stmt} (hnodup : (declaredNames body).Nodup)
    {f : FunctionDef} (hf : f ∈ functionsOf body) {name : String} (hname : name ∈ f.name) :
    name ∈ declaredNames body ∧ name ∉ lexicalNamesOf body := by
  induction body with
  | nil => cases hf
  | cons t rest ih =>
    have hsplit : (t.boundNames ++ declaredNames rest).Nodup := hnodup
    obtain ⟨-, hrest, hdisjoint⟩ := List.nodup_append.mp hsplit
    have hcases : t = .function f ∨ f ∈ functionsOf rest := by
      obtain ⟨u, hu, heq⟩ := List.mem_filterMap.mp hf
      rcases List.mem_cons.mp hu with rfl | hu
      · split at heq
        · cases heq
          exact .inl rfl
        · cases heq
      · exact .inr (List.mem_filterMap.mpr ⟨u, hu, heq⟩)
    rcases hcases with rfl | hf
    · have hbound : name ∈ (Stmt.function f).boundNames := Option.mem_toList.mpr hname
      refine ⟨List.mem_append_left _ hbound, fun hmem => ?_⟩
      exact hdisjoint name hbound name ((lexicalNamesOf_sublist rest).subset hmem) rfl
    · obtain ⟨hdeclared, hlexical⟩ := ih hrest hf
      refine ⟨List.mem_append_right _ hdeclared, fun hmem => ?_⟩
      rcases List.mem_append.mp hmem with hmem | hmem
      · exact hdisjoint name (t.lexicalNames_sublist.subset hmem) name hdeclared rfl
      · exact hlexical hmem

end Stmt

namespace Eval

/-- The names under which functions are bound. -/
def functionNames (functions : List FunctionDef) : List String :=
  functions.map fun f => f.name.getD ""

/-- No function that a body declares is called as its arguments object. -/
theorem ne_arguments {f : FunctionDef} (h : needsArguments f = true) :
    ∀ name ∈ functionNames (Stmt.functionsOf f.body), name ≠ "arguments" := by
  intro name hname heq
  obtain ⟨g, hg, rfl⟩ := List.mem_map.mp hname
  simp only [needsArguments, Bool.and_eq_true, Bool.not_eq_true', List.any_eq_false] at h
  have hnot := h.1.2 g hg
  cases hown : g.name with
  | none => simp [hown] at heq
  | some own => simp_all

end Eval

/-- There is no such scope. -/
def State.Lacks (s : State) (q : ScopeRef) : Prop :=
  s.scopes.environments.size ≤ q.index

namespace Eval

variable [Vigil] {st : State} {p q scope : ScopeRef} {l : Site} {f : FunctionDef} {name : String}

/-! ### New scopes -/

/-- A new scope comes after all that code runs in. -/
theorem safe_newScope (hp : st.Hosts p l) {e : Environment} (hnames : e.privateNames = []) :
    (newScope e).Safe st fun q st' => st.Lacks q ∧ p.index < q.index ∧
      q.index < st'.scopes.environments.size ∧ st'.scopes.get q = e := by
  refine .of_ok fun s hs hsound => ⟨_, _, rfl,
    ⟨⟨.pushScope _ e, rfl, rfl, rfl⟩, s.scopes.steady_push e,
      .pushScope (Nat.le_refl _) (by simp [hnames])⟩, ?_, rfl, hs.size,
    (hp.mono hs.toGrows).lt hsound.scopes, ?_, s.scopes.get_push_next e⟩
  · exact hsound.toSound.pushScope (Nat.le_refl _) (by simp [hnames]) (by simp [hnames])
  · simp [Scopes.push, Scopes.next]

theorem safe_newScope_inside (hp : st.Hosts p l) {e : Environment} (hparent : e.parent = some p)
    (hfunction : e.function = none) (hnames : e.privateNames = []) :
    (newScope e).Safe st fun q st' => st'.Inside p q [] := by
  refine (safe_newScope hp hnames).conseq fun q st' _ ⟨_, hlt, _, hget⟩ => ?_
  rw [← hget] at hparent hfunction hnames
  exact ⟨hparent, hlt, hfunction, List.map_eq_nil_iff.mpr hnames⟩

theorem safe_innerScope (hp : st.Hosts p l) :
    (innerScope p).Safe st fun q st' => st.Lacks q ∧ st'.Inside p q [] ∧ st'.scopes.Blank q := by
  refine (safe_newScope hp rfl).conseq fun q st' _ ⟨hlacks, hlt, hrange, hget⟩ => ?_
  refine ⟨hlacks, ?_, .of_get hrange hget rfl⟩
  constructor <;> simp [hget, hlt]

/-- What is done to a scope that is made first does not count. -/
theorem SafeBut.bindScope {β : Type} {x : Eval ScopeRef} {g : ScopeRef → Eval β}
    {P : ScopeRef → State → Prop} {Q : β → State → Prop} {but : Set (ScopeRef × String)}
    (hx : ∀ s, st.Precedes s → x.Safe s fun q s' => s.Lacks q ∧ P q s')
    (hg : ∀ q s', st.Precedes s' → st.Lacks q → P q s' →
      (g q).SafeBut (but ∪ q.all) s' Q) : (x >>= g).SafeBut but st Q :=
  .bindNew
    (fun s hs => ((hx s hs).conseq (Q := fun q s' => s.Precedes s' ∧ s.Lacks q ∧ P q s')
      fun _ _ hs' h => ⟨hs', h⟩).widened)
    (fun _ q s' hs _ ⟨hs', hlacks, hP⟩ =>
      hg q s' (hs.trans hs') (Nat.le_trans hs.size hlacks) hP)
    fun _ _ _ ⟨_, hlacks, _⟩ p hp =>
      hp.imp id fun (h : p ∈ ScopeRef.all _) => h.1 ▸ hlacks

theorem Safe.bindScope {β : Type} {x : Eval ScopeRef} {g : ScopeRef → Eval β}
    {P : ScopeRef → State → Prop} {Q : β → State → Prop}
    (hx : ∀ s, st.Precedes s → x.Safe s fun q s' => s.Lacks q ∧ P q s')
    (hg : ∀ q s', st.Precedes s' → P q s' → (g q).SafeBut (q.all) s' Q) :
    (x >>= g).Safe st Q :=
  SafeBut.bindScope hx fun q s' hs' _ hP => (hg q s' hs' hP).widen Set.subset_union_right

/-! ### Names in scopes -/

theorem safe_declare (h : st.scopes.Finds q name none) {kind : BindingKind} (hkind : kind ≠ .var) :
    (modifyScope q (·.declare name kind)).SafeBut (q.names {name}) st fun _ st' =>
      st'.scopes.Finds q name (some kind) := by
  refine safe_modifyScope (fun s hs => ?_) fun s hs => ?_
  · exact ⟨Environment.extends_declare _ _ _,
      Environment.steady_declare (h.keep hs.steady).lookup kind⟩
  · have hlt := (h.keep hs.steady).lt
    refine ⟨by simpa [Scopes.modify] using hlt, ?_⟩
    rw [Scopes.get_modify_self hlt, Environment.lookup_declare_self, if_neg hkind]
    rfl

theorem safe_initialise {kind : BindingKind} (h : st.scopes.Finds q name (some kind))
    (value : Value) :
    (initialise q name value).SafeBut (q.names {name}) st fun _ _ => True := by
  refine safe_modifyScope (R := fun _ => True) (fun s hs => ?_) fun _ _ => trivial
  refine ⟨Environment.extends_initialise _ _ _, Environment.steady_initialise (fun b hb => ?_) _⟩
  cases (h.keep hs.steady).lookup.symm.trans hb
  exact .inl rfl

theorem safe_bindName (h : st.scopes.Finds q name none) (kind : BindingKind) (value : Value) :
    (modifyScope q fun e => (e.declare name kind).initialise name value).SafeBut (q.names {name})
      st fun _ _ => True := by
  refine safe_modifyScope (R := fun _ => True) (fun s hs => ?_) fun _ _ => trivial
  exact ⟨(Environment.extends_declare _ _ _).trans (Environment.extends_initialise _ _ _),
    Environment.steady_bind (h.keep hs.steady).lookup kind value⟩

theorem safe_declareLexical {bindings : List (String × VarKind)}
    (hnodup : (bindings.map Prod.fst).Nodup) (hkind : ∀ b ∈ bindings, b.2 ≠ .var)
    (h : ∀ name ∈ bindings.map Prod.fst, st.scopes.Finds q name none) :
    (modifyScope q (·.declareLexical bindings)).SafeBut
      (q.names {name | name ∈ bindings.map Prod.fst}) st fun _ st' =>
        st'.scopes.Pending q (bindings.map Prod.fst) := by
  have hlater {s : State} (hs : st.Precedes s) (name : String)
      (hname : name ∈ bindings.map Prod.fst) : s.scopes.Finds q name none :=
    (h name hname).keep hs.steady
  refine safe_modifyScope (fun s hs => ?_) fun s hs => ?_
  · exact ⟨Environment.extends_declareLexical _ _,
      Environment.steady_declareLexical hnodup fun name hname => (hlater hs name hname).lookup⟩
  · exact Scopes.pending_declareLexical hnodup hkind (hlater hs)

/-! ### Function objects -/

instance (o : ObjectRef) (name : Units) : (setFunctionName o name).Tame := by
  unfold setFunctionName; infer_instance

instance (o : ObjectRef) : (makeConstructor o).Tame := by unfold makeConstructor; infer_instance

/-- A function that is not a class constructor may use `super.name` if it has a home object. -/
theorem safe_createFunction {home : Option ObjectRef} {kind : Option ConstructorKind}
    (hscope : st.Stands scope l) (hf : l.place.Has (.function f home.isSome false))
    (hkind : kind ≠ some .derived) :
    (createFunction f scope home kind).Safe st fun _ _ => True := by
  obtain ⟨rfl, hhosts⟩ := hscope
  refine .site (.after (safe_newObject fun g hg => ?_) fun o => Tame.safe st)
  cases hg
  refine ⟨rfl, hhosts, fun d hd => ?_, fun h => absurd h hkind⟩
  cases hd
  rwa [beq_eq_false_iff_ne.mpr hkind]

theorem safe_createMethod {home : ObjectRef} (hscope : st.Stands scope l)
    (hf : l.place.Has (.function f true false)) :
    (createMethod f scope home).Safe st fun _ _ => True :=
  safe_createFunction hscope hf (by simp)

theorem safe_instantiateFunction {name : Units} (hscope : st.Stands scope l)
    (hf : l.place.Has (.function f false false)) :
    (instantiateFunction f scope name).Safe st fun _ _ => True :=
  .after (safe_createFunction hscope hf (by simp)) fun _ => Tame.safe st

theorem safe_instantiateExpression {name : Units} (hscope : st.Stands scope l)
    (hf : l.place.Has (.function f false false)) :
    (instantiateExpression f scope name).Safe st fun _ _ => True := by
  unfold instantiateExpression
  split
  · exact safe_instantiateFunction hscope hf
  · next own _ =>
    refine Safe.bindScope (fun s hs => safe_innerScope (hscope.mono hs).hosts)
      fun inner st₁ hst₁ h => ?_
    obtain ⟨hinner, hblank⟩ := h
    have hstands := (hscope.mono hst₁).inner hinner
    have hrest {st₂ : State} (hst₂ : st₁.PrecedesBut (inner.names {own}) st₂)
        (hown : st₂.scopes.Finds inner own (some .functionName)) : (do
          let o ← instantiateFunction f inner own
          initialise inner own (.object o)
          return o : Eval ObjectRef).SafeBut (inner.names {own}) st₂ fun _ _ => True := by
      refine .bind (safe_instantiateFunction (hstands.mono hst₂) hf) fun o st₃ hst₃ _ => ?_
      exact .before (safe_initialise (hown.keep hst₃.steady) _)
    exact .seq (safe_declare (hblank own) (by decide)) (fun _ _ => hrest)
      ScopeRef.names_subset_all ScopeRef.names_subset_all

end Eval

/-! ### Operations -/

/-- Safety from every state on is a discipline. It asks for nothing to be known of functions. -/
def Discipline.tame [Vigil] : Discipline where
  World := Unit
  Later _ _ := True
  Callable _ _ := True
  callable_later _ _ := trivial
  Holds _ x Q := ∀ st, x.Safe st fun a _ => Q a ()
  pure h _ := .pure fun _ _ => h () trivial
  throw _ := .throw
  bind hx hf st := .bind (hx st) fun a st' _ ha => hf a () trivial ha st'
  catching hx hh st := .catching (hx st) fun v => hh v () st
  heap _ st := Eval.Tame.safe st
  isCallable _ st := (Eval.Tame.safe st).conseq fun _ _ _ _ _ => trivial
  scopes _ st := Eval.Tame.safe st
  isStrict st := Eval.Tame.safe st
  newObject h _ := (Eval.safe_newObject fun f hf => absurd hf (h f)).any
  define _ _ _ _ _ st := Eval.Tame.safe st
  delete _ _ st := Eval.Tame.safe st
  preventExtensions _ st := Eval.Tame.safe st
  setPrototype _ _ st := Eval.Tame.safe st
  newSymbol _ st := Eval.Tame.safe st
  write _ st := Eval.Tame.safe st
  instantiate _ hf _ := .atSite (Eval.safe_instantiateFunction ⟨rfl, .global⟩ hf)

namespace Eval

instance (priority := low) [Vigil] {α : Type} {x : Eval α} [h : x.Obeys .tame] : x.Tame :=
  ⟨h.holds ()⟩

variable [Vigil] {st : State} {p q scope : ScopeRef} {l : Site} {f : FunctionDef} {name : String}

/-! ### Scopes of calls and blocks -/

instance (callee : ObjectRef) (args : List Value) (strict : Bool) :
    (createArguments callee args strict).Tame := by
  refine .bind fun o => .bind fun _ => .bind fun _ => ?_
  split <;> infer_instance

/-- One name that may be bound any number of times is, and others may as before. -/
theorem safe_bindOpen {names : List String} {kind : BindingKind} (hkind : kind.isConstant = false)
    (h : st.scopes.Open q name) (hothers : ∀ other ∈ names, st.scopes.Open q other)
    (value : Value) :
    (modifyScope q fun e => (e.declareNew name kind).initialise name value).SafeBut
      (q.names {name}) st fun _ st' => ∀ other ∈ names, st'.scopes.Open q other := by
  have hlater {s : State} (hs : st.Precedes s) {other : String} (h : st.scopes.Open q other) :
      s.scopes.Open q other :=
    h.keep hs.steady
  refine safe_modifyScope (fun s hs => ?_) fun s hs other hother => ?_
  · exact ⟨(Environment.extends_declareNew _ _ _).trans (Environment.extends_initialise _ _ _),
      ((hlater hs h).binds.bind hkind value).1⟩
  · have hlt := (hlater hs h).lt
    refine ⟨by simpa [Scopes.modify] using hlt, ?_⟩
    rw [Scopes.get_modify_self hlt]
    exact (hlater hs h).binds.bind_other hkind value (hlater hs (hothers other hother)).binds

theorem safe_declareFunctions {functions : List FunctionDef} {inner outer : ScopeRef}
    {kind : BindingKind} (hkind : kind.isConstant = false) (hinner : st.Stands inner l)
    (h : ∀ f ∈ functions, l.place.Has (.function f false false))
    (hopen : ∀ name ∈ functionNames functions, st.scopes.Open outer name) :
    (declareFunctions functions inner outer kind).SafeBut
      (outer.names {name | name ∈ functionNames functions}) st fun _ _ => True := by
  induction functions generalizing st with
  | nil => exact .pure fun _ _ => trivial
  | cons f rest ih =>
    have hfirst : (do
        let o ← instantiateFunction f inner (f.name.getD "")
        modifyScope outer fun e =>
          (e.declareNew (f.name.getD "") kind).initialise (f.name.getD "") (.object o)
          : Eval Unit).SafeBut (outer.names {f.name.getD ""}) st fun _ st' =>
            ∀ name ∈ functionNames rest, st'.scopes.Open outer name := by
      refine .bind (safe_instantiateFunction hinner (h f (by simp))) fun o st' hst _ => ?_
      have hlater (name : String) (hname : name ∈ functionNames (f :: rest)) :
          st'.scopes.Open outer name :=
        (hopen name hname).keep hst.steady
      exact safe_bindOpen hkind (hlater _ (by simp [functionNames]))
        (fun name hname => hlater name (List.mem_cons_of_mem _ hname)) _
    refine .seq hfirst (fun _ st' hst hrest =>
      ih (hinner.mono hst) (fun g hg => h g (by simp [hg])) hrest) ?_ ?_
    · exact ScopeRef.names_mono (by simp [functionNames])
    · exact ScopeRef.names_mono fun name hname => List.mem_cons_of_mem _ hname

/-- What a body finds in its scope: its lexical names are bound and have no values yet. -/
structure EntersBody (st : State) (f : FunctionDef) (l : Site) (inner : ScopeRef) (st' : State) :
    Prop where
  runs : st'.Runs inner l
  pending : st'.scopes.Pending inner (Stmt.lexicalNamesOf f.body)
  isNew : st.Lacks inner

/-- The last steps of instantiating a body: its lexical names, and its functions. -/
theorem safe_instantiateLexical (hscope : st.Runs scope l)
    (hbody : ∀ t ∈ f.body, l.place.Has (.statement t))
    (hnodup : (Stmt.lexicalNamesOf f.body).Nodup)
    (hopen : ∀ name ∈ functionNames (Stmt.functionsOf f.body), st.scopes.Open scope name) :
    (do
      let inner ← innerScope scope
      modifyScope inner (·.declareLexical (Stmt.lexicalBindingsOf f.body))
      declareFunctions (Stmt.functionsOf f.body) inner scope .var
      return inner : Eval ScopeRef).SafeBut (scope.all) st (EntersBody st f l) := by
  refine .bindScope (fun s hs => safe_innerScope (hscope.hosts.mono hs.toGrows))
    fun inner st₁ hst₁ hlacks ⟨hinner, hblank⟩ => ?_
  have hlexical : (modifyScope inner (·.declareLexical (Stmt.lexicalBindingsOf f.body))).SafeBut
      (inner.names {name | name ∈ Stmt.lexicalNamesOf f.body}) st₁ fun _ st' =>
        st'.scopes.Pending inner (Stmt.lexicalNamesOf f.body) := by
    rw [← Stmt.map_fst_lexicalBindingsOf] at hnodup ⊢
    exact safe_declareLexical hnodup (fun b => Stmt.ne_var_of_mem_lexicalBindingsOf)
      fun name _ => hblank name
  have hne : inner ≠ scope := fun heq => Nat.lt_irrefl _ (heq ▸ hinner.lt)
  have hrest {st₂ : State}
      (hst₂ : st₁.PrecedesBut (inner.names {name | name ∈ Stmt.lexicalNamesOf f.body}) st₂)
      (hpending : st₂.scopes.Pending inner (Stmt.lexicalNamesOf f.body)) : (do
        declareFunctions (Stmt.functionsOf f.body) inner scope .var
        return inner : Eval ScopeRef).SafeBut (scope.all) st₂ (EntersBody st f l) := by
    have hruns := ((hscope.mono hst₁).inner hinner).mono hst₂
    have hopen₂ (name : String) (hname : name ∈ functionNames (Stmt.functionsOf f.body)) :
        st₂.scopes.Open scope name :=
      ((hopen name hname).keep hst₁.steady).mono hst₂.steady
        fun h => hne h.1.symm
    refine .seq (safe_declareFunctions rfl hruns.stands (.functionsOf hbody) hopen₂)
      (fun _ st₃ hst₃ _ => .pure fun st₄ hst₄ => ⟨?_, ?_, hlacks⟩)
      ScopeRef.names_subset_all Set.Subset.rfl
    · exact (hruns.mono hst₃).mono hst₄
    · exact (hpending.mono hst₃.steady fun _ _ h => hne h.1).keep hst₄.steady
  exact .seq hlexical (fun _ _ => hrest)
    (Set.subset_union_of_subset_right ScopeRef.names_subset_all _)
    Set.subset_union_left

/-- Parameters are variables with values; a name that is no parameter stays free. -/
theorem safe_bindParameters {params : List String} (args : List Value)
    (hblank : st.scopes.Blank scope) :
    (modifyScope scope (·.bindParameters params args)).SafeBut
      (scope.names {param | param ∈ params}) st fun _ st' =>
        (∀ name, st'.scopes.Open scope name) ∧
        ∀ name, name ∉ params → st'.scopes.Finds scope name none := by
  have hfree {s : State} (hs : st.Precedes s) (name : String) : s.scopes.Finds scope name none :=
    (hblank name).keep hs.steady
  have hsteady {s : State} (hs : st.Precedes s) : (s.scopes.get scope).Steady
      {param | param ∈ params} ((s.scopes.get scope).bindParameters params args) :=
    Environment.steady_bindParameters fun param _ => (hfree hs param).isOpen.binds
  refine safe_modifyScope (fun s hs => ⟨Environment.extends_bindParameters _ _ _, hsteady hs⟩)
    fun s hs => ?_
  have hlt := (hfree hs "").lt
  have hafter : scope.index < (s.scopes.modify scope
      (·.bindParameters params args)).environments.size := by
    simpa [Scopes.modify] using hlt
  refine ⟨fun name => ⟨hafter, ?_⟩, fun name hname => ?_⟩
  · rw [Scopes.get_modify_self hlt]
    exact Environment.Open.bindParameters (fun param _ => (hfree hs param).isOpen.binds)
      (hfree hs name).isOpen.binds
  · exact (hfree hs name).mono (Scopes.steady_modify (hsteady hs)) fun h => hname h.2

theorem safe_declareVars {vars names : List String}
    (hopen : ∀ name ∈ names, st.scopes.Open scope name) :
    (modifyScope scope (·.declareVars vars)).SafeBut (scope.names {name | name ∈ vars}) st
      fun _ st' => ∀ name ∈ names, st'.scopes.Open scope name := by
  refine safe_modifyScope (fun s _ => ⟨Environment.extends_declareVars _ _,
    Environment.steady_declareVars _ _⟩) fun s hs name hname => ?_
  have hlater := (hopen name hname).keep hs.steady
  refine ⟨by simpa [Scopes.modify] using hlater.lt, ?_⟩
  rw [Scopes.get_modify_self hlater.lt]
  exact hlater.binds.declareVars _

/-- The lexical scope of a body is inside the scope of the call. -/
theorem safe_instantiateBody {callee : ObjectRef} {args : List Value} (hscope : st.Runs scope l)
    (hbody : ∀ t ∈ f.body, l.place.Has (.statement t))
    (hnodup : (Stmt.lexicalNamesOf f.body).Nodup) (hblank : st.scopes.Blank scope) :
    (instantiateBody callee f scope args).SafeBut (scope.all) st
      (EntersBody st f l) := by
  have hrest {st₁ : State} (hst₁ : st.PrecedesBut (scope.all) st₁)
      (hopen : ∀ name ∈ functionNames (Stmt.functionsOf f.body), st₁.scopes.Open scope name) : (do
        modifyScope scope (·.declareVars f.varNames)
        let inner ← innerScope scope
        modifyScope inner (·.declareLexical (Stmt.lexicalBindingsOf f.body))
        declareFunctions (Stmt.functionsOf f.body) inner scope .var
        return inner : Eval ScopeRef).SafeBut (scope.all) st₁ (EntersBody st f l) := by
    refine .seq (safe_declareVars hopen) (fun _ st₂ hst₂ hopen₂ => ?_)
      ScopeRef.names_subset_all Set.Subset.rfl
    have hst₂ := hst₁.trans (hst₂.mono ScopeRef.names_subset_all)
    refine (safe_instantiateLexical (hscope.mono hst₂) hbody hnodup hopen₂).conseq
      fun inner st₃ _ h => ⟨h.runs, h.pending, Nat.le_trans hst₂.size h.isNew⟩
  refine .seq (safe_bindParameters args hblank) (fun _ st₁ hst₁ ⟨hopen, hfree⟩ => ?_)
    ScopeRef.names_subset_all Set.Subset.rfl
  have hst₁ := hst₁.mono ScopeRef.names_subset_all
  dsimp only
  split
  · next hneeds =>
    -- The arguments object takes no name of a parameter or function.
    have hparam : "arguments" ∉ f.params := by simp_all [needsArguments]
    refine .bind (Tame.safe st₁) fun o st₂ hst₂ _ => ?_
    refine .seq (safe_bindName ((hfree _ hparam).keep hst₂.steady) _ _)
      (fun _ st₃ hst₃ _ => hrest ?_ fun name hname => ?_) ScopeRef.names_subset_all Set.Subset.rfl
    · exact (hst₁.trans hst₂.widened).trans (hst₃.mono ScopeRef.names_subset_all)
    · exact ((hopen name).keep hst₂.steady).mono hst₃.steady
        fun h => ne_arguments hneeds name hname h.2
  · exact hrest hst₁ fun name _ => hopen name

theorem safe_declareBlock {body : List Stmt} (hscope : st.Stands scope l)
    (hbody : ∀ t ∈ body, l.place.Has (.statement t)) (hnodup : (Stmt.declaredNames body).Nodup)
    (hnew : ∀ name ∈ Stmt.declaredNames body, st.scopes.Finds scope name none) :
    (declareBlock body scope).SafeBut (scope.names {name | name ∈ Stmt.declaredNames body}) st
      fun _ st' => st'.scopes.Pending scope (Stmt.lexicalNamesOf body) := by
  have hsub := (Stmt.lexicalNamesOf_sublist body).subset
  have hlexical : (modifyScope scope (·.declareLexical (Stmt.lexicalBindingsOf body))).SafeBut
      (scope.names {name | name ∈ Stmt.lexicalNamesOf body}) st fun _ st' =>
        st'.scopes.Pending scope (Stmt.lexicalNamesOf body) := by
    have hnodup' := hnodup.sublist (Stmt.lexicalNamesOf_sublist body)
    rw [← Stmt.map_fst_lexicalBindingsOf] at hnodup' hsub ⊢
    exact safe_declareLexical hnodup' (fun b => Stmt.ne_var_of_mem_lexicalBindingsOf)
      fun name hname => hnew name (hsub hname)
  -- A function has a name of its own, so the lexical names are left alone.
  have hfunctions {name : String} (hname : name ∈ functionNames (Stmt.functionsOf body)) :
      name ∈ Stmt.declaredNames body ∧ name ∉ Stmt.lexicalNamesOf body := by
    obtain ⟨f, hf, rfl⟩ := List.mem_map.mp hname
    obtain ⟨own, hown⟩ := Option.isSome_iff_exists.mp (Place.Has.isSome_name hbody f hf)
    rw [hown]
    exact Stmt.not_mem_lexicalNamesOf hnodup hf hown
  refine .seq hlexical (fun _ st' hst hpending => ?_) (ScopeRef.names_mono hsub)
    (ScopeRef.names_mono fun name hname => (hfunctions hname).1)
  refine (safe_declareFunctions rfl (hscope.mono hst) (.functionsOf hbody)
    fun name hname => ?_).conseq fun _ st'' hst' _ => ?_
  · obtain ⟨hdeclared, hother⟩ := hfunctions hname
    exact ((hnew name hdeclared).mono hst.steady fun h => hother h.2).isOpen
  · exact hpending.mono hst'.steady fun name hname h => (hfunctions h.2).2 hname

theorem safe_blockScope {body : List Stmt} (hscope : st.Runs scope l)
    (hbody : ∀ t ∈ body, l.place.Has (.statement t)) (hnodup : (Stmt.declaredNames body).Nodup) :
    (blockScope body scope).Safe st fun inner st' => st'.Runs inner l ∧
      st'.scopes.Pending inner (Stmt.lexicalNamesOf body) ∧
      (st.Lacks inner ∨ Stmt.lexicalNamesOf body = []) := by
  unfold blockScope
  split
  · next hnone =>
    have hempty : Stmt.lexicalNamesOf body = [] := by
      rw [← Stmt.map_fst_lexicalBindingsOf]
      simp_all
    refine .pure fun _ hst => ⟨hscope.mono hst, ?_, .inr hempty⟩
    rw [hempty]
    exact .nil
  · refine SafeBut.bindScope (fun s hs => safe_innerScope (hscope.hosts.mono hs.toGrows))
      fun inner st₁ hst₁ hlacks ⟨hinner, hblank⟩ => ?_
    have hruns := (hscope.mono hst₁).inner hinner
    have hdeclare : (within (.block body) inner (declareBlock body inner)).SafeBut
        (inner.names {name | name ∈ Stmt.declaredNames body}) st₁ fun _ st' =>
          st'.scopes.Pending inner (Stmt.lexicalNamesOf body) :=
      .withinWhere hruns.site (safe_declareBlock (hruns.stands.enter rfl) hbody hnodup
        fun name _ => hblank name) fun _ _ _ => id
    refine .seq hdeclare
      (fun _ st₂ hst₂ hpending => .pure fun st₃ hst₃ => ⟨?_, ?_, .inl hlacks⟩)
      (Set.subset_union_of_subset_right ScopeRef.names_subset_all _)
      (Set.empty_subset _)
    · exact (hruns.mono hst₂).mono hst₃
    · exact hpending.keep hst₃.steady

end Eval

/-! ### Classes -/

namespace Eval

/-- New private names from a number on, one for each spelling. -/
def freshNames (next : Nat) : List String → List (String × PrivateName)
  | [] => []
  | name :: rest => (name, ⟨next, name⟩) :: freshNames (next + 1) rest

theorem map_fst_freshNames (next : Nat) (names : List String) :
    (freshNames next names).map Prod.fst = names := by
  induction names generalizing next with
  | nil => rfl
  | cons name rest ih => exact congrArg (name :: ·) (ih (next + 1))

theorem of_mem_freshNames {next : Nat} {names : List String} {name : String} {n : PrivateName}
    (h : (name, n) ∈ freshNames next names) :
    n.description = name ∧ next ≤ n.id ∧ n.id < next + names.length := by
  induction names generalizing next with
  | nil => cases h
  | cons other rest ih =>
    rw [List.length_cons]
    rcases List.mem_cons.mp h with heq | h
    · cases heq
      exact ⟨rfl, Nat.le_refl _, Nat.lt_add_of_pos_right (Nat.succ_pos _)⟩
    · obtain ⟨hdescription, hle, hlt⟩ := ih h
      exact ⟨hdescription, by omega, by omega⟩

/-- The last scope gets a new private name for each spelling. -/
theorem declarePrivateNames_push (names : List String) (e : Environment) (scopes : Scopes)
    (s : State) :
    declarePrivateNames names scopes.next { s with scopes := scopes.push e } = .ok ()
      { s with
        scopes := scopes.push
          { e with privateNames := e.privateNames ++ freshNames s.nextPrivateName names }
        nextPrivateName := s.nextPrivateName + names.length } := by
  induction names generalizing e s with
  | nil => simp only [freshNames, List.append_nil]; rfl
  | cons name rest ih =>
    have hfirst : declarePrivateNames (name :: rest) scopes.next { s with scopes := scopes.push e } =
        declarePrivateNames rest scopes.next
          { s with
            scopes := (scopes.push e).modify scopes.next fun e =>
              { e with privateNames := e.privateNames ++ [(name, ⟨s.nextPrivateName, name⟩)] }
            nextPrivateName := s.nextPrivateName + 1 } := rfl
    rw [hfirst, Scopes.modify_push_next,
      ih _ { s with nextPrivateName := s.nextPrivateName + 1 }]
    simp [freshNames, Nat.add_assoc, Nat.add_comm 1]

/-- The scope of a class has a new private name for each spelling that the class declares. -/
theorem classScope_apply (c : ClassDef) (scope : ScopeRef) (s : State) :
    ∃ e : Environment, e.parent = some scope ∧ e.function = none ∧
      (∀ name ∈ c.name, e.bindings.lookup name = some ⟨.const, none⟩) ∧
      e.privateNames = freshNames s.nextPrivateName (distinctNames c.privateNames) ∧
      classScope c scope s = .ok s.scopes.next
        { s with
          scopes := s.scopes.push e
          nextPrivateName := s.nextPrivateName + (distinctNames c.privateNames).length } := by
  -- The name of the class changes nothing but the bindings.
  suffices ∃ e : Environment, e.parent = some scope ∧ e.function = none ∧
      (∀ name ∈ c.name, e.bindings.lookup name = some ⟨.const, none⟩) ∧ e.privateNames = [] ∧
      classScope c scope s = (do
        declarePrivateNames (distinctNames c.privateNames) s.scopes.next
        return s.scopes.next : Eval ScopeRef) { s with scopes := s.scopes.push e } by
    obtain ⟨e, hparent, hfunction, hname, hnames, heq⟩ := this
    let names := freshNames s.nextPrivateName (distinctNames c.privateNames)
    refine ⟨{ e with privateNames := names }, hparent, hfunction, hname, rfl, heq.trans ?_⟩
    change EStateM.bind _ _ _ = _
    unfold EStateM.bind
    rw [declarePrivateNames_push, hnames, List.nil_append]
    rfl
  cases hname : c.name with
  | none =>
    refine ⟨{ parent := some scope }, rfl, rfl, nofun, rfl, ?_⟩
    unfold classScope
    rw [hname]
    rfl
  | some name =>
    have hpush := s.scopes.modify_push_next { parent := some scope } (·.declare name .const)
    refine ⟨Environment.declare { parent := some scope } name .const, rfl, rfl, ?_, rfl, ?_⟩
    · intro other hother
      cases hother
      exact Environment.lookup_declare_self _
    rw [← hpush]
    unfold classScope
    rw [hname]
    rfl

section

variable [Vigil] {st : State} {scope : ScopeRef} {l : Site}

/-- The private names of the scope are new, so nothing uses them. -/
theorem safe_classScope {c : ClassDef} (hscope : st.Hosts scope l) :
    (classScope c scope).Safe st fun inner st' => st.Lacks inner ∧
      st'.Inside scope inner (distinctNames c.privateNames) ∧
      st'.scopes.Pending inner c.name.toList ∧ st'.Unused inner := by
  refine .of_ok fun s hs hsound => ?_
  obtain ⟨e, hparent, hfunction, hname, hnames, heq⟩ := classScope_apply c scope s
  have hget := s.scopes.get_push_next e
  have hnew {name : String} {n : PrivateName} (h : (name, n) ∈ e.privateNames) :=
    of_mem_freshNames (hnames ▸ h)
  refine ⟨_, _, heq, ⟨⟨(Store.Follows.pushScope _ e).trans (.of_eq rfl rfl), rfl, rfl, rfl⟩,
    s.scopes.steady_push e, .pushScope (Nat.le_add_right _ _) fun name n h => (hnew h).2.1⟩, ?_,
    rfl, hs.size, ?_, ⟨?_, fun name hmem => ?_⟩, fun name n h => ?_⟩
  · refine hsound.toSound.pushScope (Nat.le_add_right _ _) (fun name n h => ?_)
      fun name name' n h h' => ?_
    · exact (hnew h).2
    · exact (hnew h').1.symm.trans (hnew h).1
  · exact ⟨by rw [hget, hparent], (hscope.mono hs.toGrows).lt hsound.scopes,
      by rw [hget, hfunction], by rw [hget, hnames, map_fst_freshNames]⟩
  · cases c.name <;> simp
  · refine ⟨.const, by simp [Scopes.push, Scopes.next], ?_⟩
    rw [hget]
    exact hname name (Option.mem_toList.mp hmem)
  · rw [hget] at h
    exact ⟨(hnew h).2.2, fun hn => Nat.not_lt.mpr (hnew h).2.1 (hsound.used n hn)⟩

/-- The constructor of a class is a script function. -/
theorem safe_createClass {c : ClassDef} {name : String} {prototype parent : ObjectRef}
    (hscope : st.Stands scope (l.enter (.classBody c) scope)) (hc : l.place.Has (.classDef c)) :
    (createClass c scope name prototype parent).Safe st fun o st' =>
      ∃ f, st'.heap.scriptFunction? o = some f := by
  have hrest {o : ObjectRef} {f : ScriptFunction} {length : Nat} {st' : State}
      (hkind : (st'.heap.get o).kind = .function f) : (do
        put o "length" (.data (.number (Number.ofInt length)) false false true)
        setFunctionName o name
        put o "prototype" (.data (.object prototype) false false false)
        put prototype "constructor" (.hidden (.object o))
        return o : Eval ObjectRef).Safe st' fun o st'' =>
          ∃ f, st''.heap.scriptFunction? o = some f := by
    refine .bind (Tame.safe st') fun _ s₁ h₁ _ => .bind (Tame.safe s₁) fun _ s₂ h₂ _ => ?_
    refine .bind (Tame.safe s₂) fun _ s₃ h₃ _ => .bind (Tame.safe s₃) fun _ s₄ h₄ _ => ?_
    refine .pure fun s₅ h₅ => ?_
    have hgrows := ((((h₁.trans h₂).trans h₃).trans h₄).trans h₅).toGrows
    obtain ⟨f', hf', -⟩ := hgrows.functions o f (Store.scriptFunction?_eq_some_iff.mpr hkind)
    exact ⟨f', hf'⟩
  have hkind : (some (if c.heritage.isSome then .derived else .base : ConstructorKind) ==
      some .derived) = c.heritage.isSome := by
    cases c.heritage.isSome <;> rfl
  unfold createClass
  cases hdef : c.constructorDef with
  | none =>
    refine .site (.bind (safe_newObject fun g hg => ?_) fun o st' _ hkind => hrest hkind)
    cases hg
    exact ⟨rfl, hscope.site ▸ hscope.hosts, fun d hd => (by cases hd), fun _ => rfl⟩
  | some f =>
    refine .site (.bind (safe_newObject fun g hg => ?_) fun o st' _ hkind => hrest hkind)
    cases hg
    refine ⟨rfl, hscope.site ▸ hscope.hosts, fun d hd => ?_, fun _ => rfl⟩
    cases hd
    rw [hkind, hscope.site]
    exact hc.code hdef

end

end Eval

namespace Engine

variable [Vigil]

/-- The scope of a call stays one. What it takes as `this` is decided in the state that was read. -/
theorem safe_bindThis {st : State} {scope : ScopeRef} {f : FunctionScope} {this : Value}
    (hscope : (st.scopes.get scope).function = some f) :
    (bindThis scope this).Safe st fun _ _ => True := by
  intro s hs hsound
  obtain ⟨f', hf', -⟩ :=
    (hs.environments scope (Scopes.lt_of_function hscope)).function_some hscope
  have hrun : bindThis scope this s = (do
      if f'.this.isSome then Eval.raise .superTwice
      Eval.modifyScope scope fun e =>
        { e with function := e.function.map fun f => { f with this := some this } } : Eval Unit)
      s := by
    rw [bindThis, Eval.scopes_bind, hf']
  rw [hrun]
  cases hthis : f'.this with
  | some => exact Eval.SafeBut.raise_bind s hs hsound
  | none =>
    refine Eval.leads_modifyScope_empty hsound ?_ (Environment.steady_bindThis hf' hthis this)
    exact ⟨rfl, by simp [Function.comp_def], by simp [Function.comp_def], rfl⟩

end Engine

end Ecma
