import Ecma.Proofs.Run.Builtin
import Ecma.Proofs.Scope.Nesting

/-! Evaluations retain the scopes that are there: however they end, those stand in the same scopes
as before and bind the same names, as many calls are open, and the code that is being run stands
where it stood. Code may be anything here. These are the steps that run no script code; a step that
fills a scope says which names it binds. -/

namespace Ecma

/-- What a step leaves of a state: the depth of calls, the site, and scopes with the names that they
bind but for some. -/
structure State.RetainsBut (but : Set (ScopeRef × String)) (s s' : State) : Prop where
  callDepth : s'.callDepth = s.callDepth
  site : s'.site = s.site
  scopes : s.scopes.KeepsBut but s'.scopes

/-- What a step leaves of a state: the depth of calls, the site, and scopes with the names that they
bind. -/
abbrev State.Retains : State → State → Prop :=
  RetainsBut ∅

namespace State.RetainsBut

variable {s s₁ s₂ s₃ : State} {but but' : Set (ScopeRef × String)}

theorem refl (but : Set (ScopeRef × String)) (s : State) : s.RetainsBut but s :=
  ⟨rfl, rfl, .refl _ _⟩

theorem trans (h₁ : s₁.RetainsBut but s₂) (h₂ : s₂.RetainsBut but s₃) : s₁.RetainsBut but s₃ :=
  ⟨h₂.callDepth.trans h₁.callDepth, h₂.site.trans h₁.site, h₁.scopes.trans h₂.scopes⟩

theorem forget (h : s₁.RetainsBut but' s₂)
    (hnew : ∀ p ∈ but', p ∈ but ∨ s₁.scopes.environments.size ≤ p.1.index) :
    s₁.RetainsBut but s₂ :=
  ⟨h.callDepth, h.site, h.scopes.forget hnew⟩

end State.RetainsBut

namespace Eval

variable {α β : Type} {x : Eval α} {s s' : State} {but : Set (ScopeRef × String)} {P Q : α → Prop}
  {depth : Nat}

/-- An outcome with a state that retains what `s` has but for some names; a value and that state
have a property. -/
def Outcome (but : Set (ScopeRef × String)) (s : State) (R : α → State → Prop) :
    EStateM.Result Abrupt State α → Prop
  | .ok a s' => s.RetainsBut but s' ∧ R a s'
  | .error _ s' => s.RetainsBut but s'

/-- In every state with so many calls open, the evaluation retains it but for some names; a value
has a property. -/
def Retains (depth : Nat) (but : Set (ScopeRef × String)) (x : Eval α) (Q : α → Prop) : Prop :=
  ∀ s : State, depth ≤ s.callDepth → Outcome but s (fun a _ => Q a) (x s)

namespace Outcome

variable {result : EStateM.Result Abrupt State α} {R R' : α → State → Prop}

theorem after (hs : s.RetainsBut but s') (h : Outcome but s' R result) :
    Outcome but s R result := by
  cases result with
  | ok a s'' => exact ⟨hs.trans h.1, h.2⟩
  | error e s'' => exact hs.trans h

theorem imp (h : Outcome but s R result) (hs : ∀ s', s.RetainsBut but s' → s.RetainsBut but' s')
    (hR : ∀ a s', s.RetainsBut but s' → R a s' → R' a s') : Outcome but' s R' result := by
  cases result with
  | ok a s' => exact ⟨hs s' h.1, hR a s' h.1 h.2⟩
  | error e s' => exact hs s' h

/-- What is done to scopes that were not there does not count. -/
theorem forget (h : Outcome but' s R result)
    (hnew : ∀ p ∈ but', p ∈ but ∨ s.scopes.environments.size ≤ p.1.index) :
    Outcome but s R result :=
  h.imp (fun _ hs => hs.forget hnew) fun _ _ _ h => h

theorem bind {x : Eval α} {f : α → Eval β} {R' : β → State → Prop} (hx : Outcome but s R (x s))
    (hf : ∀ a s', s.RetainsBut but s' → R a s' → Outcome but s' R' (f a s')) :
    Outcome but s R' ((x >>= f) s) := by
  change Outcome but s R' (EStateM.bind x f s)
  unfold EStateM.bind
  cases heq : x s with
  | ok a s' =>
    rw [heq] at hx
    exact (hf a s' hx.1 hx.2).after hx.1
  | error e s' =>
    rw [heq] at hx
    exact hx

theorem catching {x : Eval α} {handler : Value → Eval α} (hx : Outcome but s R (x s))
    (hh : ∀ v s', s.RetainsBut but s' → Outcome but s' R (handler v s')) :
    Outcome but s R (Eval.catching x handler s) := by
  unfold Eval.catching
  cases heq : x s with
  | ok a s' =>
    rw [heq] at hx
    exact hx
  | error e s' =>
    rw [heq] at hx
    cases e with
    | thrown v => exact (hh v s' hx).after hx
    | escaped ending => exact hx
    | exhausted => exact hx

theorem onEscape {x : Eval α} {handler : Completion → Eval α} (hx : Outcome but s R (x s))
    (hh : ∀ c s', s.RetainsBut but s' → Outcome but s' R (handler c s')) :
    Outcome but s R (Eval.onEscape x handler s) := by
  unfold Eval.onEscape
  cases heq : x s with
  | ok a s' =>
    rw [heq] at hx
    exact hx
  | error e s' =>
    rw [heq] at hx
    cases e with
    | thrown v => exact hx
    | escaped ending => exact (hh ending s' hx).after hx
    | exhausted => exact hx

theorem atSite {l : Site} (h : Outcome but { s with site := l } R (x { s with site := l }))
    (hR : ∀ a s' l', R a s' → R' a { s' with site := l' }) :
    Outcome but s R' (Eval.atSite l x s) := by
  unfold Eval.atSite
  cases heq : x { s with site := l } <;> rw [heq] at h
  · exact ⟨⟨h.1.callDepth, rfl, h.1.scopes⟩, hR _ _ _ h.2⟩
  · exact ⟨h.callDepth, rfl, h.scopes⟩

end Outcome

theorem Retains.of_ok (h : ∀ s, ∃ a s', x s = .ok a s' ∧ s.RetainsBut but s' ∧ Q a) :
    Retains depth but x Q := by
  intro s _
  obtain ⟨a, s', heq, hs⟩ := h s
  rw [heq]
  exact hs

/-- A step that leaves the scopes, the calls and the site as they are. -/
theorem Retains.still (h : ∀ s, ∃ a s', x s = .ok a s' ∧ s'.scopes = s.scopes ∧
    s'.callDepth = s.callDepth ∧ s'.site = s.site) : Retains depth but x fun _ => True :=
  .of_ok fun s =>
    let ⟨a, s', heq, hscopes, hdepth, hsite⟩ := h s
    ⟨a, s', heq, ⟨hdepth, hsite, hscopes ▸ .refl _ _⟩, trivial⟩

theorem Retains.bind {f : α → Eval β} {Q : β → Prop} (hx : Retains depth but x P)
    (hf : ∀ a, P a → Retains depth but (f a) Q) : Retains depth but (x >>= f) Q :=
  fun s hs => (hx s hs).bind fun a s' hs' ha => hf a ha s' (hs'.callDepth ▸ hs)

/-- A step of which nothing but its value is used. -/
theorem Retains.skip {f : α → Eval β} {Q : β → Prop} (hx : Retains depth but x fun _ => True)
    (hf : ∀ a, Retains depth but (f a) Q) : Retains depth but (x >>= f) Q :=
  .bind hx fun a _ => hf a

theorem Retains.catching {handler : Value → Eval α} (hx : Retains depth but x Q)
    (hh : ∀ v, Retains depth but (handler v) Q) : Retains depth but (catching x handler) Q :=
  fun s hs => (hx s hs).catching fun v s' hs' => hh v s' (hs'.callDepth ▸ hs)

theorem Retains.atSite {l : Site} (hx : Retains depth but x Q) :
    Retains depth but (atSite l x) Q :=
  fun s hs => .atSite (hx { s with site := l } hs) fun _ _ _ h => h

theorem Retains.within {around : Around} {q : ScopeRef} (hx : Retains depth but x Q) :
    Retains depth but (within around q x) Q :=
  .bind (.still fun s => ⟨_, s, rfl, rfl, rfl, rfl⟩) fun _ _ => hx.atSite

theorem Retains.forM {xs : List α} {f : α → Eval PUnit}
    (h : ∀ a ∈ xs, Retains depth but (f a) fun _ => True) :
    Retains depth but (xs.forM f) fun _ => True := by
  induction xs with
  | nil => exact .still fun s => ⟨_, s, rfl, rfl, rfl, rfl⟩
  | cons a rest ih => exact .skip (h a (by simp)) fun _ => ih fun b hb => h b (by simp [hb])

theorem retains_tryObject (o : ObjectRef) (step : ObjectData → Option ObjectData) :
    Retains depth but (tryObject o step) fun _ => True := by
  refine .still fun s => ?_
  unfold Eval.tryObject
  split <;> exact ⟨_, _, rfl, rfl, rfl, rfl⟩

theorem retains_setPrototype (o : ObjectRef) (prototype : Option ObjectRef) :
    Retains depth but (setPrototype o prototype) fun _ => True := by
  refine .skip (.still fun s => ⟨_, s, rfl, rfl, rfl, rfl⟩) fun accepts => ?_
  split <;> exact .still fun s => ⟨_, _, rfl, rfl, rfl, rfl⟩

theorem retains_instantiateFunction (f : FunctionDef) (scope : ScopeRef) (name : Units) :
    Retains depth but (instantiateFunction f scope name) fun _ => True := by
  have hput (o : ObjectRef) (key : PropertyKey) (d : Descriptor) :
      Retains depth but (put o key d) fun _ => True := by
    have hdefine : Retains depth but (define o key d) fun _ => True := retains_tryObject o _
    intro s hs
    have hpost := hdefine s hs
    change Outcome but s _ (EStateM.map _ (define o key d) s)
    unfold EStateM.map
    cases heq : define o key d s <;> (rw [heq] at hpost; exact hpost)
  have hnew (prototype : Option ObjectRef) (kind : ObjectKind) :
      Retains depth but (newObject prototype kind) fun _ => True :=
    .still fun s => ⟨_, _, rfl, rfl, rfl, rfl⟩
  have hcreate : Retains depth but (createFunction f scope none (some .base)) fun _ => True :=
    .skip (.still fun s => ⟨_, s, rfl, rfl, rfl, rfl⟩) fun site => .skip (hnew _ _) fun o =>
      .skip (hput _ _ _) fun _ => .still fun s => ⟨_, s, rfl, rfl, rfl, rfl⟩
  have hconstructor (o : ObjectRef) : Retains depth but (makeConstructor o) fun _ => True :=
    .skip (hnew _ _) fun prototype => .skip (hput _ _ _) fun _ => hput _ _ _
  exact .skip hcreate fun o => .skip (hput _ _ _) fun _ => .skip (hconstructor o) fun _ =>
    .still fun s => ⟨_, s, rfl, rfl, rfl, rfl⟩

end Eval

/-- Retaining what is there is a discipline. It asks for nothing to be known of functions. -/
@[reducible]
def Discipline.retaining (depth : Nat) : Discipline where
  World := Set (ScopeRef × String)
  Later but but' := but' = but
  Callable _ _ := True
  callable_later _ _ := trivial
  Holds but x Q := Eval.Retains depth but x (Q · but)
  pure h s _ := ⟨.refl _ s, h _ rfl⟩
  throw s _ := .refl _ s
  bind hx hf := .bind hx fun a ha => hf a _ rfl ha
  catching hx hh := .catching hx fun v => hh v _
  heap _ := .still fun s => ⟨_, s, rfl, rfl, rfl, rfl⟩
  isCallable _ := .of_ok fun s => ⟨_, s, rfl, .refl _ s, fun _ => trivial⟩
  scopes _ := .still fun s => ⟨_, s, rfl, rfl, rfl, rfl⟩
  isStrict := .still fun s => ⟨_, s, rfl, rfl, rfl, rfl⟩
  newObject _ := .still fun _ => ⟨_, _, rfl, rfl, rfl, rfl⟩
  define _ _ _ _ _ := Eval.retains_tryObject _ _
  delete _ _ := Eval.retains_tryObject _ _
  preventExtensions _ := .still fun _ => ⟨_, _, rfl, rfl, rfl, rfl⟩
  setPrototype := Eval.retains_setPrototype
  newSymbol _ := .still fun _ => ⟨_, _, rfl, rfl, rfl, rfl⟩
  write _ := .still fun _ => ⟨_, _, rfl, rfl, rfl, rfl⟩
  instantiate _ _ := (Eval.retains_instantiateFunction _ _ _).atSite

namespace Eval

variable {α β : Type} {x : Eval α} {s s' : State} {but : Set (ScopeRef × String)} {Q : α → Prop}
  {depth : Nat} {scope : ScopeRef} {name : String}

theorem retains [hx : x.Obeys (.retaining depth)] : Retains depth but x fun _ => True :=
  hx.holds but

/-! ### Filling scopes -/

theorem retains_modifyScope {f : Environment → Environment}
    (h : ∀ e : Environment, e.KeepsBut {name | (scope, name) ∈ but} (f e)) :
    Retains depth but (modifyScope scope f) fun _ => True :=
  .of_ok fun s => ⟨_, _, rfl, ⟨rfl, rfl, Scopes.keepsBut_modify (h (s.scopes.get scope))⟩, trivial⟩

/-- What is done to a new scope does not count. -/
theorem Retains.newScope {e : Environment} {f : ScopeRef → Eval β} {Q : β → Prop}
    (hf : ∀ q, Retains depth (but ∪ {p | p.1 = q}) (f q) Q) :
    Retains depth but (newScope e >>= f) Q := by
  intro s hs
  let pushed : State := { s with scopes := s.scopes.push e }
  have hpush : s.RetainsBut (but ∪ {p | p.1 = s.scopes.next}) pushed :=
    ⟨rfl, rfl, s.scopes.keepsBut_push e⟩
  refine ((hf s.scopes.next pushed hs).after hpush).forget fun p hp => hp.imp id fun heq => ?_
  rw [show p.1 = s.scopes.next from heq]
  exact Nat.le_refl _

/-- A step that gives the scope to go on in: a new one inside a scope that is there, in which some
names are bound. If there are none, it may be that scope itself, unless code needs its own. -/
def Opens (depth : Nat) (own : Bool) (p : ScopeRef) (names : List String) (x : Eval ScopeRef) :
    Prop :=
  ∀ s : State, depth ≤ s.callDepth → Outcome ∅ s (fun q s' => p.index < s.scopes.environments.size →
    s'.scopes.Nests p names q ∨ (own = false ∧ q = p ∧ names = [])) (x s)

theorem opens_innerScope {own : Bool} {names : List String} {fill : ScopeRef → Eval PUnit}
    (hfill : ∀ q, Retains depth {x | x.1 = q ∧ x.2 ∈ names} (fill q) fun _ => True) :
    Opens depth own scope names (do
      let q ← innerScope scope
      fill q
      return q) := by
  intro s hs
  let e : Environment := { parent := some scope }
  let pushed : State := { s with scopes := s.scopes.push e }
  have hpush : s.RetainsBut {x | x.1 = s.scopes.next ∧ x.2 ∈ names} pushed :=
    ⟨rfl, rfl, s.scopes.keepsBut_push e⟩
  have hnests (s' : State) (hs' : pushed.RetainsBut {x | x.1 = s.scopes.next ∧ x.2 ∈ names} s')
      (hp : scope.index < s.scopes.environments.size) : s'.scopes.Nests scope names s.scopes.next :=
    Scopes.nests_next hs'.scopes hp rfl (fun name h => absurd h Bool.false_ne_true)
      fun name h => h.2
  have hrest : Outcome {x | x.1 = s.scopes.next ∧ x.2 ∈ names} pushed
      (fun q s' => scope.index < s.scopes.environments.size → s'.scopes.Nests scope names q ∨
        (own = false ∧ q = scope ∧ names = []))
      ((do fill s.scopes.next; return s.scopes.next : Eval ScopeRef) pushed) := by
    refine (hfill s.scopes.next pushed hs).bind fun _ s' hs' _ => ⟨.refl _ s', fun hp => ?_⟩
    exact .inl (hnests s' hs' hp)
  refine (hrest.after hpush).forget fun x hx => .inr ?_
  rw [hx.1]
  exact Nat.le_refl _

/-! ### Steps -/

instance (i : Incident) : (note i).Obeys (.retaining depth) :=
  ⟨fun _ => .still fun _ => ⟨_, _, rfl, rfl, rfl, rfl⟩⟩

instance (f : Fault) : (fault f : Eval α).Obeys (.retaining depth) := by
  unfold fault; infer_instance

instance (e : Environment) : (newScope e).Obeys (.retaining depth) :=
  ⟨fun _ => .of_ok fun s => ⟨_, _, rfl, ⟨rfl, rfl, s.scopes.keepsBut_push e⟩, trivial⟩⟩

instance : (innerScope scope).Obeys (.retaining depth) := by unfold innerScope; infer_instance

instance (value : Value) : (initialise scope name value).Obeys (.retaining depth) :=
  ⟨fun _ => retains_modifyScope fun e => e.keepsBut_initialise name value⟩

instance (value : Value) (strict : Bool) :
    (assignBinding scope name value strict).Obeys (.retaining depth) := by
  refine ⟨fun but s hs => ?_⟩
  have hrun : assignBinding scope name value strict s =
      (match (s.scopes.get scope).set name value strict with
        | .ok e => modifyScope scope fun _ => e
        | .error e => raiseBinding name e : Eval Unit) s := rfl
  rw [hrun]
  cases heq : (s.scopes.get scope).set name value strict with
  | ok e =>
    exact ⟨⟨rfl, rfl, Scopes.keepsBut_modify (Environment.keepsBut_set heq)⟩, trivial⟩
  | error e => exact retains (x := raiseBinding name e) s hs

instance (description : String) : (newPrivateName description).Obeys (.retaining depth) :=
  ⟨fun _ => .still fun _ => ⟨_, _, rfl, rfl, rfl, rfl⟩⟩

instance (prototype : Option ObjectRef) (kind : ObjectKind) :
    (newObject prototype kind).Obeys (.retaining depth) :=
  ⟨fun _ => .still fun _ => ⟨_, _, rfl, rfl, rfl, rfl⟩⟩

instance (o : ObjectRef) (f : ObjectData → ObjectData) :
    (modifyObject o f).Obeys (.retaining depth) :=
  ⟨fun _ => .still fun _ => ⟨_, _, rfl, rfl, rfl, rfl⟩⟩

instance (o : ObjectRef) (key : PropertyKey) (d : Descriptor) :
    (define o key d).Obeys (.retaining depth) :=
  ⟨fun _ => retains_tryObject o _⟩

instance (o : ObjectRef) (key : PropertyKey) (d : Descriptor) :
    (put o key d).Obeys (.retaining depth) := by
  unfold put; infer_instance

theorem Retains.inContext {c : Context} (hx : Retains depth but x fun _ => True) :
    Retains depth but (inContext c x) fun _ => True := by
  intro s hs
  have hpost := hx { s with contexts := c :: s.contexts } hs
  simp only [Eval.inContext]
  cases heq : x { s with contexts := c :: s.contexts } <;> rw [heq] at hpost
  · exact ⟨⟨hpost.1.callDepth, hpost.1.site, hpost.1.scopes⟩, trivial⟩
  · exact ⟨hpost.callDepth, hpost.site, hpost.scopes⟩

instance (c : Context) [hx : x.Obeys (.retaining depth)] :
    (inContext c x).Obeys (.retaining depth) :=
  ⟨fun but => (hx.holds but).inContext⟩

instance : site.Obeys (.retaining depth) :=
  ⟨fun _ => .still fun s => ⟨_, s, rfl, rfl, rfl, rfl⟩⟩

instance (l : Site) [hx : x.Obeys (.retaining depth)] : (atSite l x).Obeys (.retaining depth) :=
  ⟨fun but => (hx.holds but).atSite⟩

instance (around : Around) [x.Obeys (.retaining depth)] :
    (within around scope x).Obeys (.retaining depth) := by
  unfold within; infer_instance

/-- What is retained from some depth of calls on is retained from a greater one on. -/
theorem Obeys.deeper {depth' : Nat} (hx : x.Obeys (.retaining depth)) (h : depth ≤ depth') :
    x.Obeys (.retaining depth') :=
  ⟨fun but s hs => hx.holds but s (Nat.le_trans h hs)⟩

/-- A call is closed again. -/
instance [hx : x.Obeys (.retaining (depth + 1))] : (inCall x).Obeys (.retaining depth) := by
  refine ⟨fun but s hs => ?_⟩
  unfold Eval.inCall
  split
  · exact retains (x := raise .callDepth) s hs
  · have hpost := hx.holds but { s with callDepth := s.callDepth + 1 } (Nat.succ_le_succ hs)
    have hclose {s' : State} (h : State.RetainsBut but { s with callDepth := s.callDepth + 1 } s') :
        s.RetainsBut but { s' with callDepth := s'.callDepth - 1 } :=
      ⟨by rw [h.callDepth, Nat.add_sub_cancel], h.site, h.scopes⟩
    cases heq : x { s with callDepth := s.callDepth + 1 } <;> rw [heq] at hpost
    · exact ⟨hclose hpost.1, trivial⟩
    · exact hclose hpost

/-! ### Functions -/

instance (f : FunctionDef) (home : Option ObjectRef) (kind : Option ConstructorKind) :
    (createFunction f scope home kind).Obeys (.retaining depth) := by
  unfold createFunction; infer_instance

instance (o : ObjectRef) (name : Units) : (setFunctionName o name).Obeys (.retaining depth) := by
  unfold setFunctionName; infer_instance

instance (f : FunctionDef) (name : Units) :
    (instantiateFunction f scope name).Obeys (.retaining depth) :=
  ⟨fun _ => retains_instantiateFunction f scope name⟩

/-- A function expression with a name gets a scope of its own. -/
instance (f : FunctionDef) (name : Units) :
    (instantiateExpression f scope name).Obeys (.retaining depth) := by
  unfold instantiateExpression
  split
  · infer_instance
  · next own _ =>
    refine ⟨fun but => .newScope fun q => .skip (retains_modifyScope fun e => ?_) fun _ => retains⟩
    exact Environment.keepsBut_declare (.inr rfl) _

instance (f : FunctionDef) (home : ObjectRef) :
    (createMethod f scope home).Obeys (.retaining depth) := by
  unfold createMethod; infer_instance

instance (callee : ObjectRef) (args : List Value) (strict : Bool) :
    (createArguments callee args strict).Obeys (.retaining depth) := by
  unfold createArguments
  dsimp only
  infer_instance

theorem retains_declareFunctions {functions : List FunctionDef} {inner : ScopeRef}
    (kind : BindingKind) (h : ∀ name ∈ functionNames functions, (scope, name) ∈ but) :
    Retains depth but (declareFunctions functions inner scope kind) fun _ => True := by
  refine .forM fun f hf => .skip retains fun o => retains_modifyScope fun e => ?_
  have hname : (scope, f.name.getD "") ∈ but := h _ (List.mem_map.mpr ⟨f, hf, rfl⟩)
  exact (e.keepsBut_declareNew hname kind).trans (Environment.keepsBut_initialise _ _ _)

end Eval

/-- The names that a block binds in its scope. -/
def Stmt.blockNames (body : List Stmt) : List String :=
  lexicalNamesOf body ++ Eval.functionNames (functionsOf body)

namespace Eval

variable {α : Type} {but : Set (ScopeRef × String)} {depth : Nat} {scope : ScopeRef}
  {body : List Stmt}

theorem retains_declareBlock (h : ∀ name ∈ Stmt.blockNames body, (scope, name) ∈ but) :
    Retains depth but (declareBlock body scope) fun _ => True := by
  refine .skip (retains_modifyScope fun e => ?_) fun _ =>
    retains_declareFunctions .letVar fun name hname => h name (List.mem_append_right _ hname)
  refine Environment.keepsBut_declareLexical fun name hname => ?_
  rw [Stmt.map_fst_lexicalBindingsOf] at hname
  exact h name (List.mem_append_left _ hname)

/-- A block without names needs no scope of its own. -/
theorem opens_blockScope (body : List Stmt) (scope : ScopeRef) :
    Opens depth false scope (Stmt.blockNames body) (blockScope body scope) := by
  unfold blockScope
  split
  · next hempty =>
    rw [Bool.and_eq_true, List.isEmpty_iff, List.isEmpty_iff] at hempty
    have hnone : Stmt.blockNames body = [] := by
      rw [Stmt.blockNames, ← Stmt.map_fst_lexicalBindingsOf, hempty.1, hempty.2]
      rfl
    exact fun s _ => ⟨.refl _ s, fun _ => .inr ⟨rfl, rfl, hnone⟩⟩
  · exact opens_innerScope fun q => .within (retains_declareBlock fun name hname => ⟨rfl, hname⟩)

/-- All clauses share a scope. -/
theorem opens_clausesScope (cases : List SwitchCase) (scope : ScopeRef) :
    Opens depth false scope (cases.flatMap fun k => Stmt.blockNames k.body)
      (clausesScope cases scope) :=
  opens_innerScope fun _ => .within <| .forM fun k hk =>
    retains_declareBlock fun _ hname => ⟨rfl, List.mem_flatMap.mpr ⟨k, hk, hname⟩⟩

/-- Only the scope of the call and new ones are filled. -/
theorem retains_instantiateBody (callee : ObjectRef) (f : FunctionDef) (args : List Value)
    (h : ∀ name, (scope, name) ∈ but) :
    Retains depth but (instantiateBody callee f scope args) fun _ => True := by
  rw [instantiateBody_eq]
  refine .skip ?_ fun _ => .newScope fun inner => ?_
  · refine .skip (retains_modifyScope fun e => ?_) fun _ => .skip ?_ fun _ =>
      retains_modifyScope fun e => Environment.keepsBut_declareVars fun name _ => h name
    · exact Environment.keepsBut_bindParameters (fun param _ => h param) args
    · unfold bindArguments
      split
      · refine .skip retains fun o => retains_modifyScope fun e => ?_
        exact (Environment.keepsBut_declare (h "arguments") _).trans
          (Environment.keepsBut_initialise _ _ _)
      · exact retains (x := pure PUnit.unit)
  · refine .skip (retains_modifyScope fun e => ?_) fun _ =>
      .skip (retains_declareFunctions .var fun name _ => .inl (h name)) fun _ => retains
    exact Environment.keepsBut_declareLexical fun name _ => .inr rfl

/-! ### Classes -/

theorem retains_declarePrivateNames (spellings : List String) :
    Retains depth but (declarePrivateNames spellings scope) fun _ => True :=
  .forM fun _ _ => .skip retains fun _ => retains_modifyScope fun _ => .of_eq rfl rfl

/-- The scope of a class binds its name. -/
theorem opens_classScope (c : ClassDef) (scope : ScopeRef) :
    Opens depth false scope c.name.toList (classScope c scope) := by
  have hrun : classScope c scope = (do
      let q ← innerScope scope
      (do
        c.name.forM fun name => modifyScope q (·.declare name .const)
        declarePrivateNames (distinctNames (c.elements.filterMap ClassElement.privateName?)) q)
      return q) := by
    simp only [classScope, bind_assoc]
  rw [hrun]
  refine opens_innerScope fun q => .skip ?_ fun _ => retains_declarePrivateNames _
  cases c.name with
  | none => exact retains (x := pure PUnit.unit)
  | some name =>
    have hname : (q, name) ∈ {x : ScopeRef × String | x.1 = q ∧ x.2 ∈ (some name).toList} :=
      ⟨rfl, by simp⟩
    exact retains_modifyScope fun e => Environment.keepsBut_declare hname .const

instance (c : ClassDef) (name : String) (prototype parent : ObjectRef) :
    (createClass c scope name prototype parent).Obeys (.retaining depth) := by
  unfold createClass
  dsimp only
  infer_instance

instance (o : ObjectRef) (privates : ClassPrivates) :
    (installPrivates o privates).Obeys (.retaining depth) := by
  unfold installPrivates; infer_instance

end Eval

namespace Engine

variable {depth : Nat} {eng : Engine} [heng : eng.Obeys (.retaining depth)] {scope : ScopeRef}

theorem obeys_deeper {depth' : Nat} (eng : Engine) [heng : eng.Obeys (.retaining depth)]
    (h : depth ≤ depth') : eng.Obeys (.retaining depth') :=
  ⟨fun f this args => (heng.call f this args).deeper h,
    fun f args target => (heng.construct f args target).deeper h⟩

omit heng in
instance (o : ObjectRef) (key : PropertyKey) (d : Descriptor) :
    (defineOrThrow o key d).Obeys (.retaining depth) := by
  unfold defineOrThrow; infer_instance

omit heng in
instance (o : ObjectRef) (elements : List (PrivateName × PrivateElement)) :
    (addPrivates o elements).Obeys (.retaining depth) := by
  unfold addPrivates; infer_instance

omit heng in
instance (o constructor : ObjectRef) :
    (initialiseInstance o constructor).Obeys (.retaining depth) := by
  refine .bind fun f => ?_
  split <;> infer_instance

omit heng in
instance (this : Value) : (bindThis scope this).Obeys (.retaining depth) := by
  have hmodify : (Eval.modifyScope scope fun e => { e with
      function := e.function.map fun f => { f with this := some this } }).Obeys
        (.retaining depth) :=
    ⟨fun _ => Eval.retains_modifyScope fun e => .of_eq rfl rfl⟩
  refine .bind fun found => ?_
  split <;> infer_instance

instance (args : List Value) : (eng.superCall scope args).Obeys (.retaining depth) := by
  refine .bind fun found => ?_
  split
  · infer_instance
  · refine .bind fun call => ?_
    split
    · infer_instance
    · refine .bind fun parent => ?_
      split <;> infer_instance

end Engine

end Ecma
