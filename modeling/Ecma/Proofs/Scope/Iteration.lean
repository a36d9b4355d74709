import Ecma.Proofs.Scope.Direct

/-! Loops with a `let` head. Each turn of such a loop runs in a scope of its own, which starts as a
copy of the last one; its test, body and update mean that scope by the names of the head. So what
one turn assigns to them is nothing to the closures of another. -/

namespace Ecma

theorem Eval.loop_succ {α β : Type} (turn : α → Eval (Turn α β)) (fuel : Nat) (a : α) :
    loop turn (fuel + 1) a = turn a >>= fun t => (match t with
      | .again a => loop turn fuel a
      | .done b => return b) :=
  bind_congr fun t => by cases t <;> rfl

namespace Engine

/-! ### Turns -/

/-- A turn that a loop begins. -/
structure Iteration where
  scope : ScopeRef
  /-- The value of the loop so far. -/
  value : Value
  /-- The update that the turn begins with; the first turn has none. -/
  before : Option Expr
  /-- The state in which the scope has just been made. -/
  opened : State

/-- The turn that begins when the code in a scope has ended in a state. -/
def Iteration.after (q : ScopeRef) (value : Value) (before : Option Expr) (closed : State) :
    Iteration where
  scope := closed.scopes.next
  value
  before
  opened := { closed with scopes := closed.scopes.push (closed.scopes.get q).copy }

/-- The update that a turn begins with. -/
def runBefore (eng : Engine) (init : ForInit) (i : Iteration) : Eval PUnit :=
  i.before.forM fun e => discard (Eval.within (.loop init) i.scope (eng.expr e i.scope))

/-- The test and the body of a turn. -/
def testAndBody (eng : Engine) (init : ForInit) (test : Option Expr) (body : Stmt)
    (labels : List String) (scope : ScopeRef) (value : Value) : Eval (Turn Value Completion) := do
  let again ← match test with
    | some test => Eval.within (.loop init) scope (eng.holds test scope)
    | none => pure true
  if again then
    return (← Eval.within (.loop init) scope (eng.statement body scope [])).afterBody labels value
  else return .done (.normal (some value))

/-- All that is run in the scope of a turn. -/
def turn (eng : Engine) (init : ForInit) (test : Option Expr) (body : Stmt) (labels : List String)
    (i : Iteration) : Eval (Turn Value Completion) := do
  eng.runBefore init i
  eng.testAndBody init test body labels i.scope i.value

/-- The turns that a loop begins, and how it ends. -/
def turns (eng : Engine) (init : ForInit) (test update : Option Expr) (body : Stmt)
    (labels : List String) :
    (fuel : Nat) → Iteration → List Iteration × EStateM.Result Abrupt State Completion
  | 0, i => ([i], (eng.runBefore init i >>= fun _ => throw .exhausted : Eval Completion) i.opened)
  | fuel + 1, i =>
    match eng.turn init test body labels i i.opened with
    | .ok (.again v) closed =>
      let (rest, ending) :=
        turns eng init test update body labels fuel (.after i.scope v update closed)
      (i :: rest, ending)
    | .ok (.done c) s => ([i], .ok c s)
    | .error e s => ([i], .error e s)

variable {eng : Engine} {init : ForInit} {test update : Option Expr} {body : Stmt}
  {labels : List String}

theorem forTurn_eq (q : ScopeRef) (v : Value) :
    eng.forTurn init test update body true labels (q, v) =
      eng.testAndBody init test body labels q v >>= eng.nextTurn init update true q := by
  unfold forTurn testAndBody
  cases test with
  | none =>
    simp only [pure_bind, if_true, bind_assoc]
    rfl
  | some test =>
    simp only [bind_assoc]
    refine bind_congr fun again => ?_
    cases again with
    | true =>
      simp only [if_true, bind_assoc, pure_bind]
      rfl
    | false => simp only [Bool.false_eq_true, if_false, pure_bind, nextTurn]

/-- A loop goes from turn to turn, each with the update before it. -/
theorem loop_forTurn (eng : Engine) (init : ForInit) (test update : Option Expr) (body : Stmt)
    (labels : List String) (fuel : Nat) (i : Iteration) :
    (eng.runBefore init i >>= fun _ =>
      Eval.loop (eng.forTurn init test update body true labels) fuel (i.scope, i.value)) i.opened =
        (eng.turns init test update body labels fuel i).2 := by
  induction fuel generalizing i with
  | zero => rfl
  | succ fuel ih =>
    have hturn (k : Turn Value Completion → Eval Completion) :
        (eng.runBefore init i >>= fun _ =>
          eng.testAndBody init test body labels i.scope i.value >>= k) =
          eng.turn init test body labels i >>= k := by
      simp only [turn, bind_assoc]
    simp only [Eval.loop_succ, forTurn_eq, bind_assoc]
    rw [hturn]
    unfold turns
    change EStateM.bind (eng.turn init test body labels i) _ i.opened = _
    unfold EStateM.bind
    cases eng.turn init test body labels i i.opened with
    | error e s => rfl
    | ok t closed =>
      cases t with
      | done c => rfl
      | again v =>
        simp only [nextTurn, forUpdate, bind_assoc, pure_bind]
        exact ih (.after i.scope v update closed)

/-! ### What a turn leaves -/

/-- The code that is run in the scope of a turn. -/
def Iteration.code (i : Iteration) (test : Option Expr) (body : Stmt) : List Part :=
  (i.before.toList ++ test.toList).map .expr ++ [.statement body]

/-- A scope is there and has values for some names, and code is run inside some frames. -/
def holding (q : ScopeRef) (names : List String) (outer : List Frame) (depth : Nat) :
    Standing depth where
  Holds s := depth ≤ s.callDepth ∧ s.site.frames = outer ∧
    q.index < s.scopes.environments.size ∧ ∀ name ∈ names, (s.scopes.get q).Lets name
  deep h := h.1
  lasts h hs := ⟨hs.callDepth ▸ h.1, hs.site ▸ h.2.1, Nat.lt_of_lt_of_le h.2.2.1 hs.scopes.size,
    fun name hname => (hs.scopes.environments _ h.2.2.1).lets (Set.notMem_empty _)
      (h.2.2.2 name hname)⟩

/-- The code of a turn starts in its scope, inside the loop. -/
def Iteration.outset (i : Iteration) (init : ForInit) (names : List String) (outer : List Frame)
    (depth : Nat) (code : Part) : Outset :=
  ⟨code, i.scope, names, ⟨.loop init, i.scope⟩ :: outer, depth⟩

variable {i : Iteration} {names : List String} {outer : List Frame} {depth : Nat}

theorem rests_within {α : Type} {code : Part} {x : Eval α}
    (h : Eval.Rests ((i.outset init names outer depth code).standsAt i.scope code) x) :
    Eval.Rests (holding i.scope names outer depth) (Eval.within (.loop init) i.scope x) := by
  refine ⟨fun s hs => .atSite (h.leaves _ ⟨hs.1, fun _ => ⟨[], ?_, .self, ?_⟩⟩)
    fun _ _ _ _ => trivial⟩
  · exact congrArg (List.cons _) hs.2.1
  · exact .here hs.2.2.1 hs.2.2.2

/-- Code that stays in its scopes leaves the scope of a turn as it is. -/
theorem rests_turn
    (h : ∀ code ∈ i.code test body, eng.Stays (i.outset init names outer depth code)) :
    Eval.Rests (holding i.scope names outer depth) (eng.turn init test body labels i) := by
  have hbody : Eval.Rests (holding i.scope names outer depth)
      (Eval.within (.loop init) i.scope (eng.statement body i.scope [])) :=
    rests_within ((h (.statement body) (by simp [Iteration.code])).statement body i.scope [])
  have hbefore : Eval.Rests (holding i.scope names outer depth) (eng.runBefore init i) := by
    unfold runBefore
    cases hi : i.before with
    | none => exact inferInstanceAs (Eval.Rests _ (pure PUnit.unit))
    | some e =>
      have he := rests_within ((h (.expr e) (by simp [Iteration.code, hi])).expr e i.scope)
      exact inferInstanceAs (Eval.Rests _ (discard
        (Eval.within (.loop init) i.scope (eng.expr e i.scope))))
  unfold turn testAndBody
  cases test with
  | none => infer_instance
  | some test =>
    have := h (.expr test) (by simp [Iteration.code])
    have hholds : Eval.Rests ((i.outset init names outer depth (.expr test)).standsAt i.scope
        (.expr test)) (eng.holds test i.scope) := inferInstance
    have htest := rests_within hholds
    dsimp only
    infer_instance

instance (a : Outset) (fuel : Nat) : (ofFuel fuel).Stays a := by
  rw [← watched_idle]
  exact stays_watched (fun _ _ => inferInstance) (fun _ _ _ => inferInstance)
    (fun _ _ _ => inferInstance) (fun _ _ _ => inferInstance) fuel

/-! ### From turn to turn -/

/-- A turn starts in a new scope with the bindings that a scope has in a state. -/
structure Iteration.Starts (i : Iteration) (q : ScopeRef) (closed : State) : Prop where
  new : closed.scopes.environments.size ≤ i.scope.index
  bindings : (i.opened.scopes.get i.scope).bindings = (closed.scopes.get q).bindings
  others : ∀ r, r ≠ i.scope → i.opened.scopes.get r = closed.scopes.get r

theorem Iteration.starts_after (q : ScopeRef) (v : Value) (before : Option Expr) (closed : State) :
    (after q v before closed).Starts q closed where
  new := Nat.le_refl _
  bindings := by
    simp only [after, Scopes.get_push_next]
    rfl
  others r hr := by
    obtain heq | ⟨heq, -⟩ := closed.scopes.get_push_cases (closed.scopes.get q).copy r
    · exact heq
    · exact absurd heq hr

/-- The scope of a turn has just been made, as a copy of one that has values for some names. -/
structure Iteration.Ready (i : Iteration) (names : List String) (outer : List Frame) : Prop where
  lt : i.scope.index < i.opened.scopes.environments.size
  lets : ∀ name ∈ names, (i.opened.scopes.get i.scope).Lets name
  site : i.opened.site.frames = outer

theorem Iteration.Ready.holds (h : i.Ready names outer) :
    (holding i.scope names outer i.opened.callDepth).Holds i.opened :=
  ⟨Nat.le_refl _, h.site, h.lt, h.lets⟩

theorem Iteration.ready_after {q : ScopeRef} {closed : State}
    (h : (holding q names outer depth).Holds closed) (v : Value) (before : Option Expr) :
    (after q v before closed).Ready names outer where
  lt := by simp [after, Scopes.next, Scopes.push]
  lets name hname := by
    simp only [after, Scopes.get_push_next]
    exact h.2.2.2 name hname
  site := h.2.1

/-- A turn goes on to another one. -/
def Follows (eng : Engine) (init : ForInit) (test update : Option Expr) (body : Stmt)
    (labels : List String) (i j : Iteration) : Prop :=
  ∃ closed, eng.turn init test body labels i i.opened = .ok (.again j.value) closed ∧
    j.before = update ∧ j.Starts i.scope closed

variable {n fuel : Nat}

/-- A turn leaves its scope there, with values for the names that it binds. -/
theorem leaves_turn (h : i.Ready names outer) {t : Turn Value Completion} {closed : State}
    (hturn : (ofFuel n).turn init test body labels i i.opened = .ok t closed) :
    (holding i.scope names outer i.opened.callDepth).Holds closed := by
  have hrests : Eval.Rests (holding i.scope names outer i.opened.callDepth)
      ((ofFuel n).turn init test body labels i) := rests_turn fun _ _ => inferInstance
  have hleaves := hrests.keeps i.opened h.holds
  rw [hturn] at hleaves
  exact hleaves.2

theorem turns_eq_cons (eng : Engine) (init : ForInit) (test update : Option Expr) (body : Stmt)
    (labels : List String) (fuel : Nat) (i : Iteration) :
    ∃ rest, (eng.turns init test update body labels fuel i).1 = i :: rest := by
  cases fuel with
  | zero => exact ⟨[], rfl⟩
  | succ fuel =>
    unfold turns
    split <;> exact ⟨_, rfl⟩

theorem ready_of_mem_turns (h : i.Ready names outer) :
    ∀ j ∈ ((ofFuel n).turns init test update body labels fuel i).1, j.Ready names outer := by
  induction fuel generalizing i with
  | zero =>
    intro j hj
    rwa [List.mem_singleton.mp hj]
  | succ fuel ih =>
    intro j hj
    unfold turns at hj
    split at hj
    · next v closed hturn =>
      obtain rfl | hj := List.mem_cons.mp hj
      · exact h
      · exact ih (Iteration.ready_after (leaves_turn h hturn) v update) j hj
    · rwa [List.mem_singleton.mp hj]
    · rwa [List.mem_singleton.mp hj]

/-- Each turn but the first follows another one, and its scope is newer. -/
theorem chain_turns (n : Nat) (init : ForInit) (test update : Option Expr) (body : Stmt)
    (labels : List String) (fuel : Nat) (h : i.Ready names outer) :
    ((ofFuel n).turns init test update body labels fuel i).1.IsChain fun i j =>
      (ofFuel n).Follows init test update body labels i j ∧ i.scope.index < j.scope.index := by
  induction fuel generalizing i with
  | zero => exact .singleton i
  | succ fuel ih =>
    unfold turns
    split
    · next v closed hturn =>
      have hclosed := leaves_turn h hturn
      obtain ⟨rest, hrest⟩ := turns_eq_cons (ofFuel n) init test update body labels fuel
        (.after i.scope v update closed)
      have hchain := ih (Iteration.ready_after hclosed v update)
      dsimp only
      rw [hrest] at hchain ⊢
      exact .cons_cons ⟨⟨closed, hturn, rfl, Iteration.starts_after ..⟩, hclosed.2.2.1⟩ hchain
    · exact .singleton i
    · exact .singleton i

/-! ### The head -/

/-- A scope binds names by `let`, of which some have a value. -/
def binding (q : ScopeRef) (names valued : List String) (depth : Nat) : Standing depth where
  Holds s := depth ≤ s.callDepth ∧ q.index < s.scopes.environments.size ∧
    (∀ name ∈ names, ∃ value, (s.scopes.get q).bindings.lookup name = some ⟨.letVar, value⟩) ∧
    ∀ name ∈ valued, (s.scopes.get q).Lets name
  deep h := h.1
  lasts h hs := by
    have hkept := hs.scopes.environments _ h.2.1
    refine ⟨hs.callDepth ▸ h.1, Nat.lt_of_lt_of_le h.2.1 hs.scopes.size, fun name hname => ?_,
      fun name hname => hkept.lets (Set.notMem_empty _) (h.2.2.2 name hname)⟩
    obtain ⟨value, hvalue⟩ := h.2.2.1 name hname
    obtain ⟨⟨kind, value'⟩, hb, hkind, -⟩ := hkept.bindings name _ (Set.notMem_empty _) hvalue
    cases hkind
    exact ⟨value', hb⟩

theorem leaves_initialise {q : ScopeRef} {valued : List String} {name : String}
    (hname : name ∈ names) (v : Value) :
    Eval.Leaves (binding q names valued depth) (Eval.initialise q name v) fun _ s =>
      (binding q names (name :: valued) depth).Holds s := by
  intro s hs
  let filled : State := { s with scopes := s.scopes.modify q (·.initialise name v) }
  have hretains : s.Retains filled :=
    ⟨rfl, rfl, Scopes.keepsBut_modify (Environment.keepsBut_initialise _ name v)⟩
  obtain ⟨hdepth, hlt, hnames, hvalued⟩ := (binding q names valued depth).lasts hs hretains
  refine ⟨hretains, hdepth, hlt, hnames, List.forall_mem_cons.mpr ⟨?_, hvalued⟩⟩
  obtain ⟨old, hold⟩ := hs.2.2.1 name hname
  have hget : filled.scopes.get q = (s.scopes.get q).initialise name v :=
    Scopes.get_modify_self hs.2.1 _
  exact ⟨v, hget ▸ Environment.lookup_initialise hold v⟩

/-- An expression that is evaluated in a scope retains what is there. -/
theorem rests_named {I : Standing depth} {q : ScopeRef}
    (hlt : ∀ s, I.Holds s → q.index < s.scopes.environments.size) (e : Expr) (name : Units) :
    Eval.Rests I ((ofFuel n).named e q name) := by
  refine ⟨fun s hs => ?_⟩
  let a : Outset := ⟨.expr e, q, [], s.site.frames, s.callDepth⟩
  have hrests : Eval.Rests (a.standsAt q (.expr e)) ((ofFuel n).named e q name) := inferInstance
  exact hrests.leaves s ⟨Nat.le_refl _, fun _ => ⟨[], rfl, .self, .here (hlt s hs) (by simp [a])⟩⟩

/-- Declarations by `let` give all their names values. -/
theorem leaves_runLexical {q : ScopeRef} {declarators : List Declarator} {valued : List String}
    (h : ∀ d ∈ declarators, d.name ∈ names) :
    Eval.Leaves (binding q names valued depth) ((ofFuel n).runLexical declarators q) fun _ s =>
      ∀ name, name ∈ valued ∨ name ∈ Stmt.declaratorNames declarators →
        (s.scopes.get q).Lets name := by
  induction declarators generalizing valued with
  | nil =>
    refine fun s hs => ⟨.refl _ s, fun name hname => ?_⟩
    exact hs.2.2.2 name (hname.resolve_right List.not_mem_nil)
  | cons d rest ih =>
    have hd : d.name ∈ names := h d (by simp)
    have hlt (s : State) (hs : (binding q names valued depth).Holds s) :
        q.index < s.scopes.environments.size := hs.2.1
    refine .bind (J := fun _ => binding q names (d.name :: valued) depth) ?_ fun _ => ?_
    · dsimp only
      split
      · next e _ =>
        have hvalue : Eval.Rests (binding q names valued depth)
            ((ofFuel n).named e q d.name) := rests_named hlt e d.name
        exact .bind hvalue.keeps fun v => leaves_initialise hd v
      · exact leaves_initialise hd .undefined
    refine (ih fun d' hd' => h d' (List.mem_cons_of_mem d hd')).conseq fun _ s hs name hname => ?_
    refine hs name ?_
    simpa [Stmt.declaratorNames, or_assoc, or_comm, or_left_comm] using hname

/-- The head of a loop has bound its names in a scope of its own, and has run its initial values
there. -/
structure Heads (eng : Engine) (declarators : List Declarator) (head : ScopeRef) (s s₁ : State) :
    Prop where
  new : s.scopes.environments.size ≤ head.index
  initializer : ∃ s₀, Eval.within (.loop (.variables .letVar declarators)) head
    (eng.runLexical declarators head) s₀ = .ok () s₁
  holds : (holding head (Stmt.declaratorNames declarators) s.site.frames s.callDepth).Holds s₁

theorem exists_lookup_declareLexical {e : Environment} {bindings : List (String × VarKind)}
    {name : String} (hkind : ∀ b ∈ bindings, b.2 = .letVar)
    (h : name ∈ bindings.map Prod.fst ∨
      ∃ value, e.bindings.lookup name = some ⟨.letVar, value⟩) :
    ∃ value, (e.declareLexical bindings).bindings.lookup name = some ⟨.letVar, value⟩ := by
  induction bindings generalizing e with
  | nil => exact h.resolve_left List.not_mem_nil
  | cons b rest ih =>
    have hb : b.2.bindingKind = .letVar := congrArg VarKind.bindingKind (hkind b (by simp))
    refine ih (e := e.declare b.1 b.2.bindingKind) (fun b' hb' => hkind b' (by simp [hb'])) ?_
    by_cases hname : name = b.1
    · exact .inr ⟨none, by rw [hname, Environment.lookup_declare_self, hb]; rfl⟩
    · rw [Environment.lookup_declare_ne hname]
      exact h.imp_left fun hmem => (List.mem_cons.mp hmem).resolve_left hname

theorem heads_of_forHead {declarators : List Declarator} {scope head : ScopeRef} {own : Bool}
    {s s₁ : State}
    (h : (ofFuel n).forHead (.variables .letVar declarators) scope s = .ok (head, own) s₁) :
    own = true ∧ (ofFuel n).Heads declarators head s s₁ := by
  let names := Stmt.declaratorNames declarators
  let e : Environment := { parent := some scope }
  let bound := e.declareLexical (declarators.map fun d => (d.name, .letVar))
  let s₀ : State := { s with scopes := s.scopes.push bound }
  let q := s.scopes.next
  let x := Eval.within (.loop (.variables .letVar declarators)) q
    ((ofFuel n).runLexical declarators q)
  have hrun : (ofFuel n).forHead (.variables .letVar declarators) scope s =
      (x >>= fun _ => pure (q, true)) s₀ := by
    have hfilled := s.scopes.modify_push_next e
      (·.declareLexical (declarators.map fun d => (d.name, .letVar)))
    simp only [s₀, bound, ← hfilled]
    rfl
  have hlt : q.index < s₀.scopes.environments.size := by simp [s₀, q, Scopes.next, Scopes.push]
  have hnames : ∀ name ∈ names, ∃ value,
      (s₀.scopes.get q).bindings.lookup name = some ⟨.letVar, value⟩ := by
    intro name hname
    rw [Scopes.get_push_next]
    exact exists_lookup_declareLexical (by simp)
      (.inl (by simpa [names, Stmt.declaratorNames] using hname))
  have hinitial : Eval.Leaves (binding q names [] s.callDepth) ((ofFuel n).runLexical declarators q)
      fun _ s => ∀ name, name ∈ [] ∨ name ∈ names → (s.scopes.get q).Lets name :=
    leaves_runLexical fun d hd => List.mem_map_of_mem hd
  have hpost : Eval.Outcome ∅ s₀ (fun _ s => ∀ name ∈ names, (s.scopes.get q).Lets name) (x s₀) :=
    .atSite (hinitial _ ⟨Nat.le_refl _, hlt, hnames, by simp⟩)
      fun _ _ _ h name hname => h name (.inr hname)
  rw [hrun] at h
  change EStateM.bind _ _ s₀ = _ at h
  unfold EStateM.bind at h
  cases heq : x s₀ with
  | error e s' =>
    rw [heq] at h
    cases h
  | ok u s' =>
    rw [heq] at h hpost
    injection h with hvalue hstate
    injection hvalue with hhead hown
    subst hhead hown hstate
    obtain ⟨hkept, hlets⟩ := hpost
    exact ⟨rfl, Nat.le_refl _, ⟨s₀, heq⟩, hkept.callDepth.ge, congrArg Site.frames hkept.site,
      Nat.lt_of_lt_of_le hlt hkept.scopes.size, hlets⟩

/-! ### Fresh scopes -/

theorem fuel_ofFuel (n : Nat) : (ofFuel n).fuel = n := by
  cases n <;> rfl

theorem putValue_binding (eng : Engine) (q : ScopeRef) (name : String) (v : Value) (t : State) :
    ∃ strict, eng.putValue (.binding q name) v t = Eval.assignBinding q name v strict t :=
  ⟨_, rfl⟩

/-- Writing to a binding changes no other scope. -/
theorem get_putValue (eng : Engine) {q r : ScopeRef} (hr : r ≠ q) (name : String) (v : Value)
    (t : State) :
    ((eng.putValue (.binding q name) v).final t).scopes.get r = t.scopes.get r := by
  obtain ⟨strict, hrun⟩ := eng.putValue_binding q name v t
  rw [Eval.final, hrun, Eval.assignBinding, Eval.scopes_bind]
  cases (t.scopes.get q).set name v strict with
  | ok e =>
    obtain heq | ⟨heq, -⟩ := t.scopes.get_modify_cases q (fun _ => e) r
    · exact heq
    · exact absurd heq hr
  | error e => cases e <;> simp only [Eval.raiseBinding, Eval.raise_apply]

/-- Writing to a binding by `let` that has a value gives it the new one, and changes no other
binding. -/
theorem lookup_putValue (eng : Engine) {q : ScopeRef} {name : String} {t : State}
    (h : (t.scopes.get q).Lets name) (v : Value) :
    ∃ t', eng.putValue (.binding q name) v t = .ok () t' ∧
      (t'.scopes.get q).bindings.lookup name = some ⟨.letVar, some v⟩ ∧
      ∀ other, other ≠ name → (t'.scopes.get q).bindings.lookup other =
        (t.scopes.get q).bindings.lookup other := by
  obtain ⟨old, hold⟩ := h
  obtain ⟨strict, hrun⟩ := eng.putValue_binding q name v t
  have hlt : q.index < t.scopes.environments.size := by
    by_contra hnot
    rw [Scopes.get_of_not_lt hnot] at hold
    cases hold
  let e : Environment := { t.scopes.get q with
    bindings := Environment.put name ⟨.letVar, some v⟩ (t.scopes.get q).bindings }
  have hset : (t.scopes.get q).set name v strict = .ok e := by
    simp only [Environment.set, hold, e]
  refine ⟨{ t with scopes := t.scopes.modify q fun _ => e }, ?_, ?_, fun other hne => ?_⟩
  · rw [hrun, Eval.assignBinding, Eval.scopes_bind, hset]
    rfl
  · rw [Scopes.get_modify_self hlt]
    exact Environment.lookup_put_self _
  · rw [Scopes.get_modify_self hlt]
    exact Environment.lookup_put_ne hne _

/-- A part that is run with a turn. What stands around it between the loop and itself is known from
where the code that is being run stands. Each name of the turn that is not bound there stands for the
binding in the scope of the turn, which has a value. It does so in every later state too; older
scopes may bind more names then. -/
def Iteration.Hosts (i : Iteration) (init : ForInit) (test : Option Expr) (body : Stmt)
    (names : List String) (outer : List Frame) (part : Part) (q : ScopeRef) (t : State) : Prop :=
  ∃ frames, t.site.frames = frames ++ ⟨.loop init, i.scope⟩ :: outer ∧
    (∃ code ∈ i.code test body, code.Encloses (frames.map Frame.around) part) ∧
    ∀ name ∈ names, name ∉ frames.flatMap (·.around.names) → ∀ t',
      t.scopes.KeepsBut {x | x.1.index < i.scope.index} t'.scopes →
        Eval.resolve name q t' = .ok (.binding i.scope name) t' ∧
          (t'.scopes.get i.scope).Lets name

open Classical in
theorem directly_turn (h : i.Ready names outer) (fuel : Nat) :
    Directly (fun eng => eng.turn init test body labels i) (i.Hosts init test body names outer) fuel
      i.opened := by
  have hstays (code : Part) (hcode : code ∈ i.code test body) :
      (watched (Entry.inspect i.opened.callDepth (i.Hosts init test body names outer)) fuel).Stays
        (i.outset init names outer i.opened.callDepth code) :=
    Outset.stays_inspect _ (fun {frames _ _ _} hq => by
      refine ⟨frames, hq.site, ⟨code, hcode, hq.encloses⟩, fun name hname hinner t' ht' => ?_⟩
      have hleads := hq.leads.keep ht' fun _ hx => hx
      exact ⟨Eval.resolve_of_leads hleads hname hinner, hleads.lets hname⟩) fuel
  exact directly_of_rests (rests_turn hstays) h.holds

/-- The scopes of the turns are newer and newer. -/
theorem nodup_scopes {head : ScopeRef} (h : i.Ready names outer)
    (hhead : head.index < i.scope.index) :
    (head :: ((ofFuel n).turns init test update body labels fuel i).1.map
      Iteration.scope).Nodup := by
  obtain ⟨rest, hrest⟩ := turns_eq_cons (ofFuel n) init test update body labels fuel i
  have hchain := (chain_turns n init test update body labels fuel h).imp fun i j h => h.2
  rw [hrest] at hchain ⊢
  have hrising :
      ((head :: (i :: rest).map Iteration.scope).map ScopeRef.index).IsChain (· < ·) := by
    simp only [List.map_cons, List.map_map, List.isChain_cons_cons]
    exact ⟨hhead, (List.isChain_map _).mpr hchain⟩
  exact .of_map _ (hrising.pairwise.imp Nat.ne_of_lt)

open Classical in
/-- Each turn of a loop runs in a scope of its own, and means its bindings by the names of the head.

The scope of the first turn is a copy of the one that the initial values have been run in, as that
is when they have been run; the scope of a turn after another one is a copy of the scope of that, as
that is when the body has ended. All these scopes differ. Each time that the update, the test or the
body of a turn comes by itself, and not in a call, to an expression or a statement, every name of
the head that is not bound between the loop and that code stands for the binding in the scope of the
turn. Writing to such a binding gives it the value, and changes no other one. -/
theorem let_turns_fresh {declarators : List Declarator} {scope head : ScopeRef} {own : Bool}
    {s s₁ : State}
    (hhead : (ofFuel n).forHead (.variables .letVar declarators) scope s = .ok (head, own) s₁) :
    let init := ForInit.variables .letVar declarators
    let first := Iteration.after head .undefined none s₁
    let run := (ofFuel n).turns init test update body labels n first
    (ofFuel n).runFor init test update body scope labels s = run.2 ∧
    ((∃ s₀, Eval.within (.loop init) head ((ofFuel n).runLexical declarators head) s₀ =
      .ok () s₁) ∧ first.Starts head s₁) ∧
    run.1.IsChain ((ofFuel n).Follows init test update body labels) ∧
    (head :: run.1.map Iteration.scope).Nodup ∧
    ∀ i ∈ run.1,
      Directly (fun eng => eng.turn init test body labels i)
        (i.Hosts init test body (Stmt.declaratorNames declarators) s.site.frames) n i.opened ∧
      (∀ name t, (t.scopes.get i.scope).Lets name → ∀ v, ∃ t',
        (ofFuel n).putValue (.binding i.scope name) v t = .ok () t' ∧
          (t'.scopes.get i.scope).bindings.lookup name = some ⟨.letVar, some v⟩ ∧
          ∀ other, other ≠ name → (t'.scopes.get i.scope).bindings.lookup other =
            (t.scopes.get i.scope).bindings.lookup other) ∧
      ∀ name v t r, r ≠ i.scope →
        (((ofFuel n).putValue (.binding i.scope name) v).final t).scopes.get r =
          t.scopes.get r := by
  intro init first run
  obtain ⟨rfl, hheads⟩ := heads_of_forHead hhead
  have hready : first.Ready (Stmt.declaratorNames declarators) s.site.frames :=
    Iteration.ready_after hheads.holds .undefined none
  have hchain := chain_turns n init test update body labels n hready
  refine ⟨?_, ⟨hheads.initializer, Iteration.starts_after ..⟩, hchain.imp fun _ _ h => h.1,
    nodup_scopes hready hheads.holds.2.2.1,
    fun i hi => ⟨directly_turn (ready_of_mem_turns hready i hi) n,
      fun name t ht v => lookup_putValue _ ht v,
      fun name v t r hr => get_putValue _ hr name v t⟩⟩
  have hloop := loop_forTurn (ofFuel n) init test update body labels n first
  have hinit : (ofFuel n).forHead init scope s = .ok (head, true) s₁ := hhead
  rw [← hloop]
  unfold runFor
  change EStateM.bind _ _ s = _
  simp only [EStateM.bind, hinit, fuel_ofFuel]
  rfl

/-- Two closures, of `for (let on = true; on !== null; on = on ? false : null) (function () {
return on; });`. -/
theorem let_turns_fresh_closure :
    let on := Expr.identifier "on"
    let head := [⟨"on", some (.literal (.boolean true))⟩]
    let init := ForInit.variables .letVar head
    let test := Expr.binary .strictNotEq on (.literal .null)
    let update := Expr.assign .assign on
      (.conditional on (.literal (.boolean false)) (.literal .null))
    let body := Stmt.expression (.function
      ⟨none, .normal, [], [.returns (some on)], false, [], ""⟩)
    let s₁ := ((ofFuel 8).forHead init Intrinsic.globalScope).final State.initial
    let run := (ofFuel 8).turns init (some test) (some update) body [] 8
      (.after ⟨1⟩ .undefined none s₁)
    let closure (turn : Nat) : ObjectRef := ⟨State.initial.heap.objects.size + 2 * turn⟩
    let returns (turn : Nat) (v : Value) : Option Bool := (do
      let _ ← (ofFuel 8).runFor init (some test) (some update) body Intrinsic.globalScope []
      v.strictEquals <$> (ofFuel 8).call (closure turn) .undefined [] : Eval Bool).run' State.initial
    (ofFuel 8).forHead init Intrinsic.globalScope State.initial = .ok (⟨1⟩, true) s₁ ∧
      run.1.map Iteration.scope = [⟨2⟩, ⟨3⟩, ⟨4⟩] ∧
      (⟨1⟩ :: run.1.map Iteration.scope).Nodup ∧
      returns 0 (.boolean true) = some true ∧ returns 1 (.boolean false) = some true := by
  intro on head init test update body s₁ run closure returns
  have hhead : (ofFuel 8).forHead init Intrinsic.globalScope State.initial =
      .ok (⟨1⟩, true) s₁ := rfl
  obtain ⟨hscopes, hfirst, hsecond⟩ : run.1.map Iteration.scope = [⟨2⟩, ⟨3⟩, ⟨4⟩] ∧
      returns 0 (.boolean true) = some true ∧ returns 1 (.boolean false) = some true := by
    decide +kernel
  exact ⟨hhead, hscopes, (let_turns_fresh hhead).2.2.2.1, hfirst, hsecond⟩

end Engine

end Ecma
