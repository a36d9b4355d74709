import Ecma.Proofs.Run.Evaluator
import Ecma.Proofs.Syntax.Legal

/-! Jumps stay inside the code that has their target. Expressions, calls and constructions have a
value or throw. A legal statement ends only in ways that the statements around it provide for,
whatever the state it runs in and whatever the code that it calls does. -/

namespace Ecma

namespace Eval

variable {α β : Type} {x : Eval α} {P Q : α → Prop}

/-- Every value that an evaluation ends with has a property. -/
def Ends (x : Eval α) (Q : α → Prop) : Prop :=
  ∀ s a s', x s = .ok a s' → Q a

theorem Ends.mono (h : x.Ends P) (hQ : ∀ a, P a → Q a) : x.Ends Q :=
  fun s a s' heq => hQ a (h s a s' heq)

theorem Ends.pure {a : α} (h : Q a) : (pure a : Eval α).Ends Q := by
  intro s b s' heq
  cases heq
  exact h

theorem Ends.bind {f : α → Eval β} {Q : β → Prop} (hx : x.Ends P) (hf : ∀ a, P a → (f a).Ends Q) :
    (x >>= f).Ends Q := by
  intro s b s₂ heq
  change EStateM.bind x f s = _ at heq
  unfold EStateM.bind at heq
  split at heq
  · next a s₁ ha => exact hf a (hx s a s₁ ha) s₁ b s₂ heq
  · cases heq

/-- What was done before does not matter to how the last step ends. -/
theorem Ends.after {f : α → Eval β} {Q : β → Prop} (hf : ∀ a, (f a).Ends Q) : (x >>= f).Ends Q :=
  .bind (P := fun _ => True) (fun _ _ _ _ => trivial) fun a _ => hf a

theorem Ends.throw {e : Abrupt} : (throw e : Eval α).Ends Q := by
  intro s a s' heq
  cases heq

theorem Ends.inContext {c : Context} (h : x.Ends Q) : (inContext c x).Ends Q := by
  intro s a s' heq
  simp only [Eval.inContext] at heq
  split at heq
  · next s₁ hb =>
    cases heq
    exact h _ a s₁ hb
  · cases heq

theorem Ends.atSite {l : Site} (h : x.Ends Q) : (atSite l x).Ends Q := by
  intro s a s' heq
  simp only [Eval.atSite] at heq
  split at heq
  · next s₁ hb =>
    cases heq
    exact h _ a s₁ hb
  · cases heq

theorem Ends.within {a : Around} {q : ScopeRef} (h : x.Ends Q) : (within a q x).Ends Q :=
  .after fun _ => h.atSite

theorem Ends.catching {handler : Value → Eval α} (hx : x.Ends Q) (hh : ∀ v, (handler v).Ends Q) :
    (catching x handler).Ends Q := by
  intro s a s' heq
  simp only [Eval.catching] at heq
  split at heq
  · next v s₁ _ => exact hh v s₁ a s' heq
  · exact hx s a s' heq

theorem Ends.attempt (h : x.Ends Q) : (attempt x).Ends fun r => ∀ a, r = .ok a → Q a := by
  refine .catching (.bind h fun a ha => .pure ?_) fun v => .pure fun a heq => by cases heq
  intro b heq
  cases heq
  exact ha

/-- A property of the value that a loop is done with. -/
theorem Ends.loop {turn : α → Eval (Turn α β)} {Q : β → Prop}
    (h : ∀ a, (turn a).Ends fun t => ∀ b, t = .done b → Q b) (fuel : Nat) (a : α) :
    (loop turn fuel a).Ends Q := by
  induction fuel generalizing a with
  | zero => exact .throw
  | succ fuel ih =>
    refine .bind (h a) fun t ht => ?_
    cases t with
    | again a => exact ih a
    | done b => exact .pure (ht b rfl)

/-! ### Values and exceptions -/

/-- An outcome is a value with a property, an exception or a lack of fuel. -/
def Settles (Q : α → Prop) : EStateM.Result Abrupt State α → Prop
  | .ok a _ => Q a
  | .error e _ => e.Plain

/-- However an evaluation ends, it does not end as only statements do. -/
def Settled (x : Eval α) (Q : α → Prop) : Prop :=
  ∀ s, Settles Q (x s)

theorem Settled.of_ok (h : ∀ s, ∃ a s', x s = .ok a s') : x.Settled fun _ => True := by
  intro s
  obtain ⟨a, s', heq⟩ := h s
  rw [heq]
  trivial

theorem Settled.mono (hx : x.Settled P) (hQ : ∀ a, P a → Q a) : x.Settled Q := by
  intro s
  have hcode := hx s
  cases heq : x s with
  | ok a s' =>
    rw [heq] at hcode
    exact hQ a hcode
  | error e s' =>
    rw [heq] at hcode
    exact hcode

theorem Settled.bind {f : α → Eval β} {Q : β → Prop} (hx : x.Settled P)
    (hf : ∀ a, P a → (f a).Settled Q) : (x >>= f).Settled Q := by
  intro s
  have hfirst := hx s
  change Settles Q (EStateM.bind x f s)
  unfold EStateM.bind
  cases heq : x s with
  | ok a s' =>
    rw [heq] at hfirst
    exact hf a hfirst s'
  | error e s' =>
    rw [heq] at hfirst
    exact hfirst

theorem Settled.catching {handler : Value → Eval α} (hx : x.Settled Q)
    (hh : ∀ v, (handler v).Settled Q) : (catching x handler).Settled Q := by
  intro s
  have hfirst := hx s
  unfold Eval.catching
  split
  · next v s' _ => exact hh v s'
  · exact hfirst

theorem Settled.inContext (c : Context) (hx : x.Settled Q) : (inContext c x).Settled Q := by
  intro s
  have hcode := hx { s with contexts := c :: s.contexts }
  unfold Eval.inContext
  split <;> (next heq => rw [heq] at hcode; exact hcode)

theorem Settled.atSite (l : Site) (hx : x.Settled Q) : (atSite l x).Settled Q := by
  intro s
  have hcode := hx { s with site := l }
  unfold Eval.atSite
  split <;> (next heq => rw [heq] at hcode; exact hcode)

theorem Settled.ne_escaped (hx : x.Settled Q) (s : State) (ending : Completion) (s' : State) :
    x s ≠ .error (.escaped ending) s' := by
  intro heq
  have hcode := hx s
  rw [heq] at hcode
  exact hcode.ne_escaped ending rfl

/-- An ending that does not come need not be handled. -/
theorem Settled.onEscape_eq (hx : x.Settled Q) (handler : Completion → Eval α) :
    onEscape x handler = x := by
  funext s
  unfold onEscape
  split
  · next ending s' heq => exact absurd heq (hx.ne_escaped s ending s')
  · rfl

theorem settled_tryObject (o : ObjectRef) (step : ObjectData → Option ObjectData) :
    (tryObject o step).Settled fun _ => True := by
  refine .of_ok fun s => ?_
  unfold tryObject
  split <;> exact ⟨_, _, rfl⟩

theorem settled_put (o : ObjectRef) (key : PropertyKey) (d : Descriptor) :
    (put o key d).Settled fun _ => True := by
  intro s
  have htry := settled_tryObject o (·.define key d) s
  change Settles _ (EStateM.map _ _ s)
  unfold EStateM.map
  split
  · trivial
  · next heq =>
    change tryObject o (·.define key d) s = _ at heq
    rw [heq] at htry
    exact htry

theorem settled_newObject (prototype : Option ObjectRef) (kind : ObjectKind) :
    (newObject prototype kind).Settled fun _ => True :=
  .of_ok fun _ => ⟨_, _, rfl⟩

theorem settled_createFunction (f : FunctionDef) (q : ScopeRef) (home : Option ObjectRef)
    (kind : Option ConstructorKind) : (createFunction f q home kind).Settled fun _ => True :=
  .bind (P := fun _ => True) (.of_ok fun s => ⟨_, s, rfl⟩) fun _ _ =>
    .bind (settled_newObject _ _) fun _ _ => .bind (settled_put _ _ _) fun _ _ =>
      .of_ok fun _ => ⟨_, _, rfl⟩

theorem settled_instantiateFunction (f : FunctionDef) (q : ScopeRef) (name : Units) :
    (instantiateFunction f q name).Settled fun _ => True := by
  have hconstructor (o : ObjectRef) : (makeConstructor o).Settled fun _ => True :=
    .bind (settled_newObject _ _) fun _ _ => .bind (settled_put _ _ _) fun _ _ =>
      settled_put _ _ _
  exact .bind (settled_createFunction f q _ _) fun o _ => .bind (settled_put _ _ _) fun _ _ =>
    .bind (hconstructor o) fun _ _ => .of_ok fun _ => ⟨_, _, rfl⟩

theorem settled_setPrototype (o : ObjectRef) (prototype : Option ObjectRef) :
    (setPrototype o prototype).Settled fun _ => True := by
  refine .bind (P := fun _ => True) (.of_ok fun s => ⟨_, s, rfl⟩) fun accepts _ => ?_
  split <;> exact .of_ok fun _ => ⟨_, _, rfl⟩

end Eval

/-- Having a value or throwing is a discipline. -/
@[reducible]
def Discipline.settled : Discipline where
  World := Unit
  Later _ _ := True
  Callable _ _ := True
  callable_later _ _ := trivial
  Holds _ x Q := x.Settled fun a => Q a ()
  pure h _ := h () trivial
  throw := by
    intro _ _ e he _ _
    exact he
  bind hx hf := .bind hx fun a => hf a () trivial
  catching hx hh := .catching hx fun v => hh v ()
  heap _ := .of_ok fun s => ⟨_, s, rfl⟩
  isCallable _ := .mono (.of_ok fun s => ⟨_, s, rfl⟩) fun _ _ _ => trivial
  scopes _ := .of_ok fun s => ⟨_, s, rfl⟩
  isStrict := .of_ok fun s => ⟨_, s, rfl⟩
  newObject _ := Eval.settled_newObject _ _
  define _ _ _ _ _ := Eval.settled_tryObject _ _
  delete _ _ := Eval.settled_tryObject _ _
  preventExtensions _ := .of_ok fun _ => ⟨_, _, rfl⟩
  setPrototype := Eval.settled_setPrototype
  newSymbol _ := .of_ok fun _ => ⟨_, _, rfl⟩
  write _ := .of_ok fun _ => ⟨_, _, rfl⟩
  instantiate _ _ := .atSite _ (Eval.settled_instantiateFunction _ _ _)

instance : Discipline.settled.Complete where
  onEscape {_ _ _ handler} hx _ := (Eval.Settled.onEscape_eq hx handler).symm ▸ hx
  inContext c hx := .inContext c hx
  site := .of_ok fun s => ⟨_, s, rfl⟩
  atSite l hx := .atSite l hx
  inCall {α _ x} hx := by
    intro s
    have hraise : (Eval.raise .callDepth : Eval α).Obeys .settled := inferInstance
    have hcode := hx { s with callDepth := s.callDepth + 1 }
    unfold Eval.inCall
    split
    · exact hraise.holds () s
    · split <;> (next heq => rw [heq] at hcode; exact hcode)
  note _ := .of_ok fun _ => ⟨_, _, rfl⟩
  newScope _ := .of_ok fun _ => ⟨_, _, rfl⟩
  modifyScope _ _ := .of_ok fun _ => ⟨_, _, rfl⟩
  newPrivateName _ := .of_ok fun _ => ⟨_, _, rfl⟩
  newObject := Eval.settled_newObject
  createFunction := Eval.settled_createFunction
  restrict _ _ := Eval.settled_put _ _ _
  installPrivates _ _ := .of_ok fun _ => ⟨_, _, rfl⟩
  addPrivate _ _ := .of_ok fun _ => ⟨_, _, rfl⟩

namespace Eval

variable {α : Type} {x : Eval α}

theorem Obeys.settled (hx : x.Obeys .settled) : x.Settled fun _ => True :=
  hx.holds ()

/-- A lookout that has a value leaves no other ending. -/
theorem obeys_of_ok (h : ∀ s, ∃ a s', x s = .ok a s') : x.Obeys .settled :=
  ⟨fun _ => .of_ok h⟩

end Eval

/-! ### The endings that exits allow -/

namespace Exits

/-- How a statement may end. The labels `own` are those that a loop has taken: it is continued by
them itself. -/
def Allows (x : Exits) (own : List String) : Completion → Prop
  | .normal _ => True
  | .returned _ => x.inFunction = true
  | .broke none _ => x.inLoop = true ∨ x.inSwitch = true
  | .broke (some l) _ => ∃ isLoop, (l, isLoop) ∈ x.labels
  | .continued none _ => x.inLoop = true
  | .continued (some l) _ => (l, true) ∈ x.labels ∧ l ∉ own

variable {x : Exits} {own : List String} {c : Completion}

theorem Allows.withDefault (h : x.Allows own c) (v : Option Value) :
    x.Allows own (c.withDefault v) := by
  cases c with
  | normal _ => trivial
  | returned _ => exact h
  | broke l _ => cases l <;> exact h
  | continued l _ => cases l <;> exact h

/-- A loop goes on after the jumps that are its own, and ends with those that are not. -/
theorem Allows.afterBody (h : x.loop.Allows [] c) (labels : List String) (v : Value)
    {c' : Completion} (hdone : c.afterBody labels v = .done c') : x.Allows labels c' := by
  cases c with
  | normal _ => cases hdone
  | returned _ =>
    cases hdone
    exact h
  | broke l _ =>
    cases l with
    | none =>
      cases hdone
      trivial
    | some l =>
      cases hdone
      exact h
  | continued l _ =>
    cases l with
    | none => simp [Completion.afterBody] at hdone
    | some l =>
      simp only [Completion.afterBody, Option.all_some] at hdone
      split at hdone
      · cases hdone
      · next hl =>
        cases hdone
        exact ⟨h.1, by simpa using hl⟩

/-- A `break` to a label ends at it. A `continue` with the label has ended before, at its loop. -/
theorem Allows.leaveLabel {l : String} {isLoop : Bool} {inner : List String}
    (h : (x.label l isLoop).Allows inner c) (hown : own ⊆ inner) (hl : isLoop = true → l ∈ inner) :
    x.Allows own (c.leaveLabel l) := by
  cases c with
  | normal _ => trivial
  | returned _ => exact h
  | broke target v =>
    cases target with
    | none => exact h
    | some target =>
      simp only [Completion.leaveLabel]
      split
      · trivial
      · next hne =>
        obtain ⟨b, hmem⟩ := h
        rcases List.mem_append.mp hmem with hmem | hmem
        · exact ⟨b, hmem⟩
        · exact absurd (congrArg Prod.fst (List.mem_singleton.mp hmem)) hne
  | continued target v =>
    cases target with
    | none => exact h
    | some target =>
      refine ⟨?_, fun hmem => h.2 (hown hmem)⟩
      rcases List.mem_append.mp h.1 with hmem | hmem
      · exact hmem
      · obtain ⟨rfl, rfl⟩ := Prod.mk.inj (List.mem_singleton.mp hmem)
        exact absurd (hl rfl) h.2

theorem Allows.leaveSwitch (h : x.switch.Allows own c) : x.Allows own c.leaveSwitch := by
  cases c with
  | normal _ => trivial
  | returned _ => exact h
  | broke l _ =>
    cases l with
    | none => trivial
    | some l => exact h
  | continued l _ => cases l <;> exact h

/-- A script only ends normally. -/
theorem Allows.normal (h : Exits.ofScript.Allows own c) : ∃ v, c = .normal v := by
  cases c with
  | normal v => exact ⟨v, rfl⟩
  | returned _ => cases h
  | broke l _ =>
    cases l with
    | none => rcases h with h | h <;> cases h
    | some l => obtain ⟨_, hmem⟩ := h; cases hmem
  | continued l _ =>
    cases l with
    | none => cases h
    | some l => cases h.1

/-- The body of a function is never left by a jump. -/
theorem Allows.not_isJump (h : Exits.ofFunction.Allows own c) : c.isJump = false := by
  cases c with
  | normal _ => rfl
  | returned _ => rfl
  | broke l _ =>
    cases l with
    | none => rcases h with h | h <;> cases h
    | some l => obtain ⟨_, hmem⟩ := h; cases hmem
  | continued l _ =>
    cases l with
    | none => cases h
    | some l => cases h.1

end Exits

/-- The labels that a statement takes: a loop takes those before it. -/
def Stmt.ownLabels (t : Stmt) (labels : List String) : List String :=
  if t.isLoop then labels else []

namespace Engine

/-- The engine's statements end as the exits around them allow. -/
def Jumps (eng : Engine) : Prop :=
  ∀ {t : Stmt} {r : Rights} {x : Exits} (scope : ScopeRef) (labels : List String), t.Legal r x →
    (eng.statement t scope labels).Ends (x.Allows (t.ownLabels labels))

variable {eng : Engine} {r : Rights} {x : Exits} {body : List Stmt}

/-- A statement that is handed no labels has none of its own. -/
theorem Jumps.statement {t : Stmt} (heng : eng.Jumps) (ht : t.Legal r x) (scope : ScopeRef) :
    (eng.statement t scope []).Ends (x.Allows []) := by
  have h := heng scope [] ht
  rwa [show t.ownLabels [] = [] by simp [Stmt.ownLabels]] at h

/-! ### Lists and blocks -/

theorem ends_runList (heng : eng.Jumps) (scope : ScopeRef) (last : Option Value)
    (h : ∀ t ∈ body, t.Legal r x) : (eng.runList scope last body).Ends (x.Allows []) := by
  induction body generalizing last with
  | nil => exact .pure trivial
  | cons t rest ih =>
    refine .bind (heng.statement (h t (by simp)) scope) fun c hc => ?_
    split
    · exact ih _ fun u hu => h u (by simp [hu])
    · exact .pure (hc.withDefault last)

theorem ends_runBlock (heng : eng.Jumps) (scope : ScopeRef) (h : ∀ t ∈ body, t.Legal r x) :
    (eng.runBlock body scope).Ends (x.Allows []) :=
  .after fun _ => .within (ends_runList heng _ _ h)

/-! ### Conditions and loops -/

theorem ends_runIf {test : Expr} {yes : Stmt} (no : Option Stmt) (heng : eng.Jumps)
    (scope : ScopeRef) (hyes : yes.Legal r x) (hno : ∀ t ∈ no, t.Legal r x) :
    (eng.runIf test yes no scope).Ends (x.Allows []) := by
  refine .after fun b => ?_
  split
  · exact .bind (heng.statement hyes scope) fun c hc => .pure (hc.withDefault _)
  · cases no with
    | some no =>
      exact .bind (heng.statement (hno no rfl) scope) fun c hc => .pure (hc.withDefault _)
    | none => exact .pure trivial

theorem ends_whileTurn {test : Expr} {t : Stmt} (heng : eng.Jumps) (scope : ScopeRef)
    (labels : List String) (ht : t.Legal r x.loop) (v : Value) :
    (eng.whileTurn test t scope labels v).Ends fun turn => ∀ c, turn = .done c →
      x.Allows labels c := by
  refine .after fun b => ?_
  split
  · exact .bind (heng.statement ht scope) fun c hc => .pure fun c' => hc.afterBody labels v
  · refine .pure fun c hc => ?_
    cases hc
    trivial

theorem ends_doTurn {test : Expr} {t : Stmt} (heng : eng.Jumps) (scope : ScopeRef)
    (labels : List String) (ht : t.Legal r x.loop) (v : Value) :
    (eng.doTurn t test scope labels v).Ends fun turn => ∀ c, turn = .done c →
      x.Allows labels c := by
  refine .bind (heng.statement ht scope) fun c hc => ?_
  split
  · next c' hdone =>
    refine .pure fun c'' heq => ?_
    cases heq
    exact hc.afterBody labels v hdone
  · refine .after fun b => ?_
    split
    · exact .pure fun _ heq => by cases heq
    · refine .pure fun _ heq => ?_
      cases heq
      trivial

theorem ends_forTurn {init : ForInit} {test update : Option Expr} {t : Stmt} (heng : eng.Jumps)
    (fresh : Bool) (labels : List String) (ht : t.Legal r x.loop) (scope : ScopeRef) (v : Value) :
    (eng.forTurn init test update t fresh labels (scope, v)).Ends fun turn => ∀ c,
      turn = .done c → x.Allows labels c := by
  unfold forTurn
  -- Whether there is a test makes no difference to what follows.
  cases test
  all_goals
    refine .after fun again => ?_
    dsimp only
    split
    · refine .bind (.within (heng.statement ht scope)) fun c hc => ?_
      split
      · next c' hdone =>
        refine .pure fun c'' heq => ?_
        cases heq
        exact hc.afterBody labels v hdone
      · exact .after fun _ => .pure fun _ heq => by cases heq
    · refine .pure fun _ heq => ?_
      cases heq
      trivial

/-! ### Exceptions -/

theorem ends_runHandler {param : Option String} (heng : eng.Jumps) (scope : ScopeRef)
    (h : ∀ t ∈ body, t.Legal r x) (v : Value) :
    (eng.runHandler param body scope v).Ends (x.Allows []) :=
  .after fun _ => .after fun _ => .within (ends_runBlock heng _ h)

theorem ends_runCatch {param : Option String} {handler : List Stmt} (heng : eng.Jumps)
    (scope : ScopeRef) (hb : ∀ t ∈ body, t.Legal r x) (hh : ∀ t ∈ handler, t.Legal r x) :
    (eng.runCatch body param handler scope).Ends (x.Allows []) :=
  .catching (ends_runBlock heng scope hb) fun v => ends_runHandler heng scope hh v

theorem ends_withFinalizer {code finalizer : Eval Completion} (hc : code.Ends (x.Allows []))
    (hf : finalizer.Ends (x.Allows [])) : (withFinalizer code finalizer).Ends (x.Allows []) := by
  refine .bind (.attempt hc) fun ending hending => .bind hf fun c hfinal => ?_
  split
  · exact .pure (hending _ rfl)
  · exact .throw
  · exact .pure hfinal

theorem ends_finishTry {code : Eval Completion} (hc : code.Ends (x.Allows [])) :
    (finishTry code).Ends (x.Allows []) :=
  .bind hc fun _ h => .pure (h.withDefault _)

/-! ### Switches and labels -/

theorem ends_runCases {cases : List SwitchCase} (heng : eng.Jumps) (scope : ScopeRef) (v : Value)
    (h : ∀ k ∈ cases, k.Legal r x.switch) : (eng.runCases scope v cases).Ends (x.Allows []) := by
  induction cases generalizing v with
  | nil => exact .pure trivial
  | cons k rest ih =>
    obtain ⟨_, hbody⟩ := h k (by simp)
    refine .bind (ends_runList heng scope none hbody) fun c hc => ?_
    split
    · exact ih _ fun k hk => h k (by simp [hk])
    · exact .pure (hc.withDefault _).leaveSwitch

/-- The clauses that a `switch` chooses are its own from one of them on. -/
theorem ends_matchCases (subject : Value) (scope : ScopeRef) (cases : List SwitchCase) :
    (eng.matchCases subject scope cases).Ends fun chosen => ∀ ks ∈ chosen, ks <:+ cases := by
  induction cases with
  | nil => exact .pure (by simp)
  | cons k rest ih =>
    have weaken (chosen : Option (List SwitchCase)) (h : ∀ ks ∈ chosen, ks <:+ rest) :
        ∀ ks ∈ chosen, ks <:+ k :: rest :=
      fun ks hks => (h ks hks).trans (List.suffix_cons k rest)
    obtain ⟨test, body⟩ := k
    cases test with
    | none => exact ih.mono weaken
    | some test =>
      refine .after fun v => ?_
      split
      · exact .pure (by simp)
      · exact ih.mono weaken

/-- Where no clause is chosen, those from the default one on are run. -/
theorem suffix_chosen {chosen : Option (List SwitchCase)} {cases : List SwitchCase}
    (h : ∀ ks ∈ chosen, ks <:+ cases) : chosen.getD (defaultCases cases) <:+ cases := by
  cases chosen with
  | some ks => exact h ks rfl
  | none => exact List.dropWhile_suffix _

theorem ends_runSwitch {subject : Expr} {cases : List SwitchCase} (heng : eng.Jumps)
    (scope : ScopeRef) (h : ∀ k ∈ cases, k.Legal r x.switch) :
    (eng.runSwitch subject cases scope).Ends (x.Allows []) := by
  refine .after fun v => .after fun inner => .within ?_
  refine .bind (ends_matchCases v inner cases) fun chosen hchosen => ?_
  exact ends_runCases (r := r) heng inner _ fun k hk => h k ((suffix_chosen hchosen).subset hk)

/-- A label is handed to a loop behind it, and to nothing else that could be continued by it. -/
theorem ends_runLabeled {l : String} {isLoop : Bool} {t : Stmt} (heng : eng.Jumps)
    (scope : ScopeRef) (labels : List String) (hl : isLoop = true → t.isLoop = true)
    (ht : t.Legal r (x.label l isLoop)) :
    (eng.runLabeled l t scope labels).Ends (x.Allows ((Stmt.labeled l t).ownLabels labels)) := by
  refine .bind (heng scope _ ht) fun c hc => .pure (hc.leaveLabel ?_ ?_)
  · cases hloop : t.isLoop with
    | false => simp [Stmt.ownLabels, Stmt.isLoop, hloop]
    | true => simp [Stmt.ownLabels, Stmt.isLoop, hloop, Stmt.takesLabels_of_isLoop hloop]
  · intro htrue
    simp [Stmt.ownLabels, hl htrue, Stmt.takesLabels_of_isLoop (hl htrue)]

/-! ### All statements -/

/-- The step of the induction on fuel, one case for each kind of statement. -/
theorem ends_runKind (heng : eng.Jumps) {t : Stmt} (scope : ScopeRef) (labels : List String)
    (ht : t.Legal r x) : (eng.runKind t scope labels).Ends (x.Allows (t.ownLabels labels)) := by
  cases ht with
  | empty => exact .pure trivial
  | expression _ => exact .after fun _ => .pure trivial
  | block h => exact ends_runBlock heng scope h
  | «variables» _ => exact .after fun _ => .pure trivial
  | ifThen _ hy => exact ends_runIf none heng scope hy (by simp)
  | @ifElse _ _ _ _ no _ hy hn =>
    exact ends_runIf (some no) heng scope hy (by simpa using hn)
  | whileLoop _ hb => exact .loop (ends_whileTurn heng scope labels hb) _ _
  | doLoop hb _ => exact .loop (ends_doTurn heng scope labels hb) _ _
  | forLoop _ _ _ hb =>
    refine .after fun ⟨_, fresh⟩ => .after fun _ => .loop (fun ⟨scope, v⟩ => ?_) _ _
    exact ends_forTurn heng fresh labels hb scope v
  | @returns _ _ e hx _ =>
    cases e with
    | none => exact .pure hx
    | some e => exact .after fun _ => .pure hx
  | breaks h => exact .pure h
  | breaksLabel h => exact .pure h
  | continues h => exact .pure h
  | continuesLabel h => exact .pure ⟨h, by simp [Stmt.ownLabels, Stmt.isLoop]⟩
  | throws _ => exact .after fun _ => .throw
  | tryCatch hb hh => exact ends_finishTry (ends_runCatch heng scope hb hh)
  | tryFinally hb hf =>
    exact ends_finishTry (ends_withFinalizer (ends_runBlock heng scope hb)
      (ends_runBlock heng scope hf))
  | tryCatchFinally hb hh hf =>
    exact ends_finishTry (ends_withFinalizer (ends_runCatch heng scope hb hh)
      (ends_runBlock heng scope hf))
  | switch _ hc => exact ends_runSwitch heng scope hc
  | labeled hl hb => exact ends_runLabeled heng scope labels hl hb
  | debugger => exact .pure trivial
  | function _ => exact .pure trivial
  | classDecl _ => exact .after fun _ => .pure trivial

/-- No expression in a statement ends otherwise than it may. -/
theorem run_eq [eng.Abides .settled] (t : Stmt) (scope : ScopeRef) (labels : List String) :
    eng.run t scope labels = eng.runKind t scope labels :=
  (Eval.Obeys.settled inferInstance).onEscape_eq _

/-- A lookout that has a value each time does not change that expressions have one or throw. -/
theorem jumps_watched {watch : Entry → Eval Unit} (hwatch : ∀ entry, (watch entry).Obeys .settled)
    (n : Nat) : (watched watch n).Jumps := by
  induction n with
  | zero => exact fun _ _ _ => .throw
  | succ n ih =>
    intro t r x scope labels ht
    have := abides_watched hwatch n
    refine .after fun _ => ?_
    rw [run_eq]
    exact ends_runKind ih scope labels ht

instance (n : Nat) : (ofFuel n).Abides .settled :=
  watched_idle n ▸ abides_watched (fun _ => inferInstance) n

theorem jumps_ofFuel (n : Nat) : (ofFuel n).Jumps :=
  watched_idle n ▸ jumps_watched (fun _ => inferInstance) n

/-- A legal script ends normally, if it ends without an exception. -/
theorem ends_runProgram {p : Program} (hp : p.Legal) (n : Nat) :
    ((ofFuel n).runProgram p).Ends fun c => ∃ v, c = .normal v :=
  .inContext <| .atSite <| .after fun _ =>
    (ends_runList (jumps_ofFuel n) _ _ hp.body).mono fun _ h => h.normal

end Engine

end Ecma
