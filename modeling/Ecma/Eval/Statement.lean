import Ecma.Eval.Expression

/-! Running statements. -/

namespace Ecma

namespace Completion

/-- What a loop does after its body: go on with a value, or end. The labels are those of the
loop. -/
def afterBody (labels : List String) (value : Value) : Completion → Turn Value Completion
  | .normal v => .again (v.getD value)
  | .continued label v =>
    if label.all labels.contains then .again (v.getD value)
    else .done (.continued label (some (v.getD value)))
  | .broke none v => .done (.normal (some (v.getD value)))
  | .broke (some label) v => .done (.broke (some label) (some (v.getD value)))
  | .returned v => .done (.returned v)

/-- What a labelled statement makes of its body: a `break` to the label ends here. -/
def leaveLabel (label : String) : Completion → Completion
  | .broke (some target) v => if target = label then .normal v else .broke (some target) v
  | c => c

/-- What a `switch` statement makes of its clauses: a `break` without a label ends here. -/
def leaveSwitch : Completion → Completion
  | .broke none v => .normal v
  | c => c

end Completion

namespace Stmt

/-- A statement that takes the labels before it: a loop, or another labelled statement. -/
def takesLabels : Stmt → Bool
  | .whileLoop .. | .doLoop .. | .forLoop .. | .labeled .. => true
  | _ => false

end Stmt

namespace Engine

variable (eng : Engine)

/-! ### Lists and blocks -/

/-- Runs statements in order. The value is that of the last one that has a value, or `last`. -/
def runList (scope : ScopeRef) (last : Option Value) : List Stmt → Eval Completion
  | [] => return .normal last
  | s :: rest => do
    match ← eng.statement s scope [] with
    | .normal v => runList scope (v <|> last) rest
    | c => return c.withDefault last

/-- Runs a block in a scope of its own. -/
def runBlock (body : List Stmt) (scope : ScopeRef) : Eval Completion := do
  let inner ← Eval.blockScope body scope
  Eval.within (.block body) inner (eng.runList inner none body)

/-! ### Declarations -/

/-- Assigns to the variables of a `var` declaration that have initial values. -/
def runVars (declarators : List Declarator) (scope : ScopeRef) : Eval Unit :=
  declarators.forM fun d =>
    match d.init with
    | none => return
    | some e => do
      let r ← Eval.resolve d.name scope
      let v ← eng.named e scope d.name
      eng.putValue r v

/-- Gives the variables of a `let` or `const` declaration their first values. -/
def runLexical (declarators : List Declarator) (scope : ScopeRef) : Eval Unit :=
  declarators.forM fun d => do
    let v ← match d.init with
      | some e => eng.named e scope d.name
      | none => pure .undefined
    Eval.initialise scope d.name v

/-- Runs a declaration of variables. -/
def runVariables (kind : VarKind) (declarators : List Declarator) (scope : ScopeRef) : Eval Unit :=
  if kind = .var then eng.runVars declarators scope else eng.runLexical declarators scope

/-- Runs a class declaration. -/
def runClass (c : ClassDef) (scope : ScopeRef) : Eval Unit := do
  let name := c.name.getD ""
  let o ← eng.evaluateClass c scope name
  Eval.initialise scope name (.object o)

/-! ### Conditions and loops -/

/-- Whether the value of an expression counts as true. -/
def holds (test : Expr) (scope : ScopeRef) : Eval Bool :=
  Value.isTruthy <$> eng.expr test scope

/-- Runs one of two statements; the value is undefined if there is none. -/
def runIf (test : Expr) (yes : Stmt) (no : Option Stmt) (scope : ScopeRef) : Eval Completion := do
  let c ← if ← eng.holds test scope then eng.statement yes scope []
    else match no with
      | some no => eng.statement no scope []
      | none => pure (.normal none)
  return c.withDefault (some .undefined)

/-- One turn of a `while` loop. -/
def whileTurn (test : Expr) (body : Stmt) (scope : ScopeRef) (labels : List String)
    (value : Value) : Eval (Turn Value Completion) := do
  if ← eng.holds test scope then
    return (← eng.statement body scope []).afterBody labels value
  else return .done (.normal (some value))

/-- One turn of a `do` loop. -/
def doTurn (body : Stmt) (test : Expr) (scope : ScopeRef) (labels : List String)
    (value : Value) : Eval (Turn Value Completion) := do
  match (← eng.statement body scope []).afterBody labels value with
  | .done c => return .done c
  | .again value =>
    if ← eng.holds test scope then return .again value
    else return .done (.normal (some value))

/-- A scope beside another one with the same bindings, if each turn has its own. -/
def nextScope (fresh : Bool) (scope : ScopeRef) : Eval ScopeRef := do
  if fresh then Eval.newScope (← Eval.scopes fun s => (s.get scope).copy) else return scope

/-- The end of one turn of a `for` loop: a new scope if each turn has its own, and the update. -/
def forUpdate (init : ForInit) (update : Option Expr) (fresh : Bool) (scope : ScopeRef) :
    Eval ScopeRef := do
  let next ← nextScope fresh scope
  update.forM fun e => discard (Eval.within (.loop init) next (eng.expr e next))
  return next

/-- One turn of a `for` loop. -/
def forTurn (init : ForInit) (test update : Option Expr) (body : Stmt) (fresh : Bool)
    (labels : List String) : ScopeRef × Value → Eval (Turn (ScopeRef × Value) Completion)
  | (scope, value) => do
    let again ← match test with
      | some test => Eval.within (.loop init) scope (eng.holds test scope)
      | none => pure true
    if again then
      let c ← Eval.within (.loop init) scope (eng.statement body scope [])
      match c.afterBody labels value with
      | .done c => return .done c
      | .again value => return .again (← eng.forUpdate init update fresh scope, value)
    else return .done (.normal (some value))

/-- Runs the first part of a `for` head; gives the scope of the loop, and whether each turn has a
copy of it. -/
def forHead (init : ForInit) (scope : ScopeRef) : Eval (ScopeRef × Bool) := do
  match init with
  | .absent => return (scope, false)
  | .expression e =>
    let _ ← eng.expr e scope
    return (scope, false)
  | .variables .var declarators =>
    eng.runVars declarators scope
    return (scope, false)
  | .variables kind declarators =>
    let inner ← Eval.innerScope scope
    Eval.modifyScope inner (·.declareLexical (declarators.map fun d => (d.name, kind)))
    Eval.within (.loop init) inner (eng.runLexical declarators inner)
    return (inner, kind == .letVar)

/-- Runs a `for` loop. -/
def runFor (init : ForInit) (test update : Option Expr) (body : Stmt) (scope : ScopeRef)
    (labels : List String) : Eval Completion := do
  let (head, fresh) ← eng.forHead init scope
  let first ← nextScope fresh head
  Eval.loop (eng.forTurn init test update body fresh labels) eng.fuel (first, .undefined)

/-! ### Exceptions -/

/-- Runs a handler on a thrown value. -/
def runHandler (param : Option String) (handler : List Stmt) (scope : ScopeRef) (thrown : Value) :
    Eval Completion := do
  let inner ← Eval.innerScope scope
  param.forM fun name =>
    Eval.modifyScope inner fun e => (e.declare name .letVar).initialise name thrown
  Eval.within (.handler param) inner (eng.runBlock handler inner)

/-- Runs a block, and a handler on what it throws. -/
def runCatch (block : List Stmt) (param : Option String) (handler : List Stmt) (scope : ScopeRef) :
    Eval Completion :=
  Eval.catching (eng.runBlock block scope) (eng.runHandler param handler scope)

/-- Runs a finalizer after code however that ends; unless it ends normally, it decides how all
ends. -/
def withFinalizer (code finalizer : Eval Completion) : Eval Completion := do
  let ending ← Eval.attempt code
  match ← finalizer, ending with
  | .normal _, .ok c => return c
  | .normal _, .error v => Eval.throwValue v
  | c, _ => return c

/-- Runs a `try` statement from its parts; the value is undefined if there is none. -/
def finishTry (code : Eval Completion) : Eval Completion := do
  return (← code).withDefault (some .undefined)

/-! ### Switch -/

/-- The clauses from the first one on whose test equals the subject. -/
def matchCases (subject : Value) (scope : ScopeRef) :
    List SwitchCase → Eval (Option (List SwitchCase))
  | [] => return none
  | ⟨none, _⟩ :: rest => matchCases subject scope rest
  | ⟨some test, body⟩ :: rest => do
    if subject.strictEquals (← eng.expr test scope) then return some (⟨some test, body⟩ :: rest)
    else matchCases subject scope rest

/-- The clauses from the default one on. -/
def defaultCases (cases : List SwitchCase) : List SwitchCase :=
  cases.dropWhile (·.test.isSome)

/-- Runs clauses in order until one ends otherwise than normally. -/
def runCases (scope : ScopeRef) (value : Value) : List SwitchCase → Eval Completion
  | [] => return .normal (some value)
  | c :: rest => do
    match ← eng.runList scope none c.body with
    | .normal v => runCases scope (v.getD value) rest
    | c => return (c.withDefault (some value)).leaveSwitch

/-- Runs a `switch` statement. -/
def runSwitch (subject : Expr) (cases : List SwitchCase) (scope : ScopeRef) : Eval Completion := do
  let v ← eng.expr subject scope
  let inner ← Eval.clausesScope cases scope
  Eval.within (.clauses cases) inner do
    let chosen ← eng.matchCases v inner cases
    eng.runCases inner .undefined (chosen.getD (defaultCases cases))

/-! ### All statements -/

/-- Runs the body of a labelled statement. -/
def runLabeled (label : String) (body : Stmt) (scope : ScopeRef) (labels : List String) :
    Eval Completion := do
  let inner := if body.takesLabels then labels ++ [label] else []
  return (← eng.statement body scope inner).leaveLabel label

/-- Runs a statement by its kind. -/
def runKind (s : Stmt) (scope : ScopeRef) (labels : List String) : Eval Completion :=
  match s with
  | .empty | .debugger | .function _ => return .normal none
  | .expression e => do return .normal (some (← eng.expr e scope))
  | .block body => eng.runBlock body scope
  | .variables kind declarators => do
    eng.runVariables kind declarators scope
    return .normal none
  | .classDecl c => do
    eng.runClass c scope
    return .normal none
  | .ifThen test yes => eng.runIf test yes none scope
  | .ifElse test yes no => eng.runIf test yes (some no) scope
  | .whileLoop test body =>
    Eval.loop (eng.whileTurn test body scope labels) eng.fuel .undefined
  | .doLoop body test => Eval.loop (eng.doTurn body test scope labels) eng.fuel .undefined
  | .forLoop init test update body => eng.runFor init test update body scope labels
  | .returns none => return .returned .undefined
  | .returns (some e) => do return .returned (← eng.expr e scope)
  | .breaks label => return .broke label none
  | .continues label => return .continued label none
  | .throws e => do Eval.throwValue (← eng.expr e scope)
  | .tryCatch block param handler => finishTry (eng.runCatch block param handler scope)
  | .tryFinally block finalizer =>
    finishTry (withFinalizer (eng.runBlock block scope) (eng.runBlock finalizer scope))
  | .tryCatchFinally block param handler finalizer =>
    finishTry (withFinalizer (eng.runCatch block param handler scope)
      (eng.runBlock finalizer scope))
  | .switch subject cases => eng.runSwitch subject cases scope
  | .labeled label body => eng.runLabeled label body scope labels

/-- Runs a statement in a scope; the labels are those that a loop may be continued by. A statement
ends as an expression in it that has no value and does not throw. -/
def run (s : Stmt) (scope : ScopeRef) (labels : List String) : Eval Completion :=
  Eval.onEscape (eng.runKind s scope labels) pure

end Engine

end Ecma
