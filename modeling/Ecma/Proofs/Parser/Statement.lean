import Ecma.Proofs.Parser.Expression

/-! Statements and scripts as changes of a parser. -/

namespace Ecma

namespace Actions

open Parse Grammar

variable (h : Actions)

/-! ### Declarations -/

/-- An expression in parentheses, as in the head of a statement. -/
def condition : Action Expr := do
  expect .leftParen
  let e ← h.expression
  expect .rightParen
  return e

/-- A `var` declaration collects its names, and no other declaration has the name `let`. -/
def bindName (kind : VarKind) (name : String) (location : Location) : Action Unit := do
  if kind == .var then Action.declareVar name
  else if name == "let" then failAt .letInLexicalBinding location

/-- The initial value of a variable, which may be left out. -/
def initializer? : Action (Option Expr) := do
  if ← eat .assign then return some (← h.assignmentExpression)
  return none

/-- One name of a variable declaration with its initial value. -/
def declarator (kind : VarKind) (needsInit : Bool) : Action Declarator := do
  let start ← location
  let name ← bindingIdentifier
  bindName kind name start
  let init ← h.initializer?
  if kind == .const && needsInit && init.isNone then fail .constWithoutInitializer
  return ⟨name, init⟩

/-- The names and initial values of a variable declaration. -/
def declarators (kind : VarKind) (needsInit : Bool) : Action (List Declarator) :=
  Action.loop (fun done => do
    let d ← h.declarator kind needsInit
    if ← eat .comma then return .again (d :: done)
    return .done (d :: done).reverse) h.fuel []

/-- A `var` statement. -/
def variableStatement : Action Stmt := do
  expectKeyword .varKw
  let declarators ← h.declarators .var true
  semicolon
  return .variables .var declarators

/-- A `let` or `const` declaration. -/
def lexicalDeclaration : Action Stmt := do
  let kind ←
    if ← eatKeyword .letKw then pure VarKind.letVar
    else
      expectKeyword .constKw
      pure VarKind.const
  let declarators ← h.declarators kind true
  semicolon
  return .variables kind declarators

/-! ### Blocks, labels and branches -/

/-- Rejects a statement list that declares a name twice; the names declared with `var` in it are
those collected since there were `first` of them. -/
def checkBlock (first : Nat) (statements : List Stmt) : Action Unit := do
  checkDeclarations false ((← get).varDeclarations.drop first) statements

/-- The statements of a block, with its braces. -/
def block : Action (List Stmt) := do
  expect .leftBrace
  let first := (← get).varDeclarations.length
  let statements ← Action.loop (fun done => do
    if ← eat .rightBrace then return .done done.reverse
    if ← atEnd then fail .unexpectedEnd
    return .again ((← h.item) :: done)) h.fuel []
  checkBlock first statements
  return statements

/-- A statement that consists of an expression. -/
def expressionStatement : Action Stmt := do
  let e ← h.expression
  semicolon
  return .expression e

/-- A statement with a label, which is in force in it only. -/
def labeledStatement : Action Stmt := do
  let t ← advance
  checkReference t
  expect .colon
  let label := t.text
  if (← get).labels.any fun l => l.1 == label then failAt (.duplicateLabel label) t.location
  let isLoop ← labelsLoop 0 h.fuel
  modify fun m => { m with labels := m.labels ++ [(label, isLoop)] }
  let s ← h.subStatement
  modify fun m => { m with labels := m.labels.dropLast }
  return .labeled label s

/-- An `if` statement. -/
def ifStatement : Action Stmt := do
  expectKeyword .ifKw
  let test ← h.condition
  let yes ← h.subStatement
  if ← eatKeyword .elseKw then return .ifElse test yes (← h.subStatement)
  return .ifThen test yes

/-! ### Loops -/

/-- The body of a loop. -/
def loopBody : Action Stmt := do
  modify fun m => { m with inIteration := m.inIteration + 1 }
  let s ← h.subStatement
  modify fun m => { m with inIteration := m.inIteration - 1 }
  return s

/-- A `while` statement. -/
def whileStatement : Action Stmt := do
  expectKeyword .whileKw
  let test ← h.condition
  return .whileLoop test (← h.loopBody)

/-- A `do` statement; a semicolon after it is always optional. -/
def doStatement : Action Stmt := do
  expectKeyword .doKw
  let s ← h.loopBody
  expectKeyword .whileKw
  let test ← h.condition
  let _ ← eat .semicolon
  return .doLoop s test

/-- The first part of the head of a `for` statement. -/
def forInit : Action ForInit := do
  if ← atPunct .semicolon then return .absent
  match ← forKind? with
  | some kind =>
    skip
    return .variables kind (← h.declarators kind false)
  | none => return .expression (← h.expression)

/-- A part of the head of a `for` statement that may be left out before `stop`. -/
def optionalExpression (stop : Punctuator) : Action (Option Expr) := do
  if ← atPunct stop then return none
  return some (← h.expression)

/-- A `for` statement. Behind the first part of its head `in` is an operator, whether or not it was
one before. -/
def forStatement : Action Stmt := do
  expectKeyword .forKw
  if ← atWord "await" then unsupported "for-await loops"
  expect .leftParen
  modify fun m => { m with noIn := true }
  let init ← h.forInit
  modify fun m => { m with noIn := false }
  if (← atKeyword .inKw) || (← atWord "of") then unsupported "for-in/for-of loops"
  checkForInit init
  expect .semicolon
  let test ← h.optionalExpression .semicolon
  expect .semicolon
  let update ← h.optionalExpression .rightParen
  expect .rightParen
  return .forLoop init test update (← h.loopBody)

/-! ### Jumps and handlers -/

/-- A `return` statement; its value starts on the same line. -/
def returnStatement : Action Stmt := do
  let start ← location
  expectKeyword .returnKw
  if !(← get).inFunction then failAt .illegalReturn start
  let ends := (← atPunct .semicolon) || (← atPunct .rightBrace) || (← atEnd) ||
    (← lineTerminatorBefore)
  let value ← if ends then pure none else some <$> h.expression
  semicolon
  return .returns value

/-- A `throw` statement; its value starts on the same line. -/
def throwStatement : Action Stmt := do
  expectKeyword .throwKw
  if ← lineTerminatorBefore then fail .newlineAfterThrow
  let e ← h.expression
  semicolon
  return .throws e

/-- The `catch` part of a `try` statement, if there is one. -/
def handler? : Action (Option (Option String × List Stmt)) := do
  if !(← eatKeyword .catchKw) then return none
  let param ← catchParameter
  let statements ← h.block
  match param with
  | some name => checkDeclarations false [name] statements
  | none => pure ()
  return some (param, statements)

/-- The `finally` part of a `try` statement, if there is one. -/
def finalizer? : Action (Option (List Stmt)) := do
  if ← eatKeyword .finallyKw then return some (← h.block)
  return none

/-- A `try` statement. -/
def tryStatement : Action Stmt := do
  let start ← location
  expectKeyword .tryKw
  let statements ← h.block
  let handler ← h.handler?
  let finalizer ← h.finalizer?
  match handler, finalizer with
  | some (param, caught), some finals => return .tryCatchFinally statements param caught finals
  | some (param, caught), none => return .tryCatch statements param caught
  | none, some finals => return .tryFinally statements finals
  | none, none => failAt .tryWithoutCatchOrFinally start

/-! ### Switches -/

/-- The statements of a clause of a `switch` statement. -/
def caseBody : Action (List Stmt) :=
  Action.loop (fun done => do
    let ends := (← atEnd) || (← atPunct .rightBrace) || (← atKeyword .caseKw) ||
      (← atKeyword .defaultKw)
    if ends then return .done done.reverse
    return .again ((← h.item) :: done)) h.fuel []

/-- The test of a clause, which the default clause has not. -/
def caseTest (seenDefault : Bool) : Action (Option Expr) := do
  let start ← location
  if ← eatKeyword .caseKw then return some (← h.expression)
  if ← eatKeyword .defaultKw then
    if seenDefault then failAt .multipleDefaults start
    return none
  unexpected

/-- The clauses of a `switch` statement up to the closing brace. -/
def switchCases : Action (List SwitchCase) :=
  Action.loop (fun (done : List SwitchCase) => do
    if ← eat .rightBrace then return .done done.reverse
    let test ← h.caseTest (done.any fun c => c.test.isNone)
    expect .colon
    return .again (⟨test, ← h.caseBody⟩ :: done)) h.fuel []

/-- A `switch` statement; its clauses share one scope. -/
def switchStatement : Action Stmt := do
  expectKeyword .switchKw
  let subject ← h.condition
  expect .leftBrace
  let first := (← get).varDeclarations.length
  modify fun m => { m with inSwitch := m.inSwitch + 1 }
  let cases ← h.switchCases
  modify fun m => { m with inSwitch := m.inSwitch - 1 }
  checkBlock first (cases.flatMap SwitchCase.body)
  return .switch subject cases

/-! ### Statement lists -/

/-- A statement by its first token, which starts no declaration. -/
def statement (first : TokenKind) : Action Stmt := do
  match first with
  | .punctuator .leftBrace => return .block (← h.block)
  | .punctuator .semicolon =>
    skip
    return .empty
  | .keyword .varKw => h.variableStatement
  | .keyword .ifKw => h.ifStatement
  | .keyword .whileKw => h.whileStatement
  | .keyword .doKw => h.doStatement
  | .keyword .forKw => h.forStatement
  | .keyword .returnKw => h.returnStatement
  | .keyword .breakKw => breakStatement
  | .keyword .continueKw => continueStatement
  | .keyword .throwKw => h.throwStatement
  | .keyword .tryKw => h.tryStatement
  | .keyword .switchKw => h.switchStatement
  | .keyword .withKw => unsupported "with statements"
  | .keyword .importKw | .keyword .exportKw => unsupported "Modules"
  | .keyword .debuggerKw =>
    skip
    semicolon
    return .debugger
  | .identifier => if ← nthIs 1 .colon then h.labeledStatement else h.expressionStatement
  | _ => h.expressionStatement

/-- A declaration. -/
def declaration (first : TokenKind) : Action Stmt := do
  match first with
  | .keyword .functionKw => h.functionDeclaration
  | .keyword .classKw => return .classDecl (← h.classDefinition true)
  | .keyword .letKw | .keyword .constKw => h.lexicalDeclaration
  | _ => unexpected

/-- A statement starts, which not every state may admit. -/
def start : Action Unit := do
  if !h.admits (← get) then throw .exhausted

/-- A statement or declaration of a statement list. -/
def statementListItem : Action Stmt := do
  h.start
  match ← peekKind? with
  | none => unexpected
  | some first => if ← atDeclaration then h.declaration first else h.statement first

/-- A statement where a declaration is not allowed, such as the body of a loop. -/
def singleStatement : Action Stmt := do
  h.start
  match ← peekKind? with
  | none => fail .unexpectedEnd
  | some first => if ← atDeclaration then fail .lexicalInSingleStatement else h.statement first

/-- The productions up to a depth of nesting, for a parser that reads statements in the given states
only. -/
def within (admits : Parser → Bool) : Nat → Actions
  | 0 =>
    { admits
      fuel := 0
      assignment := throw .exhausted
      exponentiation := throw .exhausted
      unary := throw .exhausted
      member := throw .exhausted
      leftHandSide := throw .exhausted
      item := throw .exhausted
      subStatement := throw .exhausted }
  | n + 1 =>
    { admits
      fuel := n + 1
      assignment := fun m => (within admits n).assignmentExpression m
      exponentiation := fun m => (within admits n).exponentiationExpression m
      unary := fun m => (within admits n).unaryExpression m
      member := fun m => (within admits n).memberExpression m
      leftHandSide := fun m => (within admits n).leftHandSideExpression m
      item := fun m => (within admits n).statementListItem m
      subStatement := fun m => (within admits n).singleStatement m }

/-- The productions up to a depth of nesting. -/
def ofFuel : Nat → Actions :=
  within fun _ => true

/-- A script: statements up to the end of the text. -/
def script : Action Program := do
  let statements ← h.body h.statementListItem
  if !(← atEnd) then unexpected
  checkDeclarations true (← get).varNames statements
  return ⟨statements, (← get).strict, (← get).varNames⟩

end Actions

namespace Parser

/-- A parser at the start of a script. -/
def initial (source : String) (tokens : TokenStream) : Parser where
  strict := false
  inFunction := false
  inIteration := 0
  inSwitch := 0
  labels := []
  superProperty := false
  superCall := false
  noIn := false
  source := source.toList
  tokens
  omitted := []
  varNames := []
  varDeclarations := []
  privateScopes := []

/-- Parses a script, by a parser that reads statements in the given states only. -/
def parse (admits : Parser → Bool) (source : String) : Except SyntaxError Program :=
  match TokenStream.ofString source with
  | .error e => .error (.ofLexError e)
  | .ok tokens =>
    match (Actions.within admits (tokens.remaining + 1)).script (initial source tokens) with
    | .ok (program, _) => .ok program
    | .error (.rejected e) => .error e
    | .error .exhausted => .error ⟨.unexpectedEnd, tokens.finish⟩

end Parser

end Ecma
