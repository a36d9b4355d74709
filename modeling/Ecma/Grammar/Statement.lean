import Ecma.Grammar.Expression

/-! Productions of statements. -/

namespace Ecma

open Parse

namespace Grammar

variable (g : Grammar)

/-- An expression in parentheses, as in the head of a statement. -/
def condition : Parse Expr := do
  expect .leftParen
  let e ← g.expression
  expect .rightParen
  return e

/-- The next tokens are `let` and the start of a declared name, so `let` is no variable. -/
def atLetDeclaration : Parse Bool := do
  if !(← atKeyword .letKw) then return false
  match ← peekNth? 1 with
  | none => return false
  | some t =>
    match t.kind with
    | .identifier | .keyword .letKw | .punctuator .leftBracket | .punctuator .leftBrace =>
      return true
    | _ => return false

/-- The next token is `let` and starts a declaration; in strict code it always does. -/
def atLet : Parse Bool := do
  if ← atLetDeclaration then return true
  return (← strict) && (← atKeyword .letKw)

/-- The next token starts a declaration, which is allowed in statement lists only. -/
def atDeclaration : Parse Bool := do
  match ← peekKind? with
  | some (.keyword .functionKw) | some (.keyword .classKw) | some (.keyword .constKw) =>
    return true
  | _ => atLet

/-- A `var` declaration collects its names, and no other declaration has the name `let`. -/
def bindName (kind : VarKind) (name : String) (location : Location) : Parse Unit := do
  if kind == .var then declareVar name
  else if name == "let" then failAt .letInLexicalBinding location

/-- The initial value of a variable, which may be left out. -/
def initializer? : Parse (Option Expr) := do
  if ← eat .assign then return some (← g.assignmentExpression)
  return none

/-- One name of a variable declaration with its initial value. -/
def declarator (kind : VarKind) (needsInit : Bool) : Parse Declarator := do
  let start ← location
  let name ← bindingIdentifier
  bindName kind name start
  let init ← g.initializer?
  if kind == .const && needsInit && init.isNone then fail .constWithoutInitializer
  return ⟨name, init⟩

/-- The names and initial values of a variable declaration. -/
def declarators (kind : VarKind) (needsInit : Bool) : Parse (List Declarator) :=
  loop (fun done => do
    let d ← g.declarator kind needsInit
    if ← eat .comma then return .again (d :: done)
    return .done (d :: done).reverse) g.fuel []

/-- A `var` statement. -/
def variableStatement : Parse Stmt := do
  expectKeyword .varKw
  let declarators ← g.declarators .var true
  semicolon
  return .variables .var declarators

/-- A `let` or `const` declaration. -/
def lexicalDeclaration : Parse Stmt := do
  let kind ←
    if ← eatKeyword .letKw then pure VarKind.letVar
    else
      expectKeyword .constKw
      pure VarKind.const
  let declarators ← g.declarators kind true
  semicolon
  return .variables kind declarators

/-- The statements of a block, with its braces. -/
def block : Parse (List Stmt) := do
  expect .leftBrace
  let statements ← loop (fun done => do
    if ← eat .rightBrace then return .done done.reverse
    if ← atEnd then fail .unexpectedEnd
    return .again ((← g.item) :: done)) g.fuel []
  checkDeclarations false (Stmt.varNamesOf statements) statements
  return statements

/-- A statement that consists of an expression. -/
def expressionStatement : Parse Stmt := do
  let e ← g.expression
  semicolon
  return .expression e

/-- After any further labels comes a loop, which starts `n` tokens ahead. -/
def labelsLoop (n : Nat) : (fuel : Nat) → Parse Bool
  | 0 => throw .exhausted
  | fuel + 1 => do
    match ← peekNth? n with
    | none => return false
    | some t =>
      if t.kind == .identifier && (← nthIs (n + 1) .colon) then labelsLoop (n + 2) fuel
      else
        match t.kind with
        | .keyword .forKw | .keyword .whileKw | .keyword .doKw => return true
        | _ => return false

/-- A statement with a label. -/
def labeledStatement : Parse Stmt := do
  let t ← advance
  checkReference t
  expect .colon
  let label := t.text
  if (← read).labels.any fun l => l.1 == label then failAt (.duplicateLabel label) t.location
  let isLoop ← labelsLoop 0 g.fuel
  let s ← withReader (fun c => { c with labels := c.labels ++ [(label, isLoop)] }) g.subStatement
  return .labeled label s

/-- An `if` statement. -/
def ifStatement : Parse Stmt := do
  expectKeyword .ifKw
  let test ← g.condition
  let yes ← g.subStatement
  if ← eatKeyword .elseKw then return .ifElse test yes (← g.subStatement)
  return .ifThen test yes

/-- The body of a loop. -/
def loopBody : Parse Stmt :=
  withReader (fun c => { c with inIteration := true }) g.subStatement

/-- A `while` statement. -/
def whileStatement : Parse Stmt := do
  expectKeyword .whileKw
  let test ← g.condition
  return .whileLoop test (← g.loopBody)

/-- A `do` statement; a semicolon after it is always optional. -/
def doStatement : Parse Stmt := do
  expectKeyword .doKw
  let s ← g.loopBody
  expectKeyword .whileKw
  let test ← g.condition
  let _ ← eat .semicolon
  return .doLoop s test

/-- The word that starts the declaration in the head of a `for` statement. -/
def forKind? : Parse (Option VarKind) := do
  if ← atKeyword .varKw then return some .var
  if ← atLet then return some .letVar
  if ← atKeyword .constKw then return some .const
  return none

/-- The first part of the head of a `for` statement. -/
def forInit : Parse ForInit := do
  if ← atPunct .semicolon then return .absent
  match ← forKind? with
  | some kind =>
    skip
    return .variables kind (← g.declarators kind false)
  | none => return .expression (← g.expression)

/-- A constant needs a value, and a lexical declaration binds each name once. -/
def checkForInit (init : ForInit) : Parse Unit := do
  match init with
  | .variables kind declarators =>
    if kind == .const && declarators.any fun d => d.init.isNone then fail .constWithoutInitializer
    if kind != .var then
      match firstClash [] [] (Stmt.declaratorNames declarators) with
      | some name => fail (.duplicateDeclaration name)
      | none => return
  | _ => return

/-- A part of the head of a `for` statement that may be left out before `stop`. -/
def optionalExpression (stop : Punctuator) : Parse (Option Expr) := do
  if ← atPunct stop then return none
  return some (← g.expression)

/-- A `for` statement. -/
def forStatement : Parse Stmt := do
  expectKeyword .forKw
  if ← atWord "await" then unsupported "for-await loops"
  expect .leftParen
  let init ← withReader (fun c => { c with noIn := true }) g.forInit
  if (← atKeyword .inKw) || (← atWord "of") then unsupported "for-in/for-of loops"
  checkForInit init
  expect .semicolon
  let test ← g.optionalExpression .semicolon
  expect .semicolon
  let update ← g.optionalExpression .rightParen
  expect .rightParen
  return .forLoop init test update (← g.loopBody)

/-- A `return` statement; its value starts on the same line. -/
def returnStatement : Parse Stmt := do
  let start ← location
  expectKeyword .returnKw
  if !(← read).inFunction then failAt .illegalReturn start
  let ends := (← atPunct .semicolon) || (← atPunct .rightBrace) || (← atEnd) ||
    (← lineTerminatorBefore)
  let value ← if ends then pure none else some <$> g.expression
  semicolon
  return .returns value

/-- A label on the same line as the keyword before it. -/
def label? : Parse (Option (String × Location)) := do
  if (← lineTerminatorBefore) || !(← atKind .identifier) then return none
  let t ← advance
  return some (t.text, t.location)

/-- A `break` statement leaves a labeled statement, or the innermost loop or `switch`. -/
def breakStatement : Parse Stmt := do
  let start ← location
  expectKeyword .breakKw
  let c ← read
  match ← label? with
  | some (label, labelLocation) =>
    if !(c.labels.any fun l => l.1 == label) then failAt (.undefinedLabel label) labelLocation
    semicolon
    return .breaks (some label)
  | none =>
    if !c.inIteration && !c.inSwitch then failAt .illegalBreak start
    semicolon
    return .breaks none

/-- A `continue` statement goes on with a labeled or the innermost loop. -/
def continueStatement : Parse Stmt := do
  let start ← location
  expectKeyword .continueKw
  let c ← read
  if !c.inIteration then failAt .illegalContinue start
  match ← label? with
  | some (label, labelLocation) =>
    match c.labels.find? fun l => l.1 == label with
    | none => failAt (.undefinedLabel label) labelLocation
    | some (_, isLoop) => if !isLoop then failAt .illegalContinue start
    semicolon
    return .continues (some label)
  | none =>
    semicolon
    return .continues none

/-- A `throw` statement; its value starts on the same line. -/
def throwStatement : Parse Stmt := do
  expectKeyword .throwKw
  if ← lineTerminatorBefore then fail .newlineAfterThrow
  let e ← g.expression
  semicolon
  return .throws e

/-- The parameter of a `catch` part, which may be left out. -/
def catchParameter : Parse (Option String) := do
  if ← eat .leftParen then
    let name ← bindingIdentifier
    expect .rightParen
    return some name
  return none

/-- The `catch` part of a `try` statement, if there is one. -/
def handler? : Parse (Option (Option String × List Stmt)) := do
  if !(← eatKeyword .catchKw) then return none
  let param ← catchParameter
  let statements ← g.block
  match param with
  | some name => checkDeclarations false [name] statements
  | none => pure ()
  return some (param, statements)

/-- The `finally` part of a `try` statement, if there is one. -/
def finalizer? : Parse (Option (List Stmt)) := do
  if ← eatKeyword .finallyKw then return some (← g.block)
  return none

/-- A `try` statement. -/
def tryStatement : Parse Stmt := do
  let start ← location
  expectKeyword .tryKw
  let statements ← g.block
  let handler ← g.handler?
  let finalizer ← g.finalizer?
  match handler, finalizer with
  | some (param, caught), some finals => return .tryCatchFinally statements param caught finals
  | some (param, caught), none => return .tryCatch statements param caught
  | none, some finals => return .tryFinally statements finals
  | none, none => failAt .tryWithoutCatchOrFinally start

/-- The statements of a clause of a `switch` statement. -/
def caseBody : Parse (List Stmt) :=
  loop (fun done => do
    let ends := (← atEnd) || (← atPunct .rightBrace) || (← atKeyword .caseKw) ||
      (← atKeyword .defaultKw)
    if ends then return .done done.reverse
    return .again ((← g.item) :: done)) g.fuel []

/-- The test of a clause, which the default clause has not. -/
def caseTest (seenDefault : Bool) : Parse (Option Expr) := do
  let start ← location
  if ← eatKeyword .caseKw then return some (← g.expression)
  if ← eatKeyword .defaultKw then
    if seenDefault then failAt .multipleDefaults start
    return none
  unexpected

/-- The clauses of a `switch` statement up to the closing brace. -/
def switchCases : Parse (List SwitchCase) :=
  loop (fun (done : List SwitchCase) => do
    if ← eat .rightBrace then return .done done.reverse
    let test ← g.caseTest (done.any fun c => c.test.isNone)
    expect .colon
    return .again (⟨test, ← g.caseBody⟩ :: done)) g.fuel []

/-- A `switch` statement; its clauses share one scope. -/
def switchStatement : Parse Stmt := do
  expectKeyword .switchKw
  let subject ← g.condition
  expect .leftBrace
  let cases ← withReader (fun c => { c with inSwitch := true }) g.switchCases
  checkDeclarations false (Stmt.varNamesOfCases cases) (cases.flatMap SwitchCase.body)
  return .switch subject cases

/-- A statement by its first token, which starts no declaration. -/
def statement (first : TokenKind) : Parse Stmt := do
  match first with
  | .punctuator .leftBrace => return .block (← g.block)
  | .punctuator .semicolon =>
    skip
    return .empty
  | .keyword .varKw => g.variableStatement
  | .keyword .ifKw => g.ifStatement
  | .keyword .whileKw => g.whileStatement
  | .keyword .doKw => g.doStatement
  | .keyword .forKw => g.forStatement
  | .keyword .returnKw => g.returnStatement
  | .keyword .breakKw => breakStatement
  | .keyword .continueKw => continueStatement
  | .keyword .throwKw => g.throwStatement
  | .keyword .tryKw => g.tryStatement
  | .keyword .switchKw => g.switchStatement
  | .keyword .withKw => unsupported "with statements"
  | .keyword .importKw | .keyword .exportKw => unsupported "Modules"
  | .keyword .debuggerKw =>
    skip
    semicolon
    return .debugger
  | .identifier => if ← nthIs 1 .colon then g.labeledStatement else g.expressionStatement
  | _ => g.expressionStatement

/-- A declaration. -/
def declaration (first : TokenKind) : Parse Stmt := do
  match first with
  | .keyword .functionKw => g.functionDeclaration
  | .keyword .classKw => return .classDecl (← g.classDefinition true)
  | .keyword .letKw | .keyword .constKw => g.lexicalDeclaration
  | _ => unexpected

/-- A statement or declaration of a statement list. -/
def statementListItem : Parse Stmt := do
  match ← peekKind? with
  | none => unexpected
  | some first => if ← atDeclaration then g.declaration first else g.statement first

/-- A statement where a declaration is not allowed, such as the body of a loop. -/
def singleStatement : Parse Stmt := do
  match ← peekKind? with
  | none => fail .unexpectedEnd
  | some first => if ← atDeclaration then fail .lexicalInSingleStatement else g.statement first

/-- Every production gives up. -/
def empty : Grammar where
  fuel := 0
  assignment := throw .exhausted
  exponentiation := throw .exhausted
  unary := throw .exhausted
  member := throw .exhausted
  leftHandSide := throw .exhausted
  item := throw .exhausted
  subStatement := throw .exhausted

/-- The productions up to a depth of nesting. -/
def ofFuel : Nat → Grammar
  | 0 => empty
  | n + 1 =>
    { fuel := n + 1
      assignment := fun c s => (ofFuel n).assignmentExpression c s
      exponentiation := fun c s => (ofFuel n).exponentiationExpression c s
      unary := fun c s => (ofFuel n).unaryExpression c s
      member := fun c s => (ofFuel n).memberExpression c s
      leftHandSide := fun c s => (ofFuel n).leftHandSideExpression c s
      item := fun c s => (ofFuel n).statementListItem c s
      subStatement := fun c s => (ofFuel n).singleStatement c s }

/-- A script: statements up to the end of the text. -/
def script : Parse Program := do
  let (statements, isStrict) ← g.body g.statementListItem
  if !(← atEnd) then unexpected
  checkDeclarations true (Stmt.varNamesOf statements) statements
  return ⟨statements, isStrict, ← varNames⟩

end Grammar

namespace Program

/-- The surroundings of a script. -/
def surroundings (source : String) : Surroundings where
  source := source.toList
  strict := false
  inFunction := false
  inIteration := false
  inSwitch := false
  labels := []
  superProperty := false
  superCall := false
  noIn := false
  inClass := false

/-- Reads a script from its tokens; no production is deeper than there are significant ones. -/
def read (source : String) (tokens : TokenStream) : Except ParseFailure (Program × ParseState) :=
  (Grammar.ofFuel (tokens.remaining + 1)).script (surroundings source) ⟨tokens, [], [], []⟩

/-- Parses a script from its tokens. -/
def ofTokens (source : String) (tokens : TokenStream) : Except ParseFailure Program :=
  (read source tokens).map Prod.fst

/-- Parses a script. -/
def parse (source : String) : Except SyntaxError Program :=
  match TokenStream.ofString source with
  | .error e => .error (.ofLexError e)
  | .ok tokens =>
    match ofTokens source tokens with
    | .ok program => .ok program
    | .error (.rejected e) => .error e
    | .error .exhausted => .error ⟨.unexpectedEnd, tokens.finish⟩

end Program

end Ecma
