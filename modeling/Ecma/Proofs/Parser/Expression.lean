import Ecma.Proofs.Parser.State

/-! Expressions, functions and classes as changes of a parser. -/

namespace Ecma

/-- The productions that contain themselves at some depth, and the states in which a statement may
start: a parser that comes to a statement in any other state gives up. -/
structure Actions where
  admits : Parser → Bool
  fuel : Nat
  assignment : Action Expr
  exponentiation : Action Expr
  unary : Action Expr
  member : Action Expr
  leftHandSide : Action Expr
  item : Action Stmt
  subStatement : Action Stmt

/-- What has been read of a class body, with the last element first. -/
structure ClassParts where
  constructorDef : Option FunctionDef
  elements : List ClassElement

namespace Actions

open Parse Grammar
open Ecma.Action (allowIn)

variable (h : Actions)

/-! ### Functions -/

/-- The name of a property. -/
def propertyName : Action PropertyName := do
  let t ← advance
  if t.isPropertyWord then return .identifier t.text
  match t.kind with
  | .stringLiteral => return .string (← stringValue t)
  | .numericLiteral | .bigIntLiteral =>
    match ← numericValue t with
    | .bigInt i => return .string (Units.ofString (IntegerFormat.write 10 i))
    | .number x => return .number x
  | .punctuator .leftBracket =>
    let key ← allowIn h.assignment
    expect .rightBracket
    return .computed key
  | _ => unexpectedToken t

/-- The parameters of a function. -/
def formalParameters : Action (List String) := do
  expect .leftParen
  Action.loop (fun params => do
    if ← eat .rightParen then return .done params.reverse
    if ← atPunct .ellipsis then unsupported "Rest parameters"
    let name ← bindingIdentifier
    if ← atPunct .assign then unsupported "Default parameters"
    if !(← atPunct .rightParen) then expect .comma
    return .again (name :: params)) h.fuel []

/-- The statements of a function or script; a directive makes the code strict from there on. -/
def body (item : Action Stmt) : Action (List Stmt) :=
  Action.loop (fun (p : List Stmt × Bool) => do
    if (← atEnd) || (← atPunct .rightBrace) then return .done p.1.reverse
    let useStrict ← atUseStrict
    let s ← item
    let leading := p.2 && isDirective s
    if leading && useStrict then modify fun m => { m with strict := true }
    return .again (s :: p.1, leading)) h.fuel ([], true)

/-- The parameters and the body of a function, in a context of its own. -/
def functionParts (name : Option String) (kind : FunctionKind) :
    Action (List String × List Stmt) := do
  let start ← location
  let params ← h.formalParameters
  expect .leftBrace
  let statements ← h.body h.item
  expect .rightBrace
  for declared in name.toList ++ params do
    checkBinding declared start
  if ((← get).strict || kind != .normal) && hasDuplicate params then
    failAt .duplicateParameter start
  checkDeclarations true (params ++ (← get).varNames) statements
  return (params, statements)

/-- The parameters and the body of a function, its strictness and the names of its variables. What
holds around the function is put back behind it. -/
def functionContext (name : Option String) (kind : FunctionKind) (superProperty superCall : Bool) :
    Action ((List String × List Stmt) × Bool × List String) :=
  allowIn do
    let saved ← Action.enterFunction superProperty superCall
    let parts ← h.functionParts name kind
    return (parts, ← Action.exitFunction saved)

/-- A function from its parameters on; `start` is the offset of its first token. -/
def functionRest (name : Option String) (kind : FunctionKind) (start : Nat)
    (superProperty superCall : Bool) : Action FunctionDef := do
  let ((params, statements), isStrict, names) ←
    h.functionContext name kind superProperty superCall
  return {
    name, kind, params
    body := statements
    strict := isStrict
    varNames := names
    source := ← sourceSince start }

/-- A function expression. -/
def functionExpression : Action Expr := do
  let start ← location
  expectKeyword .functionKw
  if ← atPunct .star then unsupported "Generator functions"
  let name ← if ← atPunct .leftParen then pure none else some <$> bindingIdentifier
  return .function (← h.functionRest name .normal start.offset false false)

/-- A function declaration. -/
def functionDeclaration : Action Stmt := do
  let start ← location
  expectKeyword .functionKw
  if ← atPunct .star then unsupported "Generator functions"
  let name ← bindingIdentifier
  return .function (← h.functionRest (some name) .normal start.offset false false)

/-! ### Classes -/

/-- An element under a private name. -/
def privateElement (start : Nat) (isStatic : Bool) (kind : MethodKind) (b : ClassParts) :
    Action ClassParts := do
  let t ← advance
  let name := (t.text.drop 1).toString
  if name == "constructor" then failAt .privateConstructor t.location
  Action.declarePrivate ⟨name, kind, isStatic⟩ t.location
  checkNotField
  let f ← h.functionRest none .method start true false
  checkArity f kind t.location
  return { b with elements := .privateElement name kind f isStatic :: b.elements }

/-- An element under a property name. -/
def publicElement (start : Nat) (isStatic : Bool) (kind : MethodKind) (derived : Bool)
    (b : ClassParts) : Action ClassParts := do
  let keyLocation ← location
  let key ← h.propertyName
  checkNotField
  if !isStatic && key.is "constructor" then
    if kind != .method then failAt .constructorAccessor keyLocation
    if b.constructorDef.isSome then failAt .duplicateConstructor keyLocation
    let f ← h.functionRest none .classConstructor start true derived
    return { b with constructorDef := some f }
  if isStatic && key.is "prototype" then failAt .staticPrototype keyLocation
  let f ← h.functionRest none .method start true false
  checkArity f kind keyLocation
  return { b with elements := .publicElement key kind f isStatic :: b.elements }

/-- One element of a class. -/
def classElement (derived : Bool) (b : ClassParts) : Action ClassParts := do
  let start ← location
  let (isStatic, kind) ← elementModifiers
  if ← atKind .privateName then h.privateElement start.offset isStatic kind b
  else h.publicElement start.offset isStatic kind derived b

/-- The elements of a class up to the closing brace. -/
def classElements (derived : Bool) : Action ClassParts :=
  Action.loop (fun b => do
    if ← eat .rightBrace then return .done { b with elements := b.elements.reverse }
    if ← eat .semicolon then return .again b
    return .again (← h.classElement derived b)) h.fuel ⟨none, []⟩

/-- The body of a class. -/
def classBody (derived : Bool) : Action ClassParts := do
  Action.enterPrivateScope
  let b ← h.classElements derived
  Action.exitPrivateScope
  return b

/-- A class from its name on, in strict code; `start` is the offset of its first token. -/
def classRest (isDeclaration : Bool) (start : Nat) : Action ClassDef := do
  let nameless := (← atKeyword .extendsKw) || (← atPunct .leftBrace)
  if nameless && isDeclaration then unexpected
  let name ← if nameless then pure none else some <$> bindingIdentifier
  let heritage ← if ← eatKeyword .extendsKw then some <$> h.leftHandSide else pure none
  expect .leftBrace
  let b ← h.classBody heritage.isSome
  return {
    name, heritage
    constructorDef := b.constructorDef
    elements := b.elements
    source := ← sourceSince start }

/-- A class; all of it is strict code. -/
def classDefinition (isDeclaration : Bool) : Action ClassDef := do
  let start ← location
  expectKeyword .classKw
  let saved := (← get).strict
  modify fun m => { m with strict := true }
  let d ← h.classRest isDeclaration start.offset
  modify fun m => { m with strict := saved }
  return d

/-! ### Property accesses, arguments and object literals -/

/-- An expression inside another production. -/
def nestedExpression : Action Expr := do
  let e ← h.assignment
  if ← atPunct .comma then unsupported "Comma expressions"
  return e

/-- What may follow the object of a property access. -/
def memberKey? : Action (Option MemberKey) := do
  if ← atPunct .optionalChain then unsupported "Optional chains"
  if ← eat .leftBracket then
    let e ← allowIn h.nestedExpression
    expect .rightBracket
    return some (.computed e)
  if !(← eat .dot) then return none
  let t ← advance
  if t.isPropertyWord then return some (.dot t.text)
  if t.kind == .privateName then
    let name := (t.text.drop 1).toString
    Action.referPrivate name t.location
    return some (.privateName name)
  unexpectedToken t

/-- Call arguments in parentheses. -/
def arguments : Action (List Expr) := do
  expect .leftParen
  allowIn (Action.loop (fun args => do
    if ← eat .rightParen then return .done args.reverse
    if ← atPunct .ellipsis then unsupported "Spread arguments"
    let e ← h.assignment
    if !(← atPunct .rightParen) then expect .comma
    return .again (e :: args)) h.fuel [])

/-- A property of an object literal from its name on. -/
def propertyRest (start : Nat) (keyToken : Token) (key : PropertyName) : Action PropertyDef := do
  if ← atPunct .leftParen then
    return .method key (← h.functionRest none .method start true false)
  if ← eat .colon then return .init key (← h.assignment)
  match key with
  | .identifier name =>
    if ← atPunct .assign then unsupported "Destructuring assignments"
    match keyToken.kind with
    | .identifier => checkReference keyToken
    | .keyword .letKw => if ← strict then unexpectedToken keyToken
    | _ => unexpectedToken keyToken
    return .init key (.identifier name)
  | _ => unexpected

/-- A property of an object literal. -/
def objectProperty : Action PropertyDef := do
  let start ← location
  if ← atPunct .ellipsis then unsupported "Object spread properties"
  if ← atPunct .star then unsupported "Generator methods"
  let accessor ← accessorModifier
  let keyToken ← peek
  let key ← h.propertyName
  match accessor with
  | some .getter =>
    let f ← h.functionRest none .method start.offset true false
    checkArity f .getter keyToken.location
    return .getter key f
  | some kind =>
    let f ← h.functionRest none .method start.offset true false
    checkArity f kind keyToken.location
    return .setter key f
  | none => h.propertyRest start.offset keyToken key

/-- An object literal. -/
def objectLiteral : Action Expr := do
  expect .leftBrace
  allowIn (Action.loop (fun properties => do
    if ← eat .rightBrace then return .done (.object properties.reverse)
    let property ← h.objectProperty
    if !(← atPunct .rightBrace) then expect .comma
    return .again (property :: properties)) h.fuel [])

/-! ### Primary and member expressions -/

/-- An expression in parentheses, after the opening one. -/
def parenthesized : Action Expr := do
  if (← atPunct .rightParen) && (← nthIs 1 .arrow) then unsupported "Arrow functions"
  let e ← allowIn h.nestedExpression
  expect .rightParen
  return e

/-- The expressions that no operator joins. -/
def primary : Action Expr := do
  let t ← peek
  match t.kind with
  | .keyword .thisKw =>
    skip
    return .thisValue
  | .identifier =>
    checkReference t
    skip
    return .identifier t.text
  | .keyword .letKw =>
    if ← strict then unexpectedToken t
    skip
    return .identifier "let"
  | .nullLiteral =>
    skip
    return .literal .null
  | .booleanLiteral =>
    skip
    return .literal (.boolean (t.text == "true"))
  | .numericLiteral | .bigIntLiteral =>
    skip
    match ← numericValue t with
    | .number x => return .literal (.number x)
    | .bigInt i => return .literal (.bigInt i)
  | .stringLiteral =>
    skip
    return .literal (.string (← stringValue t))
  | .punctuator .leftParen =>
    skip
    h.parenthesized
  | .punctuator .leftBrace => h.objectLiteral
  | .punctuator .leftBracket => unsupported "Array literals"
  | .punctuator .slash | .punctuator .slashAssign => unsupported "Regular expression literals"
  | .keyword .functionKw => h.functionExpression
  | .keyword .classKw => return .classExpr (← h.classDefinition false)
  | _ => unexpectedToken t

/-- A property access of the parent class. -/
def superProperty : Action Expr := do
  let start ← location
  skip
  if !(← get).superProperty then failAt .unexpectedSuper start
  match ← h.memberKey? with
  | none | some (.privateName _) => failAt .unexpectedSuper start
  | some key => return .superMember key

/-- Property accesses after an expression. -/
def memberChain (e : Expr) : Action Expr :=
  Action.loop (fun e => do
    match ← h.memberKey? with
    | some key => return .again (.member e key)
    | none => return .done e) h.fuel e

/-- A `new` expression after its keyword. -/
def newExpression : Action Expr := do
  if ← atPunct .dot then unsupported "new.target expressions"
  let callee ← h.member
  let args ← if ← atPunct .leftParen then h.arguments else pure []
  return .construct callee args

/-- Property accesses and `new` expressions, without calls. -/
def memberExpression : Action Expr := do
  let e ←
    if ← eatKeyword .newKw then h.newExpression
    else if ← atKeyword .superKw then h.superProperty
    else h.primary
  h.memberChain e

/-- A call of the parent constructor. -/
def superCallExpression : Action Expr := do
  let start ← location
  skip
  if !(← get).superCall then failAt .unexpectedSuper start
  return .superCall (← h.arguments)

/-- Calls and property accesses after an expression. -/
def callChain (e : Expr) : Action Expr :=
  Action.loop (fun e => do
    if ← atPunct .leftParen then return .again (.call e (← h.arguments))
    match ← h.memberKey? with
    | some key => return .again (.member e key)
    | none => return .done e) h.fuel e

/-- Calls, property accesses and `new` expressions. -/
def leftHandSideExpression : Action Expr := do
  let e ←
    if (← atKeyword .superKw) && (← nthIs 1 .leftParen) then h.superCallExpression
    else h.memberExpression
  h.callChain e

/-! ### Operators -/

/-- An expression with an update operator before or after it. -/
def updateExpression : Action Expr := do
  let start ← location
  match ← atUpdate? with
  | some op =>
    skip
    let e ← h.unary
    checkUpdateTarget true e start
    return .update op true e
  | none =>
    let e ← h.leftHandSideExpression
    if ← lineTerminatorBefore then return e
    match ← atUpdate? with
    | some op =>
      checkUpdateTarget false e start
      skip
      return .update op false e
    | none => return e

/-- An expression with operators of one operand before it. -/
def unaryExpression : Action Expr := do
  let t ← peek
  match unaryOperator? t.kind with
  | some build =>
    skip
    let e ← h.unary
    if t.kind == .keyword .deleteKw then checkDelete e t.location
    return build e
  | none => h.updateExpression

/-- Powers associate to the right. -/
def exponentiationExpression : Action Expr := do
  if ((← peekKind?).bind unaryOperator?).isSome then
    let e ← h.unaryExpression
    if ← atPunct .exponent then fail .unaryBeforeExponentiation
    return e
  let base ← h.updateExpression
  if ← eat .exponent then return .binary .exp base (← h.exponentiation)
  return base

/-- Binary operators of the given levels, with powers as the tightest operands. -/
def binaryExpression : List BinaryLevel → Action Expr
  | [] => h.exponentiationExpression
  | level :: tighter => do
    let first ← binaryExpression tighter
    Action.loop (fun left => do
      match (← peekKind?).bind level with
      | some op =>
        skip
        return .again (.binary op left (← binaryExpression tighter))
      | none => return .done left) h.fuel first

/-- Binary operators of all levels; `in` is one of them unless the flag is set. -/
def operators : Action Expr := do
  h.binaryExpression (binaryLevels (← get).noIn)

/-- Conjunctions. -/
def logicalAnd : Action Expr := do
  let first ← h.operators
  Action.loop (fun left => do
    if ← eat .logicalAnd then return .again (.logical .and left (← h.operators))
    return .done left) h.fuel first

/-- Disjunctions. -/
def logicalOr : Action Expr := do
  let first ← h.logicalAnd
  let e ← Action.loop (fun left => do
    if ← eat .logicalOr then return .again (.logical .or left (← h.logicalAnd))
    return .done left) h.fuel first
  if ← atPunct .nullishCoalescing then unsupported "Nullish coalescing expressions"
  return e

/-- Conditional expressions. -/
def conditionalExpression : Action Expr := do
  let test ← h.logicalOr
  if !(← eat .question) then return test
  let yes ← allowIn h.assignment
  expect .colon
  let no ← h.assignment
  return .conditional test yes no

/-- Assignments associate to the right. -/
def assignmentExpression : Action Expr := do
  let start ← location
  let left ← h.conditionalExpression
  if ← atPunct .arrow then unsupported "Arrow functions"
  if ← atPunct .nullishAssign then unsupported "Logical nullish assignments"
  match (← peekKind?).bind assignOp? with
  | none => return left
  | some op =>
    checkTarget left start
    skip
    return .assign op left (← h.assignment)

/-- An expression. -/
def expression : Action Expr := do
  let e ← h.assignmentExpression
  if ← atPunct .comma then unsupported "Comma expressions"
  return e

end Actions

end Ecma
