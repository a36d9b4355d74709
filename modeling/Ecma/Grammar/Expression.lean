import Ecma.Grammar.Function

/-! Productions of expressions, from the loosest operators to the tightest. -/

namespace Ecma

open Parse

namespace Grammar

/-- The assignment operator of a token. -/
def assignOp? : TokenKind → Option AssignOp
  | .punctuator p =>
    match p with
    | .assign => some .assign
    | .plusAssign => some .addAssign
    | .minusAssign => some .subAssign
    | .starAssign => some .mulAssign
    | .slashAssign => some .divAssign
    | .percentAssign => some .modAssign
    | .exponentAssign => some .expAssign
    | .leftShiftAssign => some .lShiftAssign
    | .rightShiftAssign => some .rShiftAssign
    | .unsignedRightShiftAssign => some .uRShiftAssign
    | .ampersandAssign => some .bitAndAssign
    | .pipeAssign => some .bitOrAssign
    | .caretAssign => some .bitXorAssign
    | .logicalAndAssign => some .logicalAndAssign
    | .logicalOrAssign => some .logicalOrAssign
    | _ => none
  | _ => none

/-- A level of left-associative binary operators: the operator of each of its tokens. -/
abbrev BinaryLevel := TokenKind → Option BinaryOp

/-- The relational operators; `in` is one of them except in the head of a `for` statement. -/
def relational (noIn : Bool) : BinaryLevel
  | .punctuator .lessThan => some .lt
  | .punctuator .greaterThan => some .gt
  | .punctuator .lessThanEqual => some .ltEq
  | .punctuator .greaterThanEqual => some .gtEq
  | .keyword .instanceofKw => some .instanceOf
  | .keyword .inKw => if noIn then none else some .inside
  | _ => none

/-- The levels of binary operators, loosest first. -/
def binaryLevels (noIn : Bool) : List BinaryLevel :=
  [fun
    | .punctuator .pipe => some .bitOr
    | _ => none,
   fun
    | .punctuator .caret => some .bitXor
    | _ => none,
   fun
    | .punctuator .ampersand => some .bitAnd
    | _ => none,
   fun
    | .punctuator .equal => some .eq
    | .punctuator .notEqual => some .notEq
    | .punctuator .strictEqual => some .strictEq
    | .punctuator .strictNotEqual => some .strictNotEq
    | _ => none,
   relational noIn,
   fun
    | .punctuator .leftShift => some .lShift
    | .punctuator .rightShift => some .rShift
    | .punctuator .unsignedRightShift => some .uRShift
    | _ => none,
   fun
    | .punctuator .plus => some .add
    | .punctuator .minus => some .sub
    | _ => none,
   fun
    | .punctuator .star => some .mul
    | .punctuator .slash => some .div
    | .punctuator .percent => some .mod
    | _ => none]

/-- The tree that an operator with one operand builds. -/
def unaryOperator? : TokenKind → Option (Expr → Expr)
  | .keyword .deleteKw => some .delete
  | .keyword .voidKw => some .voidOf
  | .keyword .typeofKw => some .typeOf
  | .punctuator .plus => some (.unary .plus)
  | .punctuator .minus => some (.unary .minus)
  | .punctuator .tilde => some (.unary .bitNot)
  | .punctuator .bang => some (.unary .not)
  | _ => none

variable (g : Grammar)

/-- An expression inside another production. Comma expressions are not part of the language. -/
def nestedExpression : Parse Expr := do
  let e ← g.assignment
  if ← atPunct .comma then unsupported "Comma expressions"
  return e

/-- What may follow the object of a property access: a name, a private name, or a bracketed
expression. -/
def memberKey? : Parse (Option MemberKey) := do
  if ← atPunct .optionalChain then unsupported "Optional chains"
  if ← eat .leftBracket then
    let e ← allowIn g.nestedExpression
    expect .rightBracket
    return some (.computed e)
  if !(← eat .dot) then return none
  let t ← advance
  if t.isPropertyWord then return some (.dot t.text)
  if t.kind == .privateName then
    let name := (t.text.drop 1).toString
    referPrivate name t.location
    return some (.privateName name)
  unexpectedToken t

/-- Call arguments in parentheses. -/
def arguments : Parse (List Expr) := do
  expect .leftParen
  allowIn (loop (fun args => do
    if ← eat .rightParen then return .done args.reverse
    if ← atPunct .ellipsis then unsupported "Spread arguments"
    let e ← g.assignment
    if !(← atPunct .rightParen) then expect .comma
    return .again (e :: args)) g.fuel [])

/-- The kind of accessor that a property of an object literal starts with. -/
def accessorModifier : Parse (Option MethodKind) := do
  if ← atModifier "get" then
    skip
    return some .getter
  if ← atModifier "set" then
    skip
    return some .setter
  return none

/-- A property of an object literal from its name on. -/
def propertyRest (start : Nat) (keyToken : Token) (key : PropertyName) : Parse PropertyDef := do
  if ← atPunct .leftParen then
    return .method key (← g.functionRest none .method start true false)
  if ← eat .colon then return .init key (← g.assignment)
  match key with
  | .identifier name =>
    if ← atPunct .assign then unsupported "Destructuring assignments"
    match keyToken.kind with
    | .identifier => checkReference keyToken
    | .keyword .letKw => if ← strict then unexpectedToken keyToken
    | _ => unexpectedToken keyToken
    return .init key (.identifier name)
  | _ => unexpected

/-- A property of an object literal. -/
def objectProperty : Parse PropertyDef := do
  let start ← location
  if ← atPunct .ellipsis then unsupported "Object spread properties"
  if ← atPunct .star then unsupported "Generator methods"
  let accessor ← accessorModifier
  let keyToken ← peek
  let key ← g.propertyName
  match accessor with
  | some .getter =>
    let f ← g.functionRest none .method start.offset true false
    checkArity f .getter keyToken.location
    return .getter key f
  | some kind =>
    let f ← g.functionRest none .method start.offset true false
    checkArity f kind keyToken.location
    return .setter key f
  | none => g.propertyRest start.offset keyToken key

/-- An object literal. -/
def objectLiteral : Parse Expr := do
  expect .leftBrace
  allowIn (loop (fun properties => do
    if ← eat .rightBrace then return .done (.object properties.reverse)
    let property ← g.objectProperty
    if !(← atPunct .rightBrace) then expect .comma
    return .again (property :: properties)) g.fuel [])

/-- An expression in parentheses, after the opening one. -/
def parenthesized : Parse Expr := do
  if (← atPunct .rightParen) && (← nthIs 1 .arrow) then unsupported "Arrow functions"
  let e ← allowIn g.nestedExpression
  expect .rightParen
  return e

/-- The expressions that no operator joins. -/
def primary : Parse Expr := do
  let t ← peek
  match t.kind with
  | .keyword .thisKw =>
    skip
    return .thisValue
  | .identifier =>
    checkReference t
    skip
    return .identifier t.text
  | .keyword .letKw =>
    if ← strict then unexpectedToken t
    skip
    return .identifier "let"
  | .nullLiteral =>
    skip
    return .literal .null
  | .booleanLiteral =>
    skip
    return .literal (.boolean (t.text == "true"))
  | .numericLiteral | .bigIntLiteral =>
    skip
    match ← numericValue t with
    | .number x => return .literal (.number x)
    | .bigInt i => return .literal (.bigInt i)
  | .stringLiteral =>
    skip
    return .literal (.string (← stringValue t))
  | .punctuator .leftParen =>
    skip
    g.parenthesized
  | .punctuator .leftBrace => g.objectLiteral
  | .punctuator .leftBracket => unsupported "Array literals"
  | .punctuator .slash | .punctuator .slashAssign => unsupported "Regular expression literals"
  | .keyword .functionKw => g.functionExpression
  | .keyword .classKw => return .classExpr (← g.classDefinition false)
  | _ => unexpectedToken t

/-- A property access of the parent class. -/
def superProperty : Parse Expr := do
  let start ← location
  skip
  if !(← read).superProperty then failAt .unexpectedSuper start
  match ← g.memberKey? with
  | none | some (.privateName _) => failAt .unexpectedSuper start
  | some key => return .superMember key

/-- Property accesses after an expression. -/
def memberChain (e : Expr) : Parse Expr :=
  loop (fun e => do
    match ← g.memberKey? with
    | some key => return .again (.member e key)
    | none => return .done e) g.fuel e

/-- A `new` expression after its keyword. Its arguments belong to the innermost `new` that has
none yet. -/
def newExpression : Parse Expr := do
  if ← atPunct .dot then unsupported "new.target expressions"
  let callee ← g.member
  let args ← if ← atPunct .leftParen then g.arguments else pure []
  return .construct callee args

/-- Property accesses and `new` expressions, without calls. -/
def memberExpression : Parse Expr := do
  let e ←
    if ← eatKeyword .newKw then g.newExpression
    else if ← atKeyword .superKw then g.superProperty
    else g.primary
  g.memberChain e

/-- A call of the parent constructor. -/
def superCallExpression : Parse Expr := do
  let start ← location
  skip
  if !(← read).superCall then failAt .unexpectedSuper start
  return .superCall (← g.arguments)

/-- Calls and property accesses after an expression. -/
def callChain (e : Expr) : Parse Expr :=
  loop (fun e => do
    if ← atPunct .leftParen then return .again (.call e (← g.arguments))
    match ← g.memberKey? with
    | some key => return .again (.member e key)
    | none => return .done e) g.fuel e

/-- Calls, property accesses and `new` expressions. -/
def leftHandSideExpression : Parse Expr := do
  let e ←
    if (← atKeyword .superKw) && (← nthIs 1 .leftParen) then g.superCallExpression
    else g.memberExpression
  g.callChain e

/-- The update operator that comes next. -/
def atUpdate? : Parse (Option UpdateOp) := do
  if ← atPunct .increment then return some .increment
  if ← atPunct .decrement then return some .decrement
  return none

/-- An expression with an update operator before or after it; one after it stands on the same
line. -/
def updateExpression : Parse Expr := do
  let start ← location
  match ← atUpdate? with
  | some op =>
    skip
    let e ← g.unary
    checkUpdateTarget true e start
    return .update op true e
  | none =>
    let e ← g.leftHandSideExpression
    if ← lineTerminatorBefore then return e
    match ← atUpdate? with
    | some op =>
      checkUpdateTarget false e start
      skip
      return .update op false e
    | none => return e

/-- Strict code cannot delete a variable, and a private name is never deleted. -/
def checkDelete (e : Expr) (location : Location) : Parse Unit := do
  match e with
  | .identifier _ => if ← strict then failAt .strictDelete location
  | .member _ (.privateName _) => failAt .privateDelete location
  | _ => return

/-- An expression with operators of one operand before it. -/
def unaryExpression : Parse Expr := do
  let t ← peek
  match unaryOperator? t.kind with
  | some build =>
    skip
    let e ← g.unary
    if t.kind == .keyword .deleteKw then checkDelete e t.location
    return build e
  | none => g.updateExpression

/-- Powers associate to the right, and their base has no operator of one operand in front. -/
def exponentiationExpression : Parse Expr := do
  if ((← peekKind?).bind unaryOperator?).isSome then
    let e ← g.unaryExpression
    if ← atPunct .exponent then fail .unaryBeforeExponentiation
    return e
  let base ← g.updateExpression
  if ← eat .exponent then return .binary .exp base (← g.exponentiation)
  return base

/-- Binary operators of the given levels, with powers as the tightest operands. -/
def binaryExpression : List BinaryLevel → Parse Expr
  | [] => g.exponentiationExpression
  | level :: tighter => do
    let first ← binaryExpression tighter
    loop (fun left => do
      match (← peekKind?).bind level with
      | some op =>
        skip
        return .again (.binary op left (← binaryExpression tighter))
      | none => return .done left) g.fuel first

/-- Conjunctions. -/
def logicalAnd : Parse Expr := do
  let levels := binaryLevels (← read).noIn
  let first ← g.binaryExpression levels
  loop (fun left => do
    if ← eat .logicalAnd then
      return .again (.logical .and left (← g.binaryExpression levels))
    return .done left) g.fuel first

/-- Disjunctions. -/
def logicalOr : Parse Expr := do
  let first ← g.logicalAnd
  let e ← loop (fun left => do
    if ← eat .logicalOr then return .again (.logical .or left (← g.logicalAnd))
    return .done left) g.fuel first
  if ← atPunct .nullishCoalescing then unsupported "Nullish coalescing expressions"
  return e

/-- Conditional expressions. -/
def conditionalExpression : Parse Expr := do
  let test ← g.logicalOr
  if !(← eat .question) then return test
  let yes ← allowIn g.assignment
  expect .colon
  let no ← g.assignment
  return .conditional test yes no

/-- Assignments associate to the right. -/
def assignmentExpression : Parse Expr := do
  let start ← location
  let left ← g.conditionalExpression
  if ← atPunct .arrow then unsupported "Arrow functions"
  if ← atPunct .nullishAssign then unsupported "Logical nullish assignments"
  match (← peekKind?).bind assignOp? with
  | none => return left
  | some op =>
    checkTarget left start
    skip
    return .assign op left (← g.assignment)

/-- An expression. -/
def expression : Parse Expr := do
  let e ← g.assignmentExpression
  if ← atPunct .comma then unsupported "Comma expressions"
  return e

end Grammar

end Ecma
