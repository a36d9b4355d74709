import Ecma.Grammar.Basic

/-! Productions of property names, functions and classes. -/

namespace Ecma

open Parse

/-- The spelling of a token that may name a property. -/
def Token.isPropertyWord (t : Token) : Bool :=
  match t.kind with
  | .identifier | .keyword _ | .booleanLiteral | .nullLiteral => true
  | _ => false

/-- A literal name of a property has the spelling; a computed one never has. -/
def PropertyName.is (key : PropertyName) (word : String) : Bool :=
  match key with
  | .identifier name => name == word
  | .string s => s == Units.ofString word
  | .number _ | .computed _ => false

namespace Grammar

variable (g : Grammar)

/-- The name of a property. -/
def propertyName : Parse PropertyName := do
  let t ← advance
  if t.isPropertyWord then return .identifier t.text
  match t.kind with
  | .stringLiteral => return .string (← stringValue t)
  | .numericLiteral | .bigIntLiteral =>
    match ← numericValue t with
    | .bigInt i => return .string (Units.ofString (IntegerFormat.write 10 i))
    | .number x => return .number x
  | .punctuator .leftBracket =>
    let key ← allowIn g.assignment
    expect .rightBracket
    return .computed key
  | _ => unexpectedToken t

/-- The token after a word such as `get` starts a property name, so the word is a modifier and no
name itself. -/
def modifiesNext : Parse Bool := do
  match ← peekNth? 1 with
  | none => return false
  | some t =>
    match t.kind with
    | .punctuator p => return p == .leftBracket
    | _ => return true

/-- The next token is the word, used as a modifier. -/
def atModifier (word : String) : Parse Bool := do
  if ← atWord word then modifiesNext else return false

/-- The parameters of a function. -/
def formalParameters : Parse (List String) := do
  expect .leftParen
  loop (fun params => do
    if ← eat .rightParen then return .done params.reverse
    if ← atPunct .ellipsis then unsupported "Rest parameters"
    let name ← bindingIdentifier
    if ← atPunct .assign then unsupported "Default parameters"
    if !(← atPunct .rightParen) then expect .comma
    return .again (name :: params)) g.fuel []

/-- The next token spells the strictness directive without escapes. -/
def atUseStrict : Parse Bool := do
  match ← peek? with
  | some t =>
    return t.kind == .stringLiteral && (t.text == "'use strict'" || t.text == "\"use strict\"")
  | none => return false

/-- A statement that consists of a string literal. -/
def isDirective : Stmt → Bool
  | .expression (.literal (.string _)) => true
  | _ => false

/-- The statements read so far, last one first, with whether they are all directives and whether
the code is strict from here on. -/
structure Prologue where
  statements : List Stmt
  leading : Bool
  strict : Bool

/-- The statements of a function or script, and whether they are strict code. -/
def body (item : Parse Stmt) : Parse (List Stmt × Bool) := do
  loop (fun (p : Prologue) => do
    if (← atEnd) || (← atPunct .rightBrace) then return .done (p.statements.reverse, p.strict)
    let useStrict ← atUseStrict
    let s ← withReader (fun c => { c with strict := p.strict }) item
    let leading := p.leading && isDirective s
    return .again ⟨s :: p.statements, leading, p.strict || (leading && useStrict)⟩)
    g.fuel ⟨[], true, ← strict⟩

/-- A list names an element twice. -/
def hasDuplicate : List String → Bool
  | [] => false
  | name :: rest => rest.contains name || hasDuplicate rest

/-- The parameters and the body of a function, and whether it is strict. A directive in the body
holds for the name and the parameters too. -/
def functionParts (name : Option String) (kind : FunctionKind) :
    Parse (List String × List Stmt × Bool) := do
  let start ← location
  let params ← g.formalParameters
  expect .leftBrace
  let (statements, isStrict) ← g.body g.item
  expect .rightBrace
  withReader (fun c => { c with strict := isStrict }) do
    for declared in name.toList ++ params do
      checkBinding declared start
  if (isStrict || kind != .normal) && hasDuplicate params then failAt .duplicateParameter start
  checkDeclarations true (params ++ Stmt.varNamesOf statements) statements
  return (params, statements, isStrict)

/-- A function from its parameters on; `start` is the offset of its first token. The names that are
declared in it are set apart from those around it. -/
def functionRest (name : Option String) (kind : FunctionKind) (start : Nat)
    (superProperty superCall : Bool) : Parse FunctionDef := do
  let outer ← varNames
  modify fun s => { s with declared := [] }
  let (params, statements, isStrict) ←
    withReader (fun c =>
      { c with
        noIn := false, inFunction := true, inIteration := false, inSwitch := false, labels := []
        superProperty, superCall })
      (g.functionParts name kind)
  let names ← varNames
  modify fun s => { s with declared := outer }
  return {
    name, kind, params
    body := statements
    strict := isStrict
    varNames := names
    source := ← sourceSince start }

/-- A getter has no parameter and a setter has one. -/
def checkArity (f : FunctionDef) (kind : MethodKind) (location : Location) : Parse Unit := do
  match kind with
  | .getter => if f.params.length ≠ 0 then failAt .getterArity location
  | .setter => if f.params.length ≠ 1 then failAt .setterArity location
  | .method => return

/-- A function expression. -/
def functionExpression : Parse Expr := do
  let start ← location
  expectKeyword .functionKw
  if ← atPunct .star then unsupported "Generator functions"
  let name ← if ← atPunct .leftParen then pure none else some <$> bindingIdentifier
  return .function (← g.functionRest name .normal start.offset false false)

/-- A function declaration. -/
def functionDeclaration : Parse Stmt := do
  let start ← location
  expectKeyword .functionKw
  if ← atPunct .star then unsupported "Generator functions"
  let name ← bindingIdentifier
  return .function (← g.functionRest (some name) .normal start.offset false false)

/-- A private name that a class has declared so far. -/
structure PrivateDeclaration where
  name : String
  kind : MethodKind
  isStatic : Bool

/-- The two kinds are a getter and a setter. -/
def isAccessorPair : MethodKind → MethodKind → Bool
  | .getter, .setter | .setter, .getter => true
  | _, _ => false

/-- A class may declare a private name again only to complete a getter with a setter or the other
way round. -/
def canDeclare (declared : List PrivateDeclaration) (d : PrivateDeclaration) : Bool :=
  match declared.filter fun other => other.name == d.name with
  | [] => true
  | [other] => isAccessorPair d.kind other.kind && other.isStatic == d.isStatic
  | _ => false

/-- What has been read of a class body, with the last element first. -/
structure ClassBody where
  constructorDef : Option FunctionDef
  elements : List ClassElement
  declared : List PrivateDeclaration

/-- The modifiers of a class element: whether it is static, and its kind. -/
def elementModifiers : Parse (Bool × MethodKind) := do
  if (← atWord "static") && (← nthIs 1 .leftBrace) then unsupported "Static initialization blocks"
  let isStatic ← atModifier "static"
  if isStatic then skip
  if ← atPunct .star then unsupported "Generator methods"
  if ← atModifier "async" then unsupported "Async methods"
  if ← atModifier "get" then
    skip
    return (isStatic, .getter)
  if ← atModifier "set" then
    skip
    return (isStatic, .setter)
  return (isStatic, .method)

/-- A class element has to be a method or an accessor. -/
def checkNotField : Parse Unit := do
  if !(← atPunct .leftParen) then unsupported "Class fields"

/-- An element under a private name. -/
def privateElement (start : Nat) (isStatic : Bool) (kind : MethodKind) (b : ClassBody) :
    Parse ClassBody := do
  let t ← advance
  let name := (t.text.drop 1).toString
  if name == "constructor" then failAt .privateConstructor t.location
  let d := ⟨name, kind, isStatic⟩
  if !canDeclare b.declared d then failAt (.duplicatePrivateName name) t.location
  checkNotField
  let f ← g.functionRest none .method start true false
  checkArity f kind t.location
  return { b with
    elements := .privateElement name kind f isStatic :: b.elements
    declared := b.declared ++ [d] }

/-- An element under a property name. -/
def publicElement (start : Nat) (isStatic : Bool) (kind : MethodKind) (derived : Bool)
    (b : ClassBody) : Parse ClassBody := do
  let keyLocation ← location
  let key ← g.propertyName
  checkNotField
  if !isStatic && key.is "constructor" then
    if kind != .method then failAt .constructorAccessor keyLocation
    if b.constructorDef.isSome then failAt .duplicateConstructor keyLocation
    let f ← g.functionRest none .classConstructor start true derived
    return { b with constructorDef := some f }
  if isStatic && key.is "prototype" then failAt .staticPrototype keyLocation
  let f ← g.functionRest none .method start true false
  checkArity f kind keyLocation
  return { b with elements := .publicElement key kind f isStatic :: b.elements }

/-- One element of a class. -/
def classElement (derived : Bool) (b : ClassBody) : Parse ClassBody := do
  let start ← location
  let (isStatic, kind) ← elementModifiers
  if ← atKind .privateName then g.privateElement start.offset isStatic kind b
  else g.publicElement start.offset isStatic kind derived b

/-- The elements of a class up to the closing brace. -/
def classElements (derived : Bool) : Parse ClassBody :=
  loop (fun b => do
    if ← eat .rightBrace then return .done { b with elements := b.elements.reverse }
    if ← eat .semicolon then return .again b
    return .again (← g.classElement derived b)) g.fuel ⟨none, [], []⟩

/-- The body of a class. The private names that it uses and does not declare have to be declared
by a class around it. -/
def classBody (derived : Bool) : Parse ClassBody := do
  let outer := (← get).references
  modify fun s => { s with references := [] }
  let b ← withReader (fun c => { c with inClass := true }) (g.classElements derived)
  let unresolved := (← get).references.filter fun r => !b.declared.any fun d => d.name == r.1
  if (← read).inClass then modify fun s => { s with references := outer ++ unresolved }
  else
    match unresolved with
    | (name, location) :: _ => failAt (.undeclaredPrivateName name) location
    | [] => modify fun s => { s with references := outer }
  return b

/-- A class from its name on, in strict code; `start` is the offset of its first token. -/
def classRest (isDeclaration : Bool) (start : Nat) : Parse ClassDef := do
  let nameless := (← atKeyword .extendsKw) || (← atPunct .leftBrace)
  if nameless && isDeclaration then unexpected
  let name ← if nameless then pure none else some <$> bindingIdentifier
  let heritage ← if ← eatKeyword .extendsKw then some <$> g.leftHandSide else pure none
  expect .leftBrace
  let b ← g.classBody heritage.isSome
  return {
    name, heritage
    constructorDef := b.constructorDef
    elements := b.elements
    source := ← sourceSince start }

/-- A class; all of it is strict code. -/
def classDefinition (isDeclaration : Bool) : Parse ClassDef := do
  let start ← location
  expectKeyword .classKw
  withReader (fun c => { c with strict := true }) (g.classRest isDeclaration start.offset)

end Grammar

end Ecma
