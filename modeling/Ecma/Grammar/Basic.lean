import Ecma.Ast.Scope
import Ecma.Grammar.Error
import Ecma.Literal.NumericLiteral
import Ecma.Token.Stream
import Ecma.Turn

/-! The reading of syntax trees from tokens: what a production knows about its surroundings, what
it changes, and the steps that all productions share. A production either gives a tree and moves
on, or fails for good; nothing is tried twice. -/

namespace Ecma

/-- What surrounds the text that is being parsed. -/
structure Surroundings where
  /-- The characters of the whole source text. -/
  source : List Char
  strict : Bool
  inFunction : Bool
  inIteration : Bool
  inSwitch : Bool
  /-- The labels in force, and whether each is on a loop. -/
  labels : List (String × Bool)
  superProperty : Bool
  superCall : Bool
  /-- The text is the head of a `for` statement, where `in` is no operator. -/
  noIn : Bool
  /-- The text is in the body of a class, so private names may be used. -/
  inClass : Bool

/-- What parsing changes. -/
structure ParseState where
  /-- The tokens to come. -/
  tokens : TokenStream
  /-- The private names used in the innermost open class body so far. -/
  references : List (String × Location)
  /-- The names declared with `var` in the innermost open function or the script so far. -/
  declared : List String
  /-- The positions at which a semicolon was left out, last one first. -/
  omitted : List TokenStream

/-- Why a production gives no tree. -/
inductive ParseFailure where
  | rejected (e : SyntaxError)
  | exhausted

/-- A production of the grammar. -/
abbrev Parse := ReaderT Surroundings (StateT ParseState (Except ParseFailure))

namespace Parse

/-- Repeats a turn until it is done, at most `fuel` times. -/
def loop {α β : Type} (turn : α → Parse (Turn α β)) : (fuel : Nat) → α → Parse β
  | 0, _ => throw .exhausted
  | fuel + 1, a => do
    match ← turn a with
    | .again a => loop turn fuel a
    | .done b => return b

/-! ### Errors -/

/-- Rejects the text for a cause at a position. -/
def failAt {α : Type} (kind : SyntaxErrorKind) (location : Location) : Parse α :=
  throw (.rejected ⟨kind, location⟩)

/-- The position of the next token. -/
def location : Parse Location := do
  return (← get).tokens.location

/-- Rejects the text for a cause at the next token. -/
def fail {α : Type} (kind : SyntaxErrorKind) : Parse α := do
  failAt kind (← location)

/-- Rejects a construct that the language has but this engine has not. -/
def unsupported {α : Type} (construct : String) : Parse α :=
  fail (.unsupported construct)

/-- Rejects a token. -/
def unexpectedToken {α : Type} (t : Token) : Parse α :=
  failAt (.unexpectedToken t.shown) t.location

/-! ### Tokens -/

/-- The next token. -/
def peek? : Parse (Option Token) := do
  return (← get).tokens.peek?

/-- The category of the next token. -/
def peekKind? : Parse (Option TokenKind) := do
  return (← get).tokens.peekKind?

/-- Rejects the next token. -/
def unexpected {α : Type} : Parse α := do
  match ← peek? with
  | some t => unexpectedToken t
  | none => fail .unexpectedEnd

/-- The next token, which has to be there. -/
def peek : Parse Token := do
  match ← peek? with
  | some t => return t
  | none => fail .unexpectedEnd

/-- No token is left. -/
def atEnd : Parse Bool := do
  return (← get).tokens.isAtEnd

/-- A line terminator stands before the next token. -/
def lineTerminatorBefore : Parse Bool := do
  return (← get).tokens.lineTerminatorBefore

/-- The next token has the category. -/
def atKind (kind : TokenKind) : Parse Bool := do
  return (← get).tokens.check kind

/-- The next token is the punctuator. -/
def atPunct (p : Punctuator) : Parse Bool :=
  atKind (.punctuator p)

/-- The next token is the keyword. -/
def atKeyword (k : Keyword) : Parse Bool :=
  atKind (.keyword k)

/-- The next token is an identifier with the spelling of a word that is no keyword. -/
def atWord (word : String) : Parse Bool := do
  match ← peek? with
  | some t => return t.kind == .identifier && t.text == word
  | none => return false

/-- The token `n` places after the next one. -/
def peekNth? (n : Nat) : Parse (Option Token) := do
  return (← get).tokens.peekNth? n

/-- The token `n` places after the next one is the punctuator. -/
def nthIs (n : Nat) (p : Punctuator) : Parse Bool := do
  return (← peekNth? n).any fun t => t.kind == .punctuator p

/-- Takes the next token. -/
def advance : Parse Token := do
  match (← get).tokens.next? with
  | some (t, tokens) =>
    modify fun s => { s with tokens }
    return t
  | none => fail .unexpectedEnd

/-- Passes over the next token, if there is one. -/
def skip : Parse Unit := do
  match (← get).tokens.next? with
  | some (_, tokens) => modify fun s => { s with tokens }
  | none => return

/-- Takes the next token if it has the category. -/
def eatKind (kind : TokenKind) : Parse Bool := do
  if ← atKind kind then
    skip
    return true
  else return false

/-- Takes the next token if it is the punctuator. -/
def eat (p : Punctuator) : Parse Bool :=
  eatKind (.punctuator p)

/-- Takes the next token if it is the keyword. -/
def eatKeyword (k : Keyword) : Parse Bool :=
  eatKind (.keyword k)

/-- Takes the next token, which has to be the punctuator. -/
def expect (p : Punctuator) : Parse Unit := do
  if !(← eat p) then unexpected

/-- Takes the next token, which has to be the keyword. -/
def expectKeyword (k : Keyword) : Parse Unit := do
  if !(← eatKeyword k) then unexpected

/-- Goes on without a semicolon. -/
def omitSemicolon : Parse Unit :=
  modify fun s => { s with omitted := s.tokens :: s.omitted }

/-- A semicolon, which may be left out before a closing brace, at the end, and at the end of a
line. -/
def semicolon : Parse Unit := do
  if ← eat .semicolon then return
  if (← atEnd) || (← atPunct .rightBrace) || (← lineTerminatorBefore) then omitSemicolon
  else unexpected

/-- The characters of a text from one byte offset to another, where the text starts at `offset`. -/
def slice (start stop : Nat) (offset : Nat) : List Char → List Char
  | [] => []
  | c :: rest =>
    if stop ≤ offset then []
    else if offset < start then slice start stop (offset + c.utf8Size) rest
    else c :: slice start stop (offset + c.utf8Size) rest

/-- The source text from a byte offset to the end of the last token taken. -/
def sourceSince (start : Nat) : Parse String := do
  let stop := (← get).tokens.previousEnd
  return String.ofList (slice start stop 0 (← read).source)

/-! ### Surroundings -/

/-- The text is strict code. -/
def strict : Parse Bool := do
  return (← read).strict

/-- Parses with `in` as an operator, as inside brackets. -/
def allowIn {α : Type} (p : Parse α) : Parse α :=
  withReader (fun s => { s with noIn := false }) p

/-! ### Identifiers and literals -/

/-- Strict code rejects some words as identifiers. -/
def checkReference (t : Token) : Parse Unit := do
  if (← strict) && isStrictReservedWord t.text then failAt .strictReservedWord t.location

/-- Strict code also rejects `eval` and `arguments` as declared names. -/
def checkBinding (name : String) (location : Location) : Parse Unit := do
  if ← strict then
    if isStrictReservedWord name then failAt .strictReservedWord location
    if name == "eval" || name == "arguments" then failAt .strictEvalOrArguments location

/-- An identifier that is declared. -/
def bindingIdentifier : Parse String := do
  let t ← peek
  match t.kind with
  | .identifier =>
    checkBinding t.text t.location
    skip
    return t.text
  | .keyword .letKw =>
    if ← strict then unexpectedToken t
    skip
    return "let"
  | .punctuator .leftBracket | .punctuator .leftBrace => unsupported "Destructuring patterns"
  | _ => unexpectedToken t

/-- The value of a string literal token. -/
def stringValue (t : Token) : Parse Units := do
  match StringLiteral.value (← strict) t.text with
  | .ok s => return s
  | .error e => failAt (.literal e) t.location

/-- The value of a numeric literal token. -/
def numericValue (t : Token) : Parse Numeric := do
  if (← strict) && hasLeadingZero t.text.toList then failAt .strictOctalLiteral t.location
  return NumericLiteral.value t.text

/-! ### Early errors -/

/-- The first name that repeats a name before it or is taken otherwise. -/
def firstClash (taken seen : List String) : List String → Option String
  | [] => none
  | name :: rest =>
    if seen.contains name || taken.contains name then some name
    else firstClash taken (name :: seen) rest

/-- The name that makes a statement list invalid. At the top level of functions and scripts the
function declarations count as `var` declarations: they may repeat, but a lexical declaration may
not take their name. -/
def clash? (topLevel : Bool) (taken : List String) (body : List Stmt) : Option String :=
  if topLevel then
    let names := Stmt.lexicalNamesOf body
    (firstClash taken [] names).or
      (((Stmt.functionsOf body).filterMap FunctionDef.name).find? names.contains)
  else firstClash taken [] (Stmt.declaredNames body)

/-- Rejects a statement list that declares a name twice. -/
def checkDeclarations (topLevel : Bool) (taken : List String) (body : List Stmt) : Parse Unit := do
  match clash? topLevel taken body with
  | some name => fail (.duplicateDeclaration name)
  | none => return

/-- Rejects what cannot be assigned to. -/
def checkTarget (e : Expr) (location : Location) : Parse Unit := do
  match e with
  | .identifier name =>
    if (← strict) && (name == "eval" || name == "arguments") then
      failAt .strictEvalOrArguments location
  | .member .. | .superMember _ => return
  | .object _ => failAt (.unsupported "Destructuring assignments") location
  | _ => failAt .invalidAssignmentTarget location

/-- Rejects what cannot be counted up or down. -/
def checkUpdateTarget (first : Bool) (e : Expr) (location : Location) : Parse Unit := do
  match e with
  | .identifier _ | .member .. | .superMember _ => checkTarget e location
  | _ => failAt (.invalidUpdateTarget first) location

/-- A private name may only be used in the body of a class. -/
def referPrivate (name : String) (location : Location) : Parse Unit := do
  if (← read).inClass then
    modify fun s => { s with references := s.references ++ [(name, location)] }
  else failAt (.undeclaredPrivateName name) location

/-- The names declared with `var` so far. -/
def varNames : Parse (List String) := do
  return (← get).declared

/-- Collects a name that is declared with `var`. -/
def declareVar (name : String) : Parse Unit :=
  modify fun s => { s with declared := addName s.declared name }

end Parse

/-- The productions that contain themselves at some depth. Each is only used after a token has
been taken, so `fuel` productions inside each other are enough for `fuel` tokens. -/
structure Grammar where
  fuel : Nat
  assignment : Parse Expr
  exponentiation : Parse Expr
  unary : Parse Expr
  member : Parse Expr
  leftHandSide : Parse Expr
  item : Parse Stmt
  subStatement : Parse Stmt

end Ecma
