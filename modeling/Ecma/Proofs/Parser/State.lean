import Ecma.Grammar.Statement

/-! A parser that keeps in its state what the grammar takes from the surroundings: a production that
reads a part of its text in other surroundings sets the flags before it and puts back by hand,
behind it, those that it has set. Steps that only look at the flags and take tokens are those of the
grammar. -/

namespace Ecma

/-- What tells a parser how to read the text that comes. -/
structure Flags where
  strict : Bool
  inFunction : Bool
  /-- How many loops of the innermost function are open. -/
  inIteration : Nat
  /-- How many `switch` statements of the innermost function are open. -/
  inSwitch : Nat
  /-- The labels in force, and whether each is on a loop. -/
  labels : List (String × Bool)
  superProperty : Bool
  superCall : Bool
  /-- The text is the head of a `for` statement, where `in` is no operator. -/
  noIn : Bool

/-- The private names of an open class body. -/
structure PrivateScope where
  declared : List Grammar.PrivateDeclaration
  referenced : List (String × Location)

/-- The state of a parser. -/
structure Parser extends Flags where
  /-- The characters of the whole source text. -/
  source : List Char
  /-- The tokens to come. -/
  tokens : TokenStream
  /-- The positions at which a semicolon was left out, last one first. -/
  omitted : List TokenStream
  /-- The names declared with `var` in the innermost function or the script so far, each once. -/
  varNames : List String
  /-- The same names in source order, repeats included. -/
  varDeclarations : List String
  /-- The class bodies that are open, innermost first. -/
  privateScopes : List PrivateScope

namespace Parser

variable (m : Parser)

/-- What the flags say of the surroundings. -/
def surroundings : Surroundings where
  source := m.source
  strict := m.strict
  inFunction := m.inFunction
  inIteration := 0 < m.inIteration
  inSwitch := 0 < m.inSwitch
  labels := m.labels
  superProperty := m.superProperty
  superCall := m.superCall
  noIn := m.noIn
  inClass := !m.privateScopes.isEmpty

/-- The private names used in the innermost open class body so far. -/
def references : List (String × Location) :=
  m.privateScopes.head?.elim [] PrivateScope.referenced

/-- What productions of the grammar see of a parser. -/
def reading : ParseState :=
  ⟨m.tokens, m.references, m.varNames, m.omitted⟩

end Parser

/-- A production as a change of a parser. -/
abbrev Action := StateT Parser (Except ParseFailure)

/-- A step that only looks at the flags and takes tokens. -/
instance : MonadLift Parse Action where
  monadLift p m := (p m.surroundings m.reading).map fun r =>
    (r.1, { m with tokens := r.2.tokens, omitted := r.2.omitted })

/-- What does not cross the boundary of a function. -/
structure FunctionContext where
  strict : Bool
  inFunction : Bool
  inIteration : Nat
  inSwitch : Nat
  labels : List (String × Bool)
  superProperty : Bool
  superCall : Bool
  varNames : List String
  varDeclarations : List String

namespace Action

open Parse

/-- Repeats a turn until it is done, at most `fuel` times. -/
def loop {α β : Type} (turn : α → Action (Turn α β)) : (fuel : Nat) → α → Action β
  | 0, _ => throw .exhausted
  | fuel + 1, a => do
    match ← turn a with
    | .again a => loop turn fuel a
    | .done b => return b

/-- Parses with `in` as an operator, as inside brackets. -/
def allowIn {α : Type} (p : Action α) : Action α := do
  let saved := (← get).noIn
  modify fun m => { m with noIn := false }
  let a ← p
  modify fun m => { m with noIn := saved }
  return a

/-- Collects a name that is declared with `var`. -/
def declareVar (name : String) : Action Unit :=
  modify fun m => { m with
    varDeclarations := m.varDeclarations ++ [name]
    varNames := addName m.varNames name }

/-! ### Functions -/

/-- Starts a function: nothing around it is in force but strictness. -/
def enterFunction (superProperty superCall : Bool) : Action FunctionContext := do
  let m ← get
  set { m with
    inFunction := true, inIteration := 0, inSwitch := 0, labels := [], superProperty, superCall
    varNames := [], varDeclarations := [] }
  return {
    strict := m.strict
    inFunction := m.inFunction
    inIteration := m.inIteration
    inSwitch := m.inSwitch
    labels := m.labels
    superProperty := m.superProperty
    superCall := m.superCall
    varNames := m.varNames
    varDeclarations := m.varDeclarations }

/-- Goes back to the code around a function, and gives the strictness and the names of the
function. -/
def exitFunction (saved : FunctionContext) : Action (Bool × List String) := do
  let m ← get
  set { m with
    strict := saved.strict
    inFunction := saved.inFunction
    inIteration := saved.inIteration
    inSwitch := saved.inSwitch
    labels := saved.labels
    superProperty := saved.superProperty
    superCall := saved.superCall
    varNames := saved.varNames
    varDeclarations := saved.varDeclarations }
  return (m.strict, m.varNames)

/-! ### Private names -/

/-- A private name is declared in the innermost open class body. -/
def declarePrivate (d : Grammar.PrivateDeclaration) (location : Location) : Action Unit := do
  match (← get).privateScopes with
  | [] => failAt (.undeclaredPrivateName d.name) location
  | scope :: outer =>
    if !Grammar.canDeclare scope.declared d then failAt (.duplicatePrivateName d.name) location
    modify fun m => { m with
      privateScopes := { scope with declared := scope.declared ++ [d] } :: outer }

/-- A private name may only be used in the body of a class. -/
def referPrivate (name : String) (location : Location) : Action Unit := do
  match (← get).privateScopes with
  | [] => failAt (.undeclaredPrivateName name) location
  | scope :: outer => modify fun m => { m with
      privateScopes := { scope with referenced := scope.referenced ++ [(name, location)] } :: outer }

/-- Starts a class body. -/
def enterPrivateScope : Action Unit :=
  modify fun m => { m with privateScopes := ⟨[], []⟩ :: m.privateScopes }

/-- Private names that the body of a class uses and does not declare have to be declared by a class
around it. -/
def passOn (scope : PrivateScope) : Action Unit := do
  for r in scope.referenced do
    if !(scope.declared.any fun d => d.name == r.1) then referPrivate r.1 r.2

/-- Ends a class body. -/
def exitPrivateScope : Action Unit := do
  match (← get).privateScopes with
  | [] => return
  | scope :: outer =>
    modify fun m => { m with privateScopes := outer }
    passOn scope

end Action

end Ecma
