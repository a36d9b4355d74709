import Ecma.Object.Function

/-! Environments: the bindings of names in a scope, and the scopes around it. -/

namespace Ecma

/-- How a name was bound. Assigning to the name of a function expression has no effect in sloppy
code. -/
inductive BindingKind where
  | var
  | letVar
  | const
  | functionName
deriving Repr, DecidableEq, Inhabited

/-- The binding that a declaration makes. -/
def VarKind.bindingKind : VarKind → BindingKind
  | .var => .var
  | .letVar => .letVar
  | .const => .const

/-- A binding; it has no value before it is initialised. -/
structure Binding where
  kind : BindingKind
  value : Option Value
deriving Inhabited

/-- Why a name cannot be read or assigned. -/
inductive BindingError where
  | uninitialised
  | constant
  | missing
deriving Repr, DecidableEq

/-- The parts of a scope that belong to a function call; `this` is absent until a parent class has
made it. -/
structure FunctionScope where
  this : Option Value
  function : ObjectRef
  newTarget : Option ObjectRef
deriving Inhabited

/-- One scope. -/
structure Environment where
  bindings : List (String × Binding) := []
  parent : Option ScopeRef := none
  function : Option FunctionScope := none
  /-- The private names that the class of this scope declares. -/
  privateNames : List (String × PrivateName) := []
deriving Inhabited

namespace Environment

def has (e : Environment) (name : String) : Bool :=
  (e.bindings.lookup name).isSome

/-- The bindings with one of them put in or replaced. -/
def put (name : String) (b : Binding) : List (String × Binding) → List (String × Binding)
  | [] => [(name, b)]
  | entry :: rest => if entry.1 = name then (name, b) :: rest else entry :: put name b rest

/-- Makes a new binding; a `var` starts as undefined, every other one without a value. -/
def declare (e : Environment) (name : String) (kind : BindingKind) : Environment :=
  let value := if kind = .var then some .undefined else none
  { e with bindings := put name ⟨kind, value⟩ e.bindings }

/-- Makes a binding unless there is one. -/
def declareNew (e : Environment) (name : String) (kind : BindingKind) : Environment :=
  if e.has name then e else e.declare name kind

/-- Gives a binding its first value. -/
def initialise (e : Environment) (name : String) (value : Value) : Environment :=
  match e.bindings.lookup name with
  | some b => { e with bindings := put name { b with value := some value } e.bindings }
  | none => e

/-- The value of a name. -/
def get (e : Environment) (name : String) : Except BindingError Value :=
  match e.bindings.lookup name with
  | none => .error .missing
  | some ⟨_, none⟩ => .error .uninitialised
  | some ⟨_, some v⟩ => .ok v

/-- Assigns to a name. -/
def set (e : Environment) (name : String) (value : Value) (strict : Bool) :
    Except BindingError Environment :=
  match e.bindings.lookup name with
  | none => .error .missing
  | some ⟨_, none⟩ => .error .uninitialised
  | some ⟨.const, some _⟩ => .error .constant
  | some ⟨.functionName, some _⟩ => if strict then .error .constant else .ok e
  | some ⟨kind, some _⟩ => .ok { e with bindings := put name ⟨kind, some value⟩ e.bindings }

/-- A scope beside this one with the same bindings. -/
def copy (e : Environment) : Environment :=
  { bindings := e.bindings, parent := e.parent }

end Environment

/-- All scopes by reference; a scope is never removed. -/
structure Scopes where
  environments : Array Environment
deriving Inhabited

namespace Scopes

def empty : Scopes := ⟨#[]⟩

/-- The contents of a scope. -/
def get (s : Scopes) (r : ScopeRef) : Environment :=
  s.environments.getD r.index {}

/-- Changes the contents of a scope. -/
def modify (s : Scopes) (r : ScopeRef) (f : Environment → Environment) : Scopes :=
  ⟨s.environments.modify r.index f⟩

/-- The reference of the next scope. -/
def next (s : Scopes) : ScopeRef :=
  ⟨s.environments.size⟩

/-- Adds a scope. -/
def push (s : Scopes) (e : Environment) : Scopes :=
  ⟨s.environments.push e⟩

/-- The nearest of at most `fuel` scopes from `start` outwards that has a property. -/
def findFrom (s : Scopes) (p : Environment → Bool) : (fuel : Nat) → ScopeRef → Option ScopeRef
  | 0, _ => none
  | fuel + 1, r =>
    let e := s.get r
    if p e then some r
    else
      match e.parent with
      | some parent => findFrom s p fuel parent
      | none => none

/-- The nearest scope from `start` outwards that has a property. No chain of scopes is longer than
their number. -/
def find? (s : Scopes) (p : Environment → Bool) (start : ScopeRef) : Option ScopeRef :=
  s.findFrom p s.environments.size start

/-- The nearest scope that binds a name. -/
def findBinding? (s : Scopes) (name : String) (start : ScopeRef) : Option ScopeRef :=
  s.find? (·.has name) start

/-- The scope of the nearest function call. -/
def findFunction? (s : Scopes) (start : ScopeRef) : Option ScopeRef :=
  s.find? (·.function.isSome) start

/-- The private name that a spelling stands for. -/
def findPrivateName? (s : Scopes) (spelling : String) (start : ScopeRef) : Option PrivateName :=
  (s.find? (fun e => (e.privateNames.lookup spelling).isSome) start).bind fun r =>
    (s.get r).privateNames.lookup spelling

end Scopes

end Ecma
