import Ecma.Eval.Error
import Ecma.Object.Heap
import Ecma.Scope.Environment
import Ecma.Turn

/-! The state of a running script, and the steps on it that run no script code: making objects and
scopes, throwing errors, entering and leaving calls. -/

namespace Ecma

/-! ### Fixed places -/

namespace Intrinsic

def objectPrototype : ObjectRef := ⟨0⟩
def functionPrototype : ObjectRef := ⟨1⟩
def errorPrototype : ErrorKind → ObjectRef
  | .error => ⟨2⟩
  | .type => ⟨3⟩
  | .range => ⟨4⟩
  | .reference => ⟨5⟩
  | .syntaxKind => ⟨6⟩
def booleanPrototype : ObjectRef := ⟨7⟩
def numberPrototype : ObjectRef := ⟨8⟩
def stringPrototype : ObjectRef := ⟨9⟩
def symbolPrototype : ObjectRef := ⟨10⟩
def bigIntPrototype : ObjectRef := ⟨11⟩

/-- The accessor of restricted properties, which always throws. -/
def throwTypeError : ObjectRef := ⟨12⟩
def globalObject : ObjectRef := ⟨13⟩

/-- The scope of scripts, which is around every other one. -/
def globalScope : ScopeRef := ⟨0⟩

/-- The prototype of the object that stands for a primitive. -/
def wrapperPrototype : Primitive → ObjectRef
  | .boolean _ => booleanPrototype
  | .number _ => numberPrototype
  | .string _ => stringPrototype
  | .symbol _ => symbolPrototype
  | .bigInt _ => bigIntPrototype
  | .undefined | .null => objectPrototype

end Intrinsic

/-- Code that is being run: a script, or the body of a function. -/
structure Context where
  strict : Bool
  function : Option ObjectRef
deriving Repr, DecidableEq, Inhabited

/-- How a statement ends, unless it throws. A value is absent until some statement has one. -/
inductive Completion where
  | normal (value : Option Value)
  | returned (value : Value)
  | broke (label : Option String) (value : Option Value)
  | continued (label : Option String) (value : Option Value)
deriving Inhabited

/-- What only happens to a tree that no accepted script has. -/
inductive Incident where
  /-- A step met a tree that it has no meaning for. -/
  | fault (f : Fault)
  /-- The body of a function was left by a `break` or `continue`. -/
  | strayJump (ending : Completion)

/-- What outlives the code that is being run. -/
structure Store where
  heap : Heap
  scopes : Scopes
  /-- The number of the next symbol. -/
  nextSymbol : Nat
  /-- The number of the next private name. -/
  nextPrivateName : Nat
  /-- The text that the script has written. -/
  output : String
  /-- What happened to trees that no accepted script has, the last one first. -/
  incidents : List Incident
deriving Inhabited

/-- The state that scripts change. -/
structure State extends Store where
  /-- The code that is being run, the innermost first. -/
  contexts : List Context
  /-- The number of calls that have been entered and not left. -/
  callDepth : Nat
  /-- Where the code that is being run stands. -/
  site : Site
deriving Inhabited

/-- Why an evaluation has no value: a script value was thrown, an expression ended as only
statements do, or the fuel ran out. -/
inductive Abrupt where
  | thrown (v : Value)
  | escaped (ending : Completion)
  | exhausted
deriving Inhabited

/-- An evaluation, which changes the state and may end abruptly. -/
abbrev Eval := EStateM Abrupt State

namespace Completion

/-- The statement ended by a `break` or `continue`. -/
def isJump : Completion → Bool
  | .broke .. | .continued .. => true
  | .normal _ | .returned _ => false

/-- Gives a completion without a value one. A `return` has one always. -/
def withDefault (value : Option Value) : Completion → Completion
  | .normal v => .normal (v <|> value)
  | .returned v => .returned v
  | .broke label v => .broke label (v <|> value)
  | .continued label v => .continued label (v <|> value)

end Completion

namespace Eval

/-! ### Reading the state -/

/-- What the heap says. -/
def heap {α : Type} (f : Heap → α) : Eval α := fun s => .ok (f s.heap) s

/-- What the scopes say. -/
def scopes {α : Type} (f : Scopes → α) : Eval α := fun s => .ok (f s.scopes) s

/-- Whether the code that is being run is strict. -/
def isStrict : Eval Bool := fun s => .ok ((s.contexts.head?.map Context.strict).getD false) s

/-- Where the code that is being run stands. -/
def site : Eval Site := fun s => .ok s.site s

/-! ### Objects -/

/-- Adds an object to the heap. -/
def alloc (data : ObjectData) : Eval ObjectRef := fun s =>
  .ok s.heap.next { s with heap := s.heap.push data }

/-- Makes an object without properties. -/
def newObject (prototype : Option ObjectRef) (kind : ObjectKind) : Eval ObjectRef :=
  alloc { prototype, kind }

/-- Makes an ordinary object that inherits from the general prototype. -/
def newOrdinary : Eval ObjectRef :=
  newObject (some Intrinsic.objectPrototype) .ordinary

/-- Changes an object. -/
def modifyObject (o : ObjectRef) (f : ObjectData → ObjectData) : Eval Unit :=
  modify fun s => { s with heap := s.heap.modify o f }

/-- Changes an object unless that is refused; tells whether it was changed. -/
def tryObject (o : ObjectRef) (step : ObjectData → Option ObjectData) : Eval Bool := fun s =>
  match step (s.heap.get o) with
  | some data => .ok true { s with heap := s.heap.modify o fun _ => data }
  | none => .ok false s

/-- Defines an own property; tells whether that was allowed. -/
def define (o : ObjectRef) (key : PropertyKey) (d : Descriptor) : Eval Bool :=
  tryObject o (·.define key d)

/-- Defines a property on an object that cannot refuse it. -/
def put (o : ObjectRef) (key : PropertyKey) (d : Descriptor) : Eval Unit :=
  discard (define o key d)

/-- Removes an own property; tells whether it is gone. -/
def delete (o : ObjectRef) (key : PropertyKey) : Eval Bool :=
  tryObject o (·.delete key)

/-- Stops an object from gaining properties. -/
def preventExtensions (o : ObjectRef) : Eval Unit :=
  modifyObject o fun data => { data with extensible := false }

/-- Sets a prototype; tells whether that was allowed. -/
def setPrototype (o : ObjectRef) (prototype : Option ObjectRef) : Eval Bool := do
  if ← heap (·.acceptsPrototype o prototype) then
    modifyObject o fun data => { data with prototype }
    return true
  else return false

/-! ### Errors -/

/-- Makes an error object. -/
def createError (kind : ErrorKind) (message : String) : Eval ObjectRef := do
  let o ← newObject (some (Intrinsic.errorPrototype kind)) .error
  put o "message" (.hidden (.ofText message))
  return o

/-- Throws a value. -/
def throwValue {α : Type} (v : Value) : Eval α :=
  throw (.thrown v)

/-- Throws a new error object. -/
def raise {α : Type} (cause : Cause) : Eval α := do
  throwValue (.object (← createError cause.kind cause.message))

/-- Notes what no accepted script leads to. -/
def note (i : Incident) : Eval Unit :=
  modify fun s => { s with incidents := i :: s.incidents }

/-- Throws the error of a tree that no accepted script has. -/
def fault {α : Type} (f : Fault) : Eval α := do
  note (.fault f)
  raise (.fault f)

/-- The result of a conversion, or its error thrown. -/
def converted {α : Type} : Except ConversionError α → Eval α
  | .ok a => return a
  | .error e => raise (.conversion e)

/-! ### Scopes -/

/-- Adds a scope. -/
def newScope (e : Environment) : Eval ScopeRef := fun s =>
  .ok s.scopes.next { s with scopes := s.scopes.push e }

/-- Adds an empty scope inside another one. -/
def innerScope (parent : ScopeRef) : Eval ScopeRef :=
  newScope { parent := some parent }

/-- Changes a scope. -/
def modifyScope (r : ScopeRef) (f : Environment → Environment) : Eval Unit :=
  modify fun s => { s with scopes := s.scopes.modify r f }

/-- Gives a binding its first value. -/
def initialise (r : ScopeRef) (name : String) (value : Value) : Eval Unit :=
  modifyScope r (·.initialise name value)

/-! ### Fresh names -/

/-- Makes a symbol that differs from all others. -/
def newSymbol (description : Option Units) : Eval Symbol := fun s =>
  .ok ⟨s.nextSymbol, description⟩ { s with nextSymbol := s.nextSymbol + 1 }

/-- Makes a private name that differs from all others. -/
def newPrivateName (description : String) : Eval PrivateName := fun s =>
  .ok ⟨s.nextPrivateName, description⟩ { s with nextPrivateName := s.nextPrivateName + 1 }

/-- Writes text. -/
def write (text : String) : Eval Unit :=
  modify fun s => { s with output := s.output ++ text }

/-! ### Calls -/

/-- The greatest number of calls inside each other. -/
def maxCallDepth : Nat := 400

/-- Runs code in a context, and leaves the context however the code ends. -/
def inContext {α : Type} (c : Context) (code : Eval α) : Eval α := fun s =>
  match code { s with contexts := c :: s.contexts } with
  | .ok a s => .ok a { s with contexts := s.contexts.tail }
  | .error e s => .error e { s with contexts := s.contexts.tail }

/-- Runs code one call deeper, and leaves the call however the code ends. -/
def inCall {α : Type} (code : Eval α) : Eval α := fun s =>
  if maxCallDepth ≤ s.callDepth then raise .callDepth s
  else
    match code { s with callDepth := s.callDepth + 1 } with
    | .ok a s => .ok a { s with callDepth := s.callDepth - 1 }
    | .error e s => .error e { s with callDepth := s.callDepth - 1 }

/-- Runs code at a site, and comes back however the code ends. -/
def atSite {α : Type} (l : Site) (code : Eval α) : Eval α := fun s =>
  match code { s with site := l } with
  | .ok a s' => .ok a { s' with site := s.site }
  | .error e s' => .error e { s' with site := s.site }

/-- Runs code inside a part of the code that is being run, in a scope. -/
def within {α : Type} (a : Around) (q : ScopeRef) (code : Eval α) : Eval α := do
  let l ← site
  atSite (l.enter a q) code

/-- Runs `handler` on the ending of an expression that ends as only statements do. -/
def onEscape {α : Type} (code : Eval α) (handler : Completion → Eval α) : Eval α := fun s =>
  match code s with
  | .error (.escaped ending) s => handler ending s
  | r => r

/-- Runs `handler` on a value that `code` throws. -/
def catching {α : Type} (code : Eval α) (handler : Value → Eval α) : Eval α := fun s =>
  match code s with
  | .error (.thrown v) s => handler v s
  | r => r

/-- The result of code, or the value that it throws. -/
def attempt {α : Type} (code : Eval α) : Eval (Except Value α) :=
  catching (.ok <$> code) fun v => return .error v

/-- Repeats a turn until it is done, at most `fuel` times. -/
def loop {α β : Type} (turn : α → Eval (Turn α β)) : (fuel : Nat) → α → Eval β
  | 0, _ => throw .exhausted
  | fuel + 1, a => do
    match ← turn a with
    | .again a => loop turn fuel a
    | .done b => return b

end Eval

end Ecma
