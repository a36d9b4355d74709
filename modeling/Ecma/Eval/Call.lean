import Ecma.Builtin.Run
import Ecma.Eval.Statement

/-! Calling functions and constructing objects, and with that the whole evaluator. -/

namespace Ecma

namespace Engine

open Eval (heap raise inCall inContext)

variable (eng : Engine)

/-! ### Calls -/

/-- Runs the body of a function in the scope of a call. -/
def runBody (callee : ObjectRef) (f : FunctionDef) (scope : ScopeRef) (args : List Value) :
    Eval Completion :=
  inContext ⟨f.strict, some callee⟩ do
    let inner ← Eval.instantiateBody callee f scope args
    let ending ← eng.runList inner none f.body
    if ending.isJump then Eval.note (.strayJump ending)
    return ending

/-- The `this` value that a function sees: in sloppy code an object always. -/
def calledThis (strict : Bool) (this : Value) : Eval Value :=
  if strict then return this
  else if this.isNullish then return .object Intrinsic.globalObject
  else .object <$> toObject this

/-- Calls a script function. -/
def callScript (callee : ObjectRef) (f : ScriptFunction) (this : Value) (args : List Value) :
    Eval Value := do
  if f.classSource.isSome then
    let name ← eng.get callee "name"
    raise (.classCalled name.text)
  match f.code with
  | .defaultConstructor => return .undefined
  | .script d =>
    let this ← calledThis f.strict this
    let scope ← Eval.newScope
      { parent := some f.scope
        function := some { this := some this, function := callee, newTarget := none } }
    match ← Eval.atSite (f.bodySite d scope) (eng.runBody callee d scope args) with
    | .returned v => return v
    | _ => return .undefined

/-- Calls a function object. -/
def callObject (callee : ObjectRef) (this : Value) (args : List Value) : Eval Value := do
  match ← heap fun h => (h.get callee).kind with
  | .builtin b => inCall (eng.runBuiltin b { this, args, newTarget := none })
  | .function f => inCall (eng.callScript callee f this args)
  | _ => raise (.notFunction "object")

/-! ### Construction -/

/-- Runs the code of a constructor in the scope of a call; the default one of a derived class calls
its parent. -/
def runConstructor (callee : ObjectRef) (f : ScriptFunction) (kind : ConstructorKind)
    (scope : ScopeRef) (args : List Value) : Eval Completion :=
  match f.code, kind with
  | .script d, _ => Eval.atSite (f.bodySite d scope) (eng.runBody callee d scope args)
  | .defaultConstructor, .derived =>
    inContext ⟨true, some callee⟩ do
      let o ← eng.superCall scope args
      return .normal (some (.object o))
  | .defaultConstructor, .base => return .normal none

/-- The object that a constructor gives: the one that it returns, or its `this`. -/
def constructed (kind : ConstructorKind) (scope : ScopeRef) (c : Completion) :
    Eval ObjectRef := do
  match c, kind with
  | .returned (.object o), _ => return o
  | .returned .undefined, _ => thisOf
  | .returned _, .derived => raise .derivedResult
  | _, _ => thisOf
where
  thisOf : Eval ObjectRef := do
    match ← Eval.scopes fun s => (s.get scope).function.bind FunctionScope.this with
    | some (.object o) => return o
    | _ => raise .thisUninitialised

/-- The object that a constructor starts with; that of a derived class has none. -/
def startingObject (callee : ObjectRef) (kind : ConstructorKind) (newTarget : ObjectRef) :
    Eval (Option Value) := do
  match kind with
  | .derived => return none
  | .base =>
    let prototype ← eng.prototypeFor newTarget Intrinsic.objectPrototype
    let o ← Eval.newObject (some prototype) .ordinary
    initialiseInstance o callee
    return some (.object o)

/-- Constructs an object by a script function. -/
def constructScript (callee : ObjectRef) (f : ScriptFunction) (kind : ConstructorKind)
    (args : List Value) (newTarget : ObjectRef) : Eval ObjectRef := do
  let this ← eng.startingObject callee kind newTarget
  let scope ← Eval.newScope
    { parent := some f.scope
      function := some { this, function := callee, newTarget := some newTarget } }
  let c ← eng.runConstructor callee f kind scope args
  constructed kind scope c

/-- Constructs an object by a built-in function. -/
def constructBuiltin (b : Builtin) (args : List Value) (newTarget : ObjectRef) :
    Eval ObjectRef := do
  match ← eng.runBuiltin b { this := .undefined, args, newTarget := some newTarget } with
  | .object o => return o
  | .primitive _ => raise .noObjectConstructed

/-- Constructs an object. -/
def constructObject (callee : ObjectRef) (args : List Value) (newTarget : ObjectRef) :
    Eval ObjectRef := do
  match ← heap fun h => (h.get callee).kind with
  | .builtin b =>
    if b.isConstructor then inCall (eng.constructBuiltin b args newTarget)
    else raise (.notConstructor "object")
  | .function f =>
    match f.constructorKind with
    | some kind => inCall (eng.constructScript callee f kind args newTarget)
    | none => raise (.notConstructor "object")
  | _ => raise (.notConstructor "object")

/-! ### The whole evaluator -/

/-- Ways back that are never taken. -/
def exhausted : Engine where
  fuel := 0
  expr _ _ := throw .exhausted
  statement _ _ _ := throw .exhausted
  call _ _ _ := throw .exhausted
  construct _ _ _ := throw .exhausted

/-- The evaluator up to a depth of nesting. -/
def ofFuel : Nat → Engine
  | 0 => exhausted
  | n + 1 =>
    { fuel := n + 1
      expr := fun e scope s => (ofFuel n).evaluate e scope s
      statement := fun t scope labels s => (ofFuel n).run t scope labels s
      call := fun f this args s => (ofFuel n).callObject f this args s
      construct := fun f args target s => (ofFuel n).constructObject f args target s }

/-- The evaluator with more fuel than any run on a machine can use. -/
def full : Engine :=
  ofFuel 0x1000000000000000

end Engine

end Ecma
