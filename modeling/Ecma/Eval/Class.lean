import Ecma.Eval.Function
import Ecma.Eval.Reference

/-! Classes: making their constructors, and what `super` calls. -/

namespace Ecma

namespace ClassElement

/-- The private name that an element is declared under. -/
def privateName? : ClassElement → Option String
  | .privateElement name _ _ _ => some name
  | .publicElement .. => none

end ClassElement

/-- The private elements of a class: of its instances, and of its constructor. -/
structure ClassPrivates where
  instances : List (PrivateName × PrivateElement) := []
  statics : List (PrivateName × PrivateElement) := []
deriving Inhabited

namespace ClassPrivates

/-- Adds an element. -/
def add (p : ClassPrivates) (isStatic : Bool) (name : PrivateName) (element : PrivateElement) :
    ClassPrivates :=
  if isStatic then { p with statics := PrivateElement.add name element p.statics }
  else { p with instances := PrivateElement.add name element p.instances }

end ClassPrivates

namespace Eval

/-- Declares new private names in a scope, one for each spelling. -/
def declarePrivateNames (spellings : List String) (scope : ScopeRef) : Eval Unit :=
  spellings.forM fun spelling => do
    let name ← newPrivateName spelling
    modifyScope scope fun e => { e with privateNames := e.privateNames ++ [(spelling, name)] }

/-- Makes the scope of a class body, with its name and its private names. -/
def classScope (c : ClassDef) (scope : ScopeRef) : Eval ScopeRef := do
  let inner ← innerScope scope
  c.name.forM fun name => modifyScope inner (·.declare name .const)
  declarePrivateNames (distinctNames (c.elements.filterMap ClassElement.privateName?)) inner
  return inner

/-- Makes the constructor object of a class, linked with its prototype object. -/
def createClass (c : ClassDef) (scope : ScopeRef) (name : String) (prototype parent : ObjectRef) :
    Eval ObjectRef := do
  let kind : ConstructorKind := if c.heritage.isSome then .derived else .base
  let (code, length) := match c.constructorDef with
    | some f => (FunctionCode.script f, f.params.length)
    | none => (FunctionCode.defaultConstructor, 0)
  let site ← site
  let o ← newObject (some parent) (.function
    { code, scope, site, strict := true, homeObject := some prototype, constructorKind := some kind
      classSource := some c.source, privateMethods := [] })
  put o "length" (.data (.number (Number.ofInt length)) false false true)
  setFunctionName o name
  put o "prototype" (.data (.object prototype) false false false)
  put prototype "constructor" (.hidden (.object o))
  return o

/-- Gives a class constructor the private elements of its class. -/
def installPrivates (o : ObjectRef) (privates : ClassPrivates) : Eval Unit :=
  modifyObject o fun data =>
    let kind := match data.kind with
      | .function f => .function { f with privateMethods := privates.instances }
      | kind => kind
    { data with kind, privateElements := data.privateElements ++ privates.statics }

end Eval

namespace Engine

open Eval (heap raise)

variable (eng : Engine)

/-- The object that a class's prototype inherits from, and the one that its constructor does. -/
def heritage (c : ClassDef) (scope : ScopeRef) : Eval (Option ObjectRef × ObjectRef) := do
  match c.heritage with
  | none => return (some Intrinsic.objectPrototype, Intrinsic.functionPrototype)
  | some e =>
    match ← Eval.onEscape (eng.expr e scope) fun _ => Eval.fault .invalidHeritage with
    | .null => return (none, Intrinsic.functionPrototype)
    | .primitive p => raise (.heritage p.quoted)
    | .object parent =>
      if ← heap (·.isConstructor parent) then
        match ← eng.get parent "prototype" with
        | .object p => return (some p, parent)
        | .null => return (none, parent)
        | .primitive p => raise (.heritagePrototype p.quoted)
      else raise (.heritage (← heap (·.describe (.object parent))))

/-- Defines an element of a class on its constructor or its prototype; a private one is added to
those of the class. -/
def defineElement (scope : ScopeRef) (constructor prototype : ObjectRef)
    (privates : ClassPrivates) : ClassElement → Eval ClassPrivates
  | .publicElement name kind f isStatic => do
    let target := if isStatic then constructor else prototype
    let o ← Eval.createMethod f scope target
    let key ← Eval.onEscape (eng.propertyKey name scope) fun _ => Eval.fault .invalidPropertyName
    Eval.setFunctionName o (kind.functionName key.functionName)
    defineOrThrow target key (kind.descriptor o false)
    return privates
  | .privateElement spelling kind f isStatic => do
    let target := if isStatic then constructor else prototype
    let o ← Eval.createMethod f scope target
    match ← Eval.scopes fun s => (s.get scope).privateNames.lookup spelling with
    | some name =>
      Eval.setFunctionName o (kind.functionName name.functionName)
      return privates.add isStatic name (kind.privateElement o)
    | none => Eval.fault (.undeclaredPrivateName spelling)

/-- Makes the constructor of a class. -/
def evaluateClass (c : ClassDef) (scope : ScopeRef) (name : String) : Eval ObjectRef := do
  let inner ← Eval.classScope c scope
  let (prototypeParent, parent) ← Eval.within (.heritage c) inner (eng.heritage c inner)
  Eval.within (.classBody c) inner do
    let prototype ← Eval.newObject prototypeParent .ordinary
    let o ← Eval.createClass c inner name prototype parent
    let privates ← c.elements.foldlM (eng.defineElement inner o prototype) {}
    Eval.installPrivates o privates
    c.name.forM fun name => Eval.initialise inner name (.object o)
    return o

/-! ### Instances -/

/-- Gives an object private elements, of which it may have none yet. -/
def addPrivates (o : ObjectRef) (elements : List (PrivateName × PrivateElement)) : Eval Unit :=
  elements.forM fun (name, element) => do
    if (← heap fun h => (h.get o).privateElement? name).isSome then raise .privateTwice
    Eval.modifyObject o fun data =>
      { data with privateElements := data.privateElements ++ [(name, element)] }

/-- Gives a new object the private elements of the class of a constructor. -/
def initialiseInstance (o constructor : ObjectRef) : Eval Unit := do
  match ← heap (·.scriptFunction? constructor) with
  | some f => addPrivates o f.privateMethods
  | none => return

/-- Sets the `this` value of a call, which may be done once. -/
def bindThis (scope : ScopeRef) (this : Value) : Eval Unit := do
  match ← Eval.scopes fun s => (s.get scope).function with
  | none => Eval.fault .unexpectedSuper
  | some f =>
    if f.this.isSome then raise .superTwice
    Eval.modifyScope scope fun e =>
      { e with function := e.function.map fun f => { f with this := some this } }

/-- Calls the parent constructor of the constructor that is being run, and takes the object that it
makes as `this`. -/
def superCall (scope : ScopeRef) (args : List Value) : Eval ObjectRef := do
  match ← Eval.scopes (·.findFunction? scope) with
  | none => Eval.fault .unexpectedSuper
  | some r =>
    match ← Eval.scopes fun s => (s.get r).function with
    | none => Eval.fault .unexpectedSuper
    | some ⟨_, active, newTarget⟩ =>
      match ← heap fun h => (h.get active).prototype.filter (h.isConstructor ·), newTarget with
      | none, _ => raise .superNotConstructor
      | some _, none => Eval.fault .unexpectedSuper
      | some parent, some target =>
        let o ← eng.construct parent args target
        bindThis r (.object o)
        initialiseInstance o active
        return o

end Engine

end Ecma
