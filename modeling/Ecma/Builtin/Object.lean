import Ecma.Builtin.Basic

/-! The constructor `Object` with its methods, and the methods of all objects. -/

namespace Ecma

namespace ObjectKind

/-- The tag in the default text of an object that has none of its own. -/
def tag : ObjectKind → String
  | .symbol _ | .bigInt _ | .ordinary => "Object"
  | kind => kind.className

end ObjectKind

namespace Engine

open Eval (heap raise)

variable (eng : Engine)

/-- The function `Object(value)`: the value as an object, or a new one. -/
def objectConstructor (call : Invocation) : Eval Value := do
  let v := call.arg 0
  if v.isNullish then
    let prototype ← eng.builtinPrototype call.newTarget Intrinsic.objectPrototype
    .object <$> Eval.newObject (some prototype) .ordinary
  else .object <$> toObject v

/-- The function `Object.getPrototypeOf(value)`. -/
def getPrototypeOf (call : Invocation) : Eval Value := do
  let o ← toObject (call.arg 0)
  .ofObject? <$> heap fun h => (h.get o).prototype

/-- An argument that stands for a prototype: an object or null. -/
def prototypeArgument : Value → Eval (Option ObjectRef)
  | .object p => return some p
  | .null => return none
  | v => raise (.prototypeValue v.text)

/-- The function `Object.setPrototypeOf(value, prototype)`. -/
def setPrototypeOf (call : Invocation) : Eval Value := do
  let target := call.arg 0
  if target.isNullish then raise (.calledOnNullish "Object.setPrototypeOf")
  let prototype ← prototypeArgument (call.arg 1)
  if let .object o := target then
    if !(← Eval.setPrototype o prototype) then raise .prototypeRefused
  return target

/-- The descriptions that the enumerable properties of an object write, by key. -/
def collectDescriptors (o : ObjectRef) (keys : List PropertyKey) :
    Eval (List (PropertyKey × Descriptor)) := do
  let found ← keys.mapM fun key => do
    match ← heap (·.getOwn? o key) with
    | some p =>
      if p.isEnumerable then return some (key, ← eng.toDescriptor (← eng.get o key))
      else return none
    | none => return none
  return found.filterMap id

/-- Defines the properties that an object describes, after reading all of them. -/
def defineProperties (o : ObjectRef) (properties : Value) : Eval Unit := do
  let source ← toObject properties
  let keys ← heap fun h => (h.get source).ownKeys
  let descriptors ← eng.collectDescriptors source keys
  descriptors.forM fun (key, d) => defineOrThrow o key d

/-- The function `Object.create(prototype, properties)`. -/
def objectCreate (call : Invocation) : Eval Value := do
  let prototype ← prototypeArgument (call.arg 0)
  let o ← Eval.newObject prototype .ordinary
  if !(call.arg 1).isUndefined then eng.defineProperties o (call.arg 1)
  return .object o

/-- The function `Object.defineProperty(object, key, description)`. -/
def objectDefineProperty (call : Invocation) : Eval Value := do
  match call.arg 0 with
  | .primitive _ => raise .definePropertyOnPrimitive
  | .object o =>
    let key ← eng.toPropertyKey (call.arg 1)
    let d ← eng.toDescriptor (call.arg 2)
    defineOrThrow o key d
    return .object o

/-- The function `Object.getOwnPropertyDescriptor(value, key)`. -/
def getOwnPropertyDescriptor (call : Invocation) : Eval Value := do
  let o ← toObject (call.arg 0)
  let key ← eng.toPropertyKey (call.arg 1)
  Eval.descriptorObject ((← heap (·.getOwn? o key)).map .ofProperty)

/-- The own property of `this` under the key that is the first argument. -/
def ownArgument (call : Invocation) : Eval (Option Property) := do
  let key ← eng.toPropertyKey (call.arg 0)
  let o ← toObject call.this
  heap (·.getOwn? o key)

/-- The method `hasOwnProperty(key)`. -/
def hasOwnProperty (call : Invocation) : Eval Value := do
  return .boolean (← eng.ownArgument call).isSome

/-- The method `propertyIsEnumerable(key)`. -/
def propertyIsEnumerable (call : Invocation) : Eval Value := do
  return .boolean ((← eng.ownArgument call).any Property.isEnumerable)

/-- The method `isPrototypeOf(value)`: `this` is on the prototype chain of the value. -/
def isPrototypeOf (call : Invocation) : Eval Value := do
  match call.arg 0 with
  | .primitive _ => return .boolean false
  | .object o =>
    let this ← toObject call.this
    .boolean <$> heap (·.inherits o this)

/-- The method `toString()` of an object: its tag in brackets. -/
def objectToString (call : Invocation) : Eval Value := do
  match call.this with
  | .undefined => return .ofText "[object Undefined]"
  | .null => return .ofText "[object Null]"
  | this =>
    let o ← toObject this
    let default ← heap fun h => (h.get o).kind.tag
    let tag := match ← eng.get o (.symbol Symbol.toStringTag) with
      | .string s => s.text
      | _ => default
    return .ofText ("[object " ++ tag ++ "]")

/-- The method `valueOf()` of an object. -/
def objectValueOf (call : Invocation) : Eval Value :=
  .object <$> toObject call.this

end Engine

end Ecma
