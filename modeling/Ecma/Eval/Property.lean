import Ecma.Eval.Engine

/-! Reading and assigning properties, which may run accessors. -/

namespace Ecma

/-- The value that a primitive has itself under a key: the length or a code unit of a string. -/
def Primitive.ownValue? (p : Primitive) (key : PropertyKey) : Option Primitive :=
  match p with
  | .string s =>
    if key = ("length" : PropertyKey) then some (.number (Number.ofInt s.length))
    else (key.arrayIndex?.bind s.at?).map fun u => .string u
  | _ => none

namespace Engine

open Eval (heap raise)

variable (eng : Engine)

/-! ### Reading -/

/-- The value of a property of an object, whose getter sees `receiver` as `this`. -/
def getFor (o : ObjectRef) (key : PropertyKey) (receiver : Value) : Eval Value := do
  match ← heap (·.find? o key) with
  | some (.data value _ _ _) => return value
  | some (.accessor (.object getter) _ _ _) => eng.call getter receiver []
  | some (.accessor _ _ _ _) => return .undefined
  | none => return .undefined

/-- The value of a property of an object. -/
def get (o : ObjectRef) (key : PropertyKey) : Eval Value :=
  eng.getFor o key (.object o)

/-- The value of a property of a primitive: one that the primitive has itself, or one of the
prototype of its wrapper, whose getter sees the primitive. -/
def getOfPrimitive (p : Primitive) (key : PropertyKey) : Eval Value :=
  if p.isNullish then raise (.readOf p.text key.text)
  else
    match p.ownValue? key with
    | some value => return .primitive value
    | none => eng.getFor (Intrinsic.wrapperPrototype p) key (.primitive p)

/-! ### Assigning -/

/-- Stores a value in an own property, which is made if there is none; tells whether that was
allowed. -/
def store (receiver : ObjectRef) (key : PropertyKey) (value : Value) : Eval Bool := do
  match ← heap (·.getOwn? receiver key) with
  | some existing =>
    if existing.isWritable then Eval.define receiver key { value := some value } else return false
  | none => Eval.define receiver key (.plain value)

/-- Assigns to a property found on the chain of `o`; a setter sees `receiver` as `this`, and a
value is stored there. Tells whether that was allowed. -/
def setFor (o : ObjectRef) (key : PropertyKey) (value receiver : Value) : Eval Bool := do
  match ← heap (·.find? o key) with
  | some (.accessor _ (.object setter) _ _) =>
    let _ ← eng.call setter receiver [value]
    return true
  | some (.accessor _ _ _ _) => return false
  | some (.data _ false _ _) => return false
  | _ =>
    match receiver with
    | .object r => store r key value
    | .primitive _ => return false

/-- The outcome of a refused assignment: an error in strict code. -/
def refuseSet (strict : Bool) (key : PropertyKey) (base : Value) : Eval Unit :=
  if strict then
    raise (.readOnly key.text (match base with
      | .object _ => "object"
      | .primitive p => "'" ++ p.text ++ "'"))
  else return

/-- Conversion to an object: a primitive is wrapped. -/
def toObject (v : Value) : Eval ObjectRef :=
  match v with
  | .object o => return o
  | .primitive p =>
    if p.isNullish then raise .nullishToObject
    else Eval.newObject (some (Intrinsic.wrapperPrototype p)) (.wrapping p)

/-- Assigns to a property of a primitive, which never gains one of its own. -/
def setOfPrimitive (p : Primitive) (key : PropertyKey) (value : Value) : Eval Bool := do
  if (p.ownValue? key).isSome then return false
  let o ← toObject (.primitive p)
  eng.setFor o key value (.primitive p)

/-- Assigns to a property of a value; a refusal is an error in strict code. -/
def setOf (base : Value) (key : PropertyKey) (value : Value) (strict : Bool) : Eval Unit := do
  let allowed ← match base with
    | .object o => eng.setFor o key value base
    | .primitive p => eng.setOfPrimitive p key value
  if !allowed then refuseSet strict key base

/-- Assigns to a property of an object. -/
def set (o : ObjectRef) (key : PropertyKey) (value : Value) (strict : Bool) : Eval Unit :=
  eng.setOf (.object o) key value strict

/-! ### Defining -/

/-- Defines an own property; a refusal is an error. -/
def defineOrThrow (o : ObjectRef) (key : PropertyKey) (d : Descriptor) : Eval Unit := do
  if !(← Eval.define o key d) then raise (.redefined key.text)

/-- The prototype of an object that a constructor makes: its `prototype` property, if that is an
object. -/
def prototypeFor (constructor fallback : ObjectRef) : Eval ObjectRef := do
  match ← eng.get constructor "prototype" with
  | .object o => return o
  | .primitive _ => return fallback

end Engine

end Ecma
