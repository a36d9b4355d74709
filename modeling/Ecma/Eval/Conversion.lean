import Ecma.Eval.Property

/-! Conversions of values, which may run the conversion methods of objects. -/

namespace Ecma

/-- The kind of primitive that a conversion prefers. -/
inductive Hint where
  | default
  | string
  | number
deriving Repr, DecidableEq, Inhabited

namespace Hint

/-- The word that a conversion method gets. -/
def name : Hint → String
  | .default => "default"
  | .string => "string"
  | .number => "number"

/-- The methods that are tried, in order. -/
def methods : Hint → List PropertyKey
  | .string => ["toString", "valueOf"]
  | _ => ["valueOf", "toString"]

end Hint

namespace Engine

open Eval (heap raise converted)

variable (eng : Engine)

/-- The first primitive that one of the methods gives; what is no function is passed over. -/
def firstPrimitive (o : ObjectRef) : List PropertyKey → Eval Primitive
  | [] => raise .noPrimitive
  | name :: rest => do
    match ← eng.get o name with
    | .object f =>
      if ← heap (·.isCallable f) then
        match ← eng.call f (.object o) [] with
        | .primitive p => return p
        | .object _ => firstPrimitive o rest
      else firstPrimitive o rest
    | .primitive _ => firstPrimitive o rest

/-- The primitive of an object: by its own conversion method if it has one. -/
def objectToPrimitive (o : ObjectRef) (hint : Hint) : Eval Primitive := do
  let method ← eng.get o (.symbol Symbol.toPrimitive)
  if method.isNullish then eng.firstPrimitive o hint.methods
  else
    match ← eng.callValue method (.object o) [.ofText hint.name] with
    | .primitive p => return p
    | .object _ => raise .noPrimitive

/-- Conversion to a primitive. -/
def toPrimitive (v : Value) (hint : Hint) : Eval Primitive :=
  match v with
  | .primitive p => return p
  | .object o => eng.objectToPrimitive o hint

/-- Conversion to a Number. -/
def toNumber (v : Value) : Eval Number := do
  converted (← eng.toPrimitive v .number).toNumber

/-- Conversion to a Number or a BigInt. -/
def toNumeric (v : Value) : Eval Numeric := do
  converted (← eng.toPrimitive v .number).toNumeric

/-- Conversion to a string. -/
def toUnits (v : Value) : Eval Units := do
  converted (← eng.toPrimitive v .string).toUnits

/-- Conversion to a property key. -/
def toPropertyKey (v : Value) : Eval PropertyKey := do
  match ← eng.toPrimitive v .string with
  | .symbol s => return .symbol s
  | p => return .string (← converted p.toUnits)

/-! ### Property descriptions -/

/-- The value of a property, if there is one on the chain. -/
def getIfPresent (o : ObjectRef) (key : PropertyKey) : Eval (Option Value) := do
  if ← heap (·.has o key) then return some (← eng.get o key) else return none

/-- One half of an accessor in a description: a function or undefined. -/
def accessorField (o : ObjectRef) (key : PropertyKey) (half : String) : Eval (Option Value) := do
  match ← eng.getIfPresent o key with
  | none => return none
  | some .undefined => return some .undefined
  | some (.object f) =>
    if ← heap (·.isCallable f) then return some (.object f)
    else raise (.notAccessor half (Value.object f).text)
  | some v => raise (.notAccessor half v.text)

/-- The description of a property that an object writes. -/
def toDescriptor (v : Value) : Eval Descriptor := do
  match v with
  | .primitive _ => raise .descriptorNotObject
  | .object o =>
    let enumerable ← eng.getIfPresent o "enumerable"
    let configurable ← eng.getIfPresent o "configurable"
    let value ← eng.getIfPresent o "value"
    let writable ← eng.getIfPresent o "writable"
    let get ← eng.accessorField o "get" "Getter"
    let set ← eng.accessorField o "set" "Setter"
    let d : Descriptor :=
      { value, get, set, writable := writable.map Value.isTruthy
        enumerable := enumerable.map Value.isTruthy
        configurable := configurable.map Value.isTruthy }
    if d.isAccessor && d.isData then raise .mixedDescriptor else return d

end Engine

namespace Eval

/-- Makes the object that writes a description; undefined if there is none. -/
def descriptorObject : Option Descriptor → Eval Value
  | none => return .undefined
  | some d => do
    let o ← newOrdinary
    d.fields.forM fun (name, value) => put o name (.plain value)
    return .object o

end Eval

end Ecma
