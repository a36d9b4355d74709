import Ecma.Eval.Conversion
import Ecma.Number.Word

/-! Operators on values. -/

namespace Ecma

namespace BinaryOp

/-- The operation on two Numbers, for the arithmetic operators. -/
def onNumbers? (a b : Number) : BinaryOp → Option Number
  | .add => some (a + b)
  | .sub => some (a - b)
  | .mul => some (a * b)
  | .div => some (a / b)
  | .mod => some (a.remainder b)
  | .exp => some (a.exponentiate b)
  | .lShift => some (a.leftShift b)
  | .rShift => some (a.signedRightShift b)
  | .uRShift => some (a.unsignedRightShift b)
  | .bitAnd => some (a.bitwiseAnd b)
  | .bitOr => some (a.bitwiseOr b)
  | .bitXor => some (a.bitwiseXor b)
  | _ => none

end BinaryOp

namespace LogicalOp

/-- Whether the left operand decides the result. -/
def decidedBy (left : Value) : LogicalOp → Bool
  | .and => !left.isTruthy
  | .or => left.isTruthy

end LogicalOp

namespace Engine

open Eval (heap raise converted)

variable (eng : Engine)

/-! ### Comparison -/

/-- Equality with conversion. An object is equal to what its primitive is equal to, and never to
undefined or null. -/
def looselyEqual (x y : Value) : Eval Bool :=
  match x, y with
  | .primitive p, .primitive q => return p.looselyEquals q
  | .object a, .object b => return a == b
  | .object o, .primitive q => do
    if q.isNullish then return false
    return (← eng.objectToPrimitive o .default).looselyEquals q
  | .primitive p, .object o => do
    if p.isNullish then return false
    return p.looselyEquals (← eng.objectToPrimitive o .default)

/-- Whether `x < y`; undefined if a NaN is compared. The left operand is converted first. -/
def less (x y : Value) : Eval (Option Bool) := do
  let p ← eng.toPrimitive x .number
  let q ← eng.toPrimitive y .number
  converted (p.lessThan q)

/-- Whether `x > y`, with the left operand converted first. -/
def greater (x y : Value) : Eval (Option Bool) := do
  let p ← eng.toPrimitive x .number
  let q ← eng.toPrimitive y .number
  converted (q.lessThan p)

/-- The prototype of a constructor is on the chain of a value. -/
def ordinaryHasInstance (constructor value : Value) : Eval Bool := do
  match constructor, value with
  | .object c, .object o =>
    if ← heap (·.isCallable c) then
      match ← eng.get c "prototype" with
      | .object p => heap (·.inherits o p)
      | .primitive _ => raise .instanceOfPrototype
    else return false
  | _, _ => return false

/-- The operator `instanceof`. -/
def instanceOf (value target : Value) : Eval Bool := do
  match target with
  | .primitive _ => raise .instanceOfPrimitive
  | .object t =>
    let handler ← eng.get t (.symbol Symbol.hasInstance)
    if !handler.isNullish then return (← eng.callValue handler target [value]).isTruthy
    else if ← heap (·.isCallable t) then eng.ordinaryHasInstance target value
    else raise .instanceOfUncallable

/-- The operator `in`. -/
def isIn (key target : Value) : Eval Bool := do
  match target with
  | .primitive p => raise (.inPrimitive key.text p.quoted)
  | .object o =>
    let key ← eng.toPropertyKey key
    heap (·.has o key)

/-! ### Arithmetic -/

/-- An operator on two Numbers; BigInts have none. -/
def arithmetic (op : BinaryOp) (x y : Value) : Eval Value := do
  let a ← eng.toNumeric x
  let b ← eng.toNumeric y
  match a, b with
  | .number a, .number b =>
    match op.onNumbers? a b with
    | some r => return .number r
    | none => Eval.fault .unexpectedOperator
  | .bigInt _, .bigInt _ => raise .bigIntArithmetic
  | _, _ => raise .mixedNumeric

/-- The texts of two primitives joined. -/
def join (p q : Primitive) : Eval Value := do
  let s ← converted p.toUnits
  let t ← converted q.toUnits
  return .string (s ++ t)

/-- Addition of primitives: a string joins. -/
def addPrimitives (p q : Primitive) : Eval Value :=
  match p, q with
  | .string _, _ => join p q
  | _, .string _ => join p q
  | _, _ => eng.arithmetic .add (.primitive p) (.primitive q)

/-- Addition of numbers, or joining of strings. -/
def add (x y : Value) : Eval Value := do
  let p ← eng.toPrimitive x .default
  let q ← eng.toPrimitive y .default
  eng.addPrimitives p q

/-- A binary operator on the values of its operands. -/
def applyBinary (op : BinaryOp) (x y : Value) : Eval Value := do
  match op with
  | .strictEq => return .boolean (x.strictEquals y)
  | .strictNotEq => return .boolean !(x.strictEquals y)
  | .eq => return .boolean (← eng.looselyEqual x y)
  | .notEq => return .boolean !(← eng.looselyEqual x y)
  | .lt => return .boolean ((← eng.less x y) == some true)
  | .gt => return .boolean ((← eng.greater x y) == some true)
  | .ltEq => return .boolean ((← eng.greater x y) == some false)
  | .gtEq => return .boolean ((← eng.less x y) == some false)
  | .instanceOf => return .boolean (← eng.instanceOf x y)
  | .inside => return .boolean (← eng.isIn x y)
  | .add => eng.add x y
  | _ => eng.arithmetic op x y

/-- A unary operator on the value of its operand. -/
def applyUnary (op : UnaryOp) (v : Value) : Eval Value := do
  match op with
  | .not => return .boolean !v.isTruthy
  | .plus => return .number (← eng.toNumber v)
  | .minus =>
    match ← eng.toNumeric v with
    | .number x => return .number (-x)
    | .bigInt i => return .bigInt (-i)
  | .bitNot =>
    match ← eng.toNumeric v with
    | .number x => return .number x.bitwiseNot
    | .bigInt _ => raise .bigIntArithmetic

end Engine

end Ecma
