import Ecma.Builtin.Basic
import Ecma.Number.Text

/-! The constructors and methods of booleans, Numbers and BigInts. -/

namespace Ecma

namespace Engine

open Eval (raise)

variable (eng : Engine)

/-! ### Booleans -/

/-- The function `Boolean(value)`: the truth of a value. -/
def booleanConstructor (call : Invocation) : Eval Value :=
  eng.primitiveOrWrapper (.boolean (call.arg 0).isTruthy) call.newTarget

/-- The method `toString()` of a boolean. -/
def booleanToString (call : Invocation) : Eval Value := do
  let b ← Eval.thisBoolean call.this "Boolean.prototype.toString"
  return .ofText (Primitive.boolean b).text

/-- The method `valueOf()` of a boolean. -/
def booleanValueOf (call : Invocation) : Eval Value :=
  .boolean <$> Eval.thisBoolean call.this "Boolean.prototype.valueOf"

/-! ### Numbers -/

/-- The argument of `Number`: a BigInt is rounded, no argument is zero. -/
def numberArgument : List Value → Eval Number
  | [] => return Number.zero false
  | v :: _ => do
    match ← eng.toNumeric v with
    | .number x => return x
    | .bigInt i => return Number.ofInt i

/-- The function `Number(value)`: the Number that a value converts to. -/
def numberConstructor (call : Invocation) : Eval Value := do
  eng.primitiveOrWrapper (.number (← eng.numberArgument call.args)) call.newTarget

/-- An optional radix from 2 to 36, which is ten if absent. -/
def radixArgument (v : Value) : Eval Nat := do
  if v.isUndefined then return 10
  match (← eng.toNumber v).exact.trunc? with
  | some radix => if 2 ≤ radix ∧ radix ≤ 36 then return radix.toNat else raise .radix
  | none => raise .radix

/-- The method `toString(radix)` of a Number. -/
def numberToString (call : Invocation) : Eval Value := do
  let x ← Eval.thisNumber call.this "Number.prototype.toString"
  let radix ← eng.radixArgument (call.arg 0)
  return .ofText (if radix = 10 then x.text else x.radixText radix)

/-- The method `valueOf()` of a Number. -/
def numberValueOf (call : Invocation) : Eval Value :=
  .number <$> Eval.thisNumber call.this "Number.prototype.valueOf"

/-! ### BigInts -/

/-- The function `BigInt(value)`, which is no constructor; a Number has to be an integer. -/
def bigIntFunction (call : Invocation) : Eval Value := do
  match ← eng.toPrimitive (call.arg 0) .number with
  | .number x =>
    match x.exact.toInt? with
    | some i => return .bigInt i
    | none => raise (.notInteger x.text)
  | .bigInt i => return .bigInt i
  | .boolean b => return .bigInt (if b then 1 else 0)
  | .string s =>
    match intOfUnits? s with
    | some i => return .bigInt i
    | none => raise (.bigIntOfString s.text)
  | p => raise (.bigIntOfValue p.text)

/-- The method `toString(radix)` of a BigInt. -/
def bigIntToString (call : Invocation) : Eval Value := do
  let i ← Eval.thisBigInt call.this "BigInt.prototype.toString"
  let radix ← eng.radixArgument (call.arg 0)
  return .ofText (IntegerFormat.write radix i)

/-- The method `valueOf()` of a BigInt. -/
def bigIntValueOf (call : Invocation) : Eval Value :=
  .bigInt <$> Eval.thisBigInt call.this "BigInt.prototype.valueOf"

end Engine

end Ecma
