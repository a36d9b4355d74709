import Ecma.Value.Basic
import Ecma.Value.Numeral

/-! Conversions and comparisons of primitives, none of which runs script code. -/

namespace Ecma

/-- Why a primitive cannot be converted. -/
inductive ConversionError where
  | symbolToNumber
  | bigIntToNumber
  | symbolToString
deriving Repr, DecidableEq

namespace ConversionError

def message : ConversionError → String
  | .symbolToNumber => "Cannot convert a Symbol value to a number"
  | .bigIntToNumber => "Cannot convert a BigInt value to a number"
  | .symbolToString => "Cannot convert a Symbol value to a string"

end ConversionError

namespace Number

/-- The Number of a boolean: one or zero. -/
def ofBool (b : Bool) : Number :=
  if b then 1.0 else 0.0

end Number

namespace Primitive

/-- Conversion to a Number. -/
def toNumber : Primitive → Except ConversionError Number
  | .undefined => .ok Number.nan
  | .null => .ok (Number.zero false)
  | .boolean b => .ok (Number.ofBool b)
  | .number x => .ok x
  | .string s => .ok (Number.ofUnits s)
  | .symbol _ => .error .symbolToNumber
  | .bigInt _ => .error .bigIntToNumber

/-- Conversion to a Number, except that a BigInt stays one. -/
def toNumeric : Primitive → Except ConversionError Numeric
  | .bigInt i => .ok (.bigInt i)
  | p => p.toNumber.map .number

/-- Conversion to a string. -/
def toUnits : Primitive → Except ConversionError Units
  | .string s => .ok s
  | .symbol _ => .error .symbolToString
  | .bigInt i => .ok (IntegerFormat.write 10 i)
  | p => .ok p.text

/-- A boolean as a Number; other primitives stay. -/
def withoutBoolean : Primitive → Primitive
  | .boolean b => .number (Number.ofBool b)
  | p => p

/-- Equality across types of primitives that are no booleans. -/
def convertedEquals : Primitive → Primitive → Bool
  | .undefined, .null | .null, .undefined => true
  | .number x, .string s | .string s, .number x => x == Number.ofUnits s
  | .bigInt i, .string s | .string s, .bigInt i => intOfUnits? s == some i
  | .bigInt i, .number x | .number x, .bigInt i => Exact.compareInt i x.exact == some .eq
  | p, q => p.strictEquals q

/-- Equality with conversion: booleans count as Numbers, and a string compared with a number as the
number that it writes. -/
def looselyEquals (p q : Primitive) : Bool :=
  p.withoutBoolean.convertedEquals q.withoutBoolean

end Primitive

namespace Numeric

/-- Whether `a < b` by exact value; undefined if one of them is NaN. -/
def lessThan : Numeric → Numeric → Option Bool
  | .number a, .number b => a.lessThan b
  | .bigInt a, .bigInt b => some (decide (a < b))
  | .bigInt a, .number b => (Exact.compareInt a b.exact).map (· == .lt)
  | .number a, .bigInt b => (Exact.compareInt b a.exact).map (· == .gt)

end Numeric

namespace Primitive

/-- Whether `p < q`: strings by code units, a string and a BigInt as integers, all else as
numbers. -/
def lessThan : Primitive → Primitive → Except ConversionError (Option Bool)
  | .string a, .string b => .ok (some (a.lt b))
  | .bigInt a, .string b => .ok ((intOfUnits? b).map fun b => decide (a < b))
  | .string a, .bigInt b => .ok ((intOfUnits? a).map fun a => decide (a < b))
  | p, q => do
    let a ← p.toNumeric
    let b ← q.toNumeric
    return a.lessThan b

end Primitive

end Ecma
