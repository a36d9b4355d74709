import Ecma.Number.Numeral

/-! The value of a numeric literal. -/

namespace Ecma

/-- The value of a numeric literal: a Number, or a BigInt if the literal ends in `n`. -/
inductive Numeric where
  | number (x : Number)
  | bigInt (i : Int)

namespace NumericLiteral

/-- A legacy literal that is read in base eight. -/
def isLegacyOctal (text : List Char) : Bool :=
  hasLeadingZero text && text.all (isDigitIn 8)

/-- The radix of a literal without separators, and its digits. -/
def radixAndDigits (text : List Char) : Nat × List Char :=
  (splitRadix? text).getD (if isLegacyOctal text then (8, text.drop 1) else (10, text))

/-- The value of a literal. An integer in a radix is exact; as a Number it is rounded once. Text that
is no literal is zero or NaN where nothing can be read. -/
def value [IntegerFormat] (text : String) : Numeric :=
  let chars := text.toList
  let isBigInt := chars.getLast? == some 'n'
  let digits := (if isBigInt then chars.dropLast else chars).filter (· != '_')
  let (radix, body) := radixAndDigits digits
  if isBigInt then .bigInt ((IntegerFormat.read? radix body).getD 0)
  else if radix ≠ 10 then .number (Number.ofInt ((IntegerFormat.read? radix body).getD 0))
  else .number ((Number.read? body).getD Number.nan)

end NumericLiteral

end Ecma
