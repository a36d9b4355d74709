import Ecma.Number.Rounding
import Ecma.Text.Digit

/-! Reading a Number from decimal text: an optional sign, digits with an optional point, and an
optional exponent. -/

namespace Ecma

/-- The parts of an unsigned decimal numeral. -/
structure DecimalNumeral where
  whole : List Char
  fraction : List Char
  exponent : Int
deriving Repr, DecidableEq

namespace DecimalNumeral

/-- The size of an exponent continued from `acc`. Once it has reached `2 ^ 16` further digits are
ignored, so that it stays small: a numeral of ordinary length is zero or infinite by then. -/
def readExponentFrom (acc : Nat) : List Char → Option Nat
  | [] => some acc
  | c :: rest =>
    match digitIn 10 c with
    | some d => readExponentFrom (if acc < 0x10000 then acc * 10 + d else acc) rest
    | none => none

/-- An exponent after its mark: an optional sign and at least one digit, up to the end. -/
def readExponent? (text : List Char) : Option Int :=
  let (negative, digits) := splitSign text
  if digits.isEmpty then none
  else (readExponentFrom 0 digits).map fun n => if negative then - (n : Int) else n

/-- The text after the digits: nothing, or an exponent. -/
def readTail? : List Char → Option Int
  | [] => some 0
  | c :: rest => if c = 'e' ∨ c = 'E' then readExponent? rest else none

/-- Reads a decimal numeral with at least one digit before the exponent. -/
def read? (text : List Char) : Option DecimalNumeral :=
  let whole := text.takeWhile (isDigitIn 10)
  let afterWhole := text.dropWhile (isDigitIn 10)
  let afterPoint := match afterWhole with
    | '.' :: rest => some rest
    | _ => none
  let fraction := (afterPoint.getD []).takeWhile (isDigitIn 10)
  let tail := match afterPoint with
    | some rest => rest.dropWhile (isDigitIn 10)
    | none => afterWhole
  if whole.isEmpty && fraction.isEmpty then none
  else (readTail? tail).map fun exponent => { whole, fraction, exponent }

/-- The number of significant digits that are read as they stand. A point halfway between two
Numbers has fewer than 800 digits, so of the digits after these it only matters whether one of them
is not zero. -/
def precision : Nat := 800

/-- The Number nearest to the numeral's value. -/
def toNumber (negative : Bool) (n : DecimalNumeral) : Number :=
  let digits := (n.whole ++ n.fraction).dropWhile (· == '0')
  let kept := digits.take precision
  let dropped := digits.drop precision
  let coefficient := (readDigitsFrom 10 0 kept).getD 0
  let exponent := n.exponent - n.fraction.length + dropped.length
  if dropped.all (· == '0') then Number.ofDecimal negative coefficient kept.length exponent
  else Number.ofDecimal negative (coefficient * 10 + 1) (kept.length + 1) (exponent - 1)

end DecimalNumeral

namespace Number

/-- Reads an unsigned Number: a decimal numeral, or one of the words for infinity and NaN in any
case. -/
def readUnsigned? (negative : Bool) (text : List Char) : Option Number :=
  match DecimalNumeral.read? text with
  | some n => some (n.toNumber negative)
  | none =>
    let word := String.ofList (text.map Char.toLower)
    if word == "inf" || word == "infinity" then some (infinity negative)
    else if word == "nan" then some nan
    else none

/-- Reads a Number with an optional sign. -/
def read? (text : List Char) : Option Number :=
  let (negative, unsigned) := splitSign text
  readUnsigned? negative unsigned

end Number

end Ecma
