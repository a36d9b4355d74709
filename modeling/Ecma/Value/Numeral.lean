import Ecma.Literal.NumericLiteral
import Ecma.Text.Class
import Ecma.Text.Units

/-! The numbers that strings write. Blanks at both ends are dropped, the empty text is zero, and an
unsigned integer may be written in base 16, 8 or 2. -/

namespace Ecma

namespace Number

/-- The value of digits continued from `acc`, computed in Numbers, so that each step rounds. -/
def accumulate (radix : Nat) (acc : Number) : List Char → Number
  | [] => acc
  | c :: rest =>
    match digitIn radix c with
    | some d => accumulate radix (acc * Float.ofNat radix + Float.ofNat d) rest
    | none => nan

/-- A character that a decimal may have. -/
def isDecimalChar (c : Char) : Bool :=
  c.isDigit || c == '.' || c == 'e' || c == 'E' || c == '+' || c == '-'

/-- A text starts as an unsigned decimal does. -/
def startsDecimal : List Char → Bool
  | c :: _ => c.isDigit || c == '.'
  | [] => false

/-- The Number that a decimal or `Infinity`, with an optional sign, writes. -/
def ofDecimalText (text : List Char) : Number :=
  let (negative, unsigned) := splitSign text
  if unsigned = "Infinity".toList then infinity negative
  else if unsigned.all isDecimalChar && startsDecimal unsigned then
    (readUnsigned? negative unsigned).getD nan
  else nan

/-- The Number that a string writes; NaN if it writes none. -/
def ofUnits (s : Units) : Number :=
  let text := trimBoth isBlank s.chars
  if text.isEmpty then zero false
  else
    match splitRadix? text with
    | some (_, []) => nan
    | some (radix, digits) => accumulate radix (zero false) digits
    | none => ofDecimalText text

end Number

/-- The integer that a text without blanks at its ends writes. Only digits get to the reading, with a
sign if they are decimal. -/
def intOfText? [IntegerFormat] (text : List Char) : Option Int :=
  if text.isEmpty then some 0
  else
    match splitRadix? text with
    | some (radix, digits) =>
      if digits.isEmpty || !digits.all (isDigitIn radix) then none
      else IntegerFormat.read? radix digits
    | none =>
      let (_, unsigned) := splitSign text
      if unsigned.isEmpty || !unsigned.all Char.isDigit then none
      else IntegerFormat.read? 10 text

/-- The integer that a string writes. -/
def intOfUnits? [IntegerFormat] (s : Units) : Option Int :=
  intOfText? (trimBoth isBlank s.chars)

end Ecma
