import Ecma.Number.Rounding
import Ecma.Number.Shortest
import Ecma.Text.Digit

/-! The text of a Number: the shortest decimal that reads back, laid out by a record of format
decisions. The language's own text and the text of tree dumps are two such records. In a radix other
than ten a Number is written digit by digit. -/

namespace Ecma

/-- How the digits of a Number are laid out. -/
structure NumberLayout where
  /-- The least exponent of the leading digit that is written positionally. -/
  least : Int
  /-- The greatest exponent of the leading digit that is written positionally. -/
  greatest : Int
  /-- An integer keeps a fraction `.0`. -/
  keepsFraction : Bool
  /-- A non-negative exponent has a plus sign. -/
  plusSign : Bool
  /-- The sign of a zero is written. -/
  signedZero : Bool
  /-- Where a tie between two shortest decimals goes. -/
  tie : DecimalTie
  /-- The text of infinity. -/
  infinity : String

namespace NumberLayout

/-- The language's Number-to-string conversion: positional from `1e-6` to below `1e21`, and ties
go to the even digit. -/
def language : NumberLayout :=
  { least := -6, greatest := 20, keepsFraction := false, plusSign := true, signedZero := false
    tie := .toEven, infinity := "Infinity" }

/-- Numbers in a tree dump: positional from `1e-4` to below `1e16`, with a fraction always, and
ties go up. -/
def dump : NumberLayout :=
  { least := -4, greatest := 15, keepsFraction := true, plusSign := false, signedZero := true
    tie := .up, infinity := "inf" }

/-- Digits with the decimal point after position `point`, counted from the first digit. -/
def positional (layout : NumberLayout) (digits : List Char) (point : Int) : List Char :=
  let count : Int := digits.length
  if point ≤ 0 then '0' :: '.' :: (List.replicate (-point).toNat '0' ++ digits)
  else if count ≤ point then
    digits ++ List.replicate (point - count).toNat '0' ++
      if layout.keepsFraction then ['.', '0'] else []
  else digits.take point.toNat ++ '.' :: digits.drop point.toNat

/-- Digits with the point after the first one, followed by a power of ten. -/
def scientific (layout : NumberLayout) (digits : List Char) (exponent : Int) : List Char :=
  let fraction := digits.drop 1
  digits.take 1 ++ (if fraction.isEmpty then [] else '.' :: fraction) ++ 'e' ::
    (if exponent < 0 then ['-'] else if layout.plusSign then ['+'] else []) ++
    numeralBefore 10 exponent.natAbs []

/-- The text of a decimal. -/
def decimal (layout : NumberLayout) (d : Decimal) : List Char :=
  let digits := numeralBefore 10 d.digits []
  let point := d.exponent + digits.length
  let exponent := point - 1
  if layout.least ≤ exponent ∧ exponent ≤ layout.greatest then layout.positional digits point
  else layout.scientific digits exponent

/-- The text of a Number in a layout. -/
def text (layout : NumberLayout) (x : Number) : String :=
  match x.exact with
  | .nan => "NaN"
  | .infinite negative => (if negative then "-" else "") ++ layout.infinity
  | .finite negative 0 _ =>
    (if negative && layout.signedZero then "-" else "") ++
      if layout.keepsFraction then "0.0" else "0"
  | .finite negative significand exponent =>
    (if negative then "-" else "") ++
      String.ofList (layout.decimal (shortestDecimal layout.tie significand exponent))

end NumberLayout

/-- How Numbers that are neither zero nor infinite nor NaN are written. -/
class NumberFormat where
  write : Number → String

/-- The shortest decimals, laid out as the language does. -/
instance NumberFormat.shortest : NumberFormat :=
  ⟨NumberLayout.language.text⟩

namespace Number

/-- The language's text of a Number. -/
def text [NumberFormat] (x : Number) : String :=
  match x.exact with
  | .nan => "NaN"
  | .infinite negative => if negative then "-Infinity" else "Infinity"
  | .finite _ 0 _ => "0"
  | .finite .. => NumberFormat.write x

/-- The language's text of a Number, in which negative zero keeps its sign. -/
def signedText (x : Number) : String :=
  { NumberLayout.language with signedZero := true }.text x

/-! ### Other radixes -/

/-- At most `fuel` digits of a fraction below one. Each step multiplies by the radix, rounding as
Numbers do, and takes off the integer part. -/
def fractionDigits (radix : Nat) (fraction : Number) : (fuel : Nat) → List Char
  | 0 => []
  | fuel + 1 =>
    if fraction > 0.0 then
      let scaled := fraction * Float.ofNat radix
      let digit := (scaled.exact.trunc?.getD 0).toNat
      (if digit < radix then digitChar digit else '0') ::
        fractionDigits radix (scaled - Float.ofNat digit) fuel
    else []

/-- The text of a Number in the radix; a fraction is cut off after 52 digits. -/
def radixText (radix : Nat) (x : Number) : String :=
  match x.exact with
  | .nan => "NaN"
  | .infinite negative => if negative then "-Infinity" else "Infinity"
  | .finite negative significand exponent =>
    let whole := Exact.floorOf significand exponent
    let fraction := x.abs - ofInt whole
    let digits :=
      if fraction > 0.0 then '.' :: fractionDigits radix fraction 52 else []
    (if negative && significand ≠ 0 then "-" else "") ++ numeral radix whole ++
      String.ofList digits

end Number

end Ecma
