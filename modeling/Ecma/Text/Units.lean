import Ecma.Text.Digit

/-! String values of the language: sequences of 16-bit code units, which need not be well-formed
UTF-16. -/

namespace Ecma

/-- A string value: its UTF-16 code units. -/
structure Units where
  toList : List UInt16
deriving Repr, DecidableEq, Hashable, Inhabited

namespace Units

/-- The empty string. -/
def empty : Units := ⟨[]⟩

/-- The code units of one character: a pair of surrogates above the basic plane. -/
def ofChar (c : Char) : List UInt16 :=
  let n := c.toNat
  if n < 0x10000 then [UInt16.ofNat n]
  else
    let v := n - 0x10000
    [UInt16.ofNat (0xD800 + v / 0x400), UInt16.ofNat (0xDC00 + v % 0x400)]

/-- The UTF-16 encoding of a list of characters. -/
def ofChars (cs : List Char) : Units :=
  ⟨cs.flatMap ofChar⟩

/-- The UTF-16 encoding of a text. -/
def ofString (s : String) : Units :=
  ofChars s.toList

instance : Coe String Units := ⟨ofString⟩

/-- A unit that opens a surrogate pair. -/
def isHigh (u : UInt16) : Bool :=
  0xD800 ≤ u && u ≤ 0xDBFF

/-- A unit that closes a surrogate pair. -/
def isLow (u : UInt16) : Bool :=
  0xDC00 ≤ u && u ≤ 0xDFFF

/-- The character of a surrogate pair. -/
def pairChar (high low : UInt16) : Char :=
  Char.ofNat (0x10000 + (high.toNat - 0xD800) * 0x400 + (low.toNat - 0xDC00))

/-- Decodes a unit that opens no pair: a surrogate is handed to `lone`. -/
def decodeUnit {α : Type} (char : Char → α) (lone : UInt16 → α) (u : UInt16) : α :=
  if isHigh u || isLow u then lone u else char (Char.ofNat u.toNat)

/-- Decodes code units; each unpaired surrogate is handed to `lone`. -/
def decodeWith {α : Type} (char : Char → α) (lone : UInt16 → α) : List UInt16 → List α
  | [] => []
  | [u] => [decodeUnit char lone u]
  | u :: v :: rest =>
    if isHigh u && isLow v then char (pairChar u v) :: decodeWith char lone rest
    else decodeUnit char lone u :: decodeWith char lone (v :: rest)

/-- The text of a string value, with each unpaired surrogate replaced by U+FFFD. -/
def chars (s : Units) : List Char :=
  decodeWith id (fun _ => '\uFFFD') s.toList

/-- The text of a string value, with each unpaired surrogate replaced by U+FFFD. -/
def text (s : Units) : String :=
  String.ofList s.chars

/-- The text of a string value that is well-formed UTF-16. -/
def text? (s : Units) : Option String :=
  ((decodeWith some (fun _ => none) s.toList).mapM id).map String.ofList

/-- The number of code units. -/
def length (s : Units) : Nat :=
  s.toList.length

def isEmpty (s : Units) : Bool :=
  s.toList.isEmpty

def append (s t : Units) : Units :=
  ⟨s.toList ++ t.toList⟩

instance : Append Units := ⟨append⟩

/-- The string of the one code unit at a position. -/
def at? (s : Units) (i : Nat) : Option Units :=
  s.toList[i]?.map fun u => ⟨[u]⟩

/-- The value of decimal digits continued from `acc`. -/
def readIndexFrom (acc : Nat) : List UInt16 → Option Nat
  | [] => some acc
  | u :: rest =>
    if 48 ≤ u ∧ u ≤ 57 then readIndexFrom (acc * 10 + (u.toNat - 48)) rest else none

/-- The array index that a string writes: canonical decimal digits of a number below
`2 ^ 32 - 1`. -/
def arrayIndex? (s : Units) : Option Nat :=
  match s.toList with
  | [] => none
  | [u] => readIndexFrom 0 [u]
  | u :: rest =>
    if u = 48 ∨ 10 < rest.length + 1 then none
    else (readIndexFrom 0 (u :: rest)).filter (· < 0xFFFFFFFF)

/-- The key that writes an array index. -/
def ofIndex (i : Nat) : Units :=
  ofString (numeral 10 i)

/-- Lexicographic order of code units. -/
def lt (s t : Units) : Bool :=
  decide (s.toList < t.toList)

end Units

end Ecma
