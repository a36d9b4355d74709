import Ecma.Number.Rounding

/-! The 32-bit operators: integer arithmetic modulo `2 ^ 32` on the integer parts of Numbers. -/

namespace Ecma.Number

/-- The integer part modulo `2 ^ 32`; zero for NaN and the infinities. -/
def toUint32 (x : Number) : UInt32 :=
  match x.exact.trunc? with
  | some i => UInt32.ofNat (i % 0x100000000).toNat
  | none => 0

/-- The residue of `toUint32` read in two's complement. -/
def toInt32 (x : Number) : Int32 :=
  x.toUint32.toInt32

/-- The Number of a signed word. -/
def ofInt32 (w : Int32) : Number :=
  ofInt w.toInt

/-- The Number of an unsigned word. -/
def ofUint32 (w : UInt32) : Number :=
  ofInt w.toNat

/-- The shift count of an operand: its residue modulo 32. -/
def shiftCount (y : Number) : UInt32 :=
  y.toUint32 % 32

def bitwiseNot (x : Number) : Number :=
  ofInt32 (~~~ x.toInt32)

def bitwiseAnd (x y : Number) : Number :=
  ofInt32 (x.toInt32 &&& y.toInt32)

def bitwiseOr (x y : Number) : Number :=
  ofInt32 (x.toInt32 ||| y.toInt32)

def bitwiseXor (x y : Number) : Number :=
  ofInt32 (x.toInt32 ^^^ y.toInt32)

def leftShift (x y : Number) : Number :=
  ofInt32 (x.toInt32 <<< y.shiftCount.toInt32)

/-- The sign bit is copied into the vacated places. -/
def signedRightShift (x y : Number) : Number :=
  ofInt32 (x.toInt32 >>> y.shiftCount.toInt32)

/-- Zeros are shifted into the vacated places. -/
def unsignedRightShift (x y : Number) : Number :=
  ofUint32 (x.toUint32 >>> y.shiftCount)

end Ecma.Number
