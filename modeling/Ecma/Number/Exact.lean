/-! Numbers are IEEE 754 doubles. This module gives each one its exact value, a sign, a natural
significand and a power of two, so that integer parts, residues and comparisons are computed in
integers. -/

namespace Ecma

/-- The Number type of the language: double-precision floating point. -/
abbrev Number := Float

/-- The exact value of a Number; a finite one is `± significand * 2 ^ exponent`. -/
inductive Exact where
  | nan
  | infinite (negative : Bool)
  | finite (negative : Bool) (significand : Nat) (exponent : Int)
deriving Repr, DecidableEq

namespace Exact

/-- The integer part of a dyadic magnitude. -/
def floorOf (significand : Nat) (exponent : Int) : Nat :=
  match exponent with
  | .ofNat e => significand * Nat.pow 2 e
  | .negSucc e => significand / Nat.pow 2 (e + 1)

/-- A dyadic magnitude has no fraction. -/
def isWhole (significand : Nat) (exponent : Int) : Bool :=
  match exponent with
  | .ofNat _ => true
  | .negSucc e => significand % Nat.pow 2 (e + 1) == 0

/-- The value cut off towards zero, for a finite value. -/
def trunc? : Exact → Option Int
  | .finite negative m e =>
    let n := floorOf m e
    some (if negative then - (n : Int) else n)
  | _ => none

/-- The value itself, if it is an integer. -/
def toInt? : Exact → Option Int
  | .finite negative m e =>
    if isWhole m e then
      let n := floorOf m e
      some (if negative then - (n : Int) else n)
    else none
  | _ => none

/-- The greatest integer that is not above `value * 2 ^ exponent`. -/
def floorInt (value : Int) (exponent : Int) : Int :=
  match exponent with
  | .ofNat e => value * Int.ofNat (Nat.pow 2 e)
  | .negSucc e => value.fdiv (Int.ofNat (Nat.pow 2 (e + 1)))

/-- Orders an integer against an exact value: against its floor, and if it is equal to that, a
fraction makes it the smaller one. NaN has no order. -/
def compareInt (i : Int) : Exact → Option Ordering
  | .nan => none
  | .infinite negative => some (if negative then .gt else .lt)
  | .finite negative m e =>
    match compare i (floorInt (if negative then - (m : Int) else m) e) with
    | .eq => some (if isWhole m e then .eq else .lt)
    | order => some order

end Exact

namespace Number

/-- The number that is not a number. -/
def nan : Number := Float.ofBits 0x7FF8000000000000

/-- Infinity with a sign. -/
def infinity (negative : Bool) : Number :=
  Float.ofBits (if negative then 0xFFF0000000000000 else 0x7FF0000000000000)

/-- Zero with a sign. -/
def zero (negative : Bool) : Number :=
  Float.ofBits (if negative then 0x8000000000000000 else 0)

/-- The sign bit is set. -/
def isNegative (x : Number) : Bool :=
  decide (0x8000000000000000 ≤ x.toBits.toNat)

/-- The exact value that the bits of a double stand for: a biased exponent of zero marks the
subnormal numbers, the largest one the infinities and NaN. -/
def exact (x : Number) : Exact :=
  let bits : Nat := x.toBits.toNat
  let negative := decide (0x8000000000000000 ≤ bits)
  let biased : Nat := bits / 0x10000000000000 % 0x800
  let fraction : Nat := bits % 0x10000000000000
  if biased = 2047 then
    if fraction = 0 then .infinite negative else .nan
  else if biased = 0 then .finite negative fraction (-1074)
  else .finite negative (0x10000000000000 + fraction) ((biased : Int) - 1075)

/-- One of the two infinities. -/
def isInfinite (x : Number) : Bool :=
  match x.exact with
  | .infinite _ => true
  | _ => false

end Number

end Ecma
