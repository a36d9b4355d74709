import Ecma.Number.Exact

/-! Rounding of an exact quotient to the nearest Number, with a tie going to the even significand.
Every number that the language reads from text or computes in integers comes through here, so it
is rounded once. -/

namespace Ecma

/-- The integer nearest to a quotient; of two equally near ones the even one. -/
def roundDiv (num den : Nat) : Nat :=
  let q := num / den
  let r := num % den
  match compare (2 * r) den with
  | .lt => q
  | .gt => q + 1
  | .eq => if q % 2 = 0 then q else q + 1

/-- The exponent `e` of a positive quotient: `2 ^ e ≤ num / den < 2 ^ (e + 1)`. -/
def ratioLog2 (num den : Nat) : Int :=
  let e : Int := (num.log2 : Int) - den.log2
  let reached :=
    match e with
    | .ofNat k => decide (den * Nat.pow 2 k ≤ num)
    | .negSucc k => decide (den ≤ num * Nat.pow 2 (k + 1))
  if reached then e else e - 1

namespace Number

/-- The Number nearest to `± num / den`. The significand has 53 bits, fewer below the smallest
normal number; a significand that rounds up to `2 ^ 53` carries into the exponent field, and a
value that passes the largest exponent is infinite. -/
def ofRatio (negative : Bool) (num den : Nat) : Number :=
  if num = 0 then zero negative
  else
    let q := max (ratioLog2 num den - 52) (-1074)
    let significand :=
      match q with
      | .ofNat k => roundDiv num (den * Nat.pow 2 k)
      | .negSucc k => roundDiv (num * Nat.pow 2 (k + 1)) den
    let magnitude := (q + 1074).toNat * 0x10000000000000 + significand
    if 0x7FF0000000000000 ≤ magnitude then infinity negative
    else Float.ofBits (UInt64.ofNat (magnitude + if negative then 0x8000000000000000 else 0))

/-- The Number nearest to an integer. -/
def ofInt (i : Int) : Number :=
  ofRatio (decide (i < 0)) i.natAbs 1

/-- The Number nearest to `± significand * 2 ^ exponent`. -/
def ofDyadic (negative : Bool) (significand : Nat) (exponent : Int) : Number :=
  match exponent with
  | .ofNat e => ofRatio negative (significand * Nat.pow 2 e) 1
  | .negSucc e => ofRatio negative significand (Nat.pow 2 (e + 1))

/-- The Number nearest to `± digits * 10 ^ exponent`, where `digits < 10 ^ count`. A positive value
from `10 ^ 400` on is infinite and one below `10 ^ -330` is zero, so larger powers of ten are not
computed. -/
def ofDecimal (negative : Bool) (digits count : Nat) (exponent : Int) : Number :=
  if digits = 0 then zero negative
  else if 400 ≤ exponent then infinity negative
  else if exponent + count < -330 then zero negative
  else
    match exponent with
    | .ofNat e => ofRatio negative (digits * Nat.pow 10 e) 1
    | .negSucc e => ofRatio negative digits (Nat.pow 10 (e + 1))

end Number

end Ecma
