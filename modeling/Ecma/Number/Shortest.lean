import Ecma.Number.Exact

/-! The shortest decimal that reads back as a given Number. A decimal reads back when it lies in
the interval of reals that round to the Number; the two neighbours of the value on the grid of
decimals with one digit are tried first, then those with two digits, and so on. Seventeen digits
always suffice. -/

namespace Ecma

/-- Where an exact tie between two equally short decimals goes. -/
inductive DecimalTie where
  | toEven
  | up
deriving Repr, DecidableEq

/-- A decimal `digits * 10 ^ exponent`. -/
structure Decimal where
  digits : Nat
  exponent : Int
deriving Repr, DecidableEq

namespace Decimal

/-- Drops trailing zeros of the digits, at most `fuel` of them. -/
def strip (d : Decimal) : (fuel : Nat) → Decimal
  | 0 => d
  | fuel + 1 =>
    if d.digits ≠ 0 ∧ d.digits % 10 = 0 then
      strip ⟨d.digits / 10, d.exponent + 1⟩ fuel
    else d

end Decimal

/-- The reals that round to `significand * 2 ^ exponent`, in units of `2 ^ (exponent - 2)`: the
lower end is half as far away where the exponent changes, and both ends belong to the interval
when the significand is even. -/
structure RoundingInterval where
  low : Nat
  value : Nat
  high : Nat
  unit : Int
  closed : Bool
deriving Repr, DecidableEq

namespace RoundingInterval

/-- The interval around a positive double. -/
def around (significand : Nat) (exponent : Int) : RoundingInterval :=
  let narrow := significand = 0x10000000000000 ∧ -1074 < exponent
  { low := 4 * significand - if narrow then 1 else 2
    value := 4 * significand
    high := 4 * significand + 2
    unit := exponent - 2
    closed := significand % 2 = 0 }

/-- The scale of the grid `10 ^ exponent`: a decimal `d` on the grid and a number `n` of units are
compared as `d * fst` and `n * snd`. -/
def scale (i : RoundingInterval) (exponent : Int) : Nat × Nat :=
  let twos (e : Int) : Nat × Nat :=
    match e with
    | .ofNat k => (1, Nat.pow 2 k)
    | .negSucc k => (Nat.pow 2 (k + 1), 1)
  let tens : Nat × Nat :=
    match exponent with
    | .ofNat k => (Nat.pow 10 k, 1)
    | .negSucc k => (1, Nat.pow 10 (k + 1))
  let two := twos i.unit
  (tens.1 * two.1, tens.2 * two.2)

/-- A decimal on the scaled grid reads back as the value. -/
def contains (i : RoundingInterval) (scale : Nat × Nat) (d : Nat) : Bool :=
  let x := d * scale.1
  if i.closed then decide (i.low * scale.2 ≤ x ∧ x ≤ i.high * scale.2)
  else decide (i.low * scale.2 < x ∧ x < i.high * scale.2)

/-- The nearer of the value's two neighbours on the grid, if one of them reads back. -/
def onGrid? (i : RoundingInterval) (tie : DecimalTie) (exponent : Int) : Option Nat :=
  let s := i.scale exponent
  let below := i.value * s.2 / s.1
  let above := below + 1
  match i.contains s below, i.contains s above with
  | false, false => none
  | true, false => some below
  | false, true => some above
  | true, true =>
    let rest := i.value * s.2 - below * s.1
    match compare (2 * rest) s.1 with
    | .lt => some below
    | .gt => some above
    | .eq =>
      match tie with
      | .toEven => some (if below % 2 = 0 then below else above)
      | .up => some above

/-- The value is at least `10 ^ exponent`. -/
def reaches (i : RoundingInterval) (exponent : Int) : Bool :=
  let s := i.scale exponent
  decide (s.1 ≤ i.value * s.2)

end RoundingInterval

/-- The number `k` with `10 ^ (k - 1) ≤ value < 10 ^ k`, found from an estimate that is at most
`fuel` too low. -/
def decimalPoint (i : RoundingInterval) (k : Int) : (fuel : Nat) → Int
  | 0 => k
  | fuel + 1 => if i.reaches k then decimalPoint i (k + 1) fuel else k

/-- The first decimal that reads back on the grids with `count`, `count + 1`, … digits. -/
def shortestFrom (i : RoundingInterval) (tie : DecimalTie) (point : Int) (count : Nat) :
    (fuel : Nat) → Decimal
  | 0 => ⟨0, 0⟩
  | fuel + 1 =>
    match i.onGrid? tie (point - count) with
    | some d => ⟨d, point - count⟩
    | none => shortestFrom i tie point (count + 1) fuel

/-- The shortest decimal that reads back as `significand * 2 ^ exponent`, without trailing
zeros. -/
def shortestDecimal (tie : DecimalTie) (significand : Nat) (exponent : Int) : Decimal :=
  let i := RoundingInterval.around significand exponent
  -- 1233 / 4096 is just below the decimal logarithm of two
  let estimate := ((significand.log2 : Int) + exponent) * 1233 / 4096 - 1
  let point := decimalPoint i estimate 6
  (shortestFrom i tie point 1 17).strip 20

end Ecma
