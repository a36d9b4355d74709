import Ecma.Number.Rounding

/-! Arithmetic and comparison of Numbers where the language's rule differs from the machine's
operation: the truncating remainder, powers, the order with NaN, and sameness. -/

namespace Ecma.Number

/-- The remainder of two dyadic magnitudes, over the smaller of the two exponents. -/
def dyadicMod (m₁ : Nat) (e₁ : Int) (m₂ : Nat) (e₂ : Int) : Nat × Int :=
  let e := min e₁ e₂
  ((m₁ * Nat.pow 2 (e₁ - e).toNat) % (m₂ * Nat.pow 2 (e₂ - e).toNat), e)

/-- The remainder of a division that truncates. It is exact and has the sign of the dividend. -/
def remainder (x y : Number) : Number :=
  match x.exact, y.exact with
  | .finite negative m₁ e₁, .finite _ m₂ e₂ =>
    if m₂ = 0 then nan
    else
      let (m, e) := dyadicMod m₁ e₁ m₂ e₂
      ofDyadic negative m e
  | .finite .., .infinite _ => x
  | _, _ => nan

/-- Raising to a power: a NaN exponent gives NaN, and so does an infinite power of one or minus
one. -/
def exponentiate (base exponent : Number) : Number :=
  if exponent.isNaN then nan
  else if base.abs == 1.0 && exponent.isInfinite then nan
  else base.pow exponent

/-- Whether `x < y`; undefined if one of them is NaN. -/
def lessThan (x y : Number) : Option Bool :=
  if x.isNaN || y.isNaN then none else some (x < y)

/-- Sameness: NaN is the same as itself, and the two zeros differ. -/
def sameValue (x y : Number) : Bool :=
  if x.isNaN && y.isNaN then true
  else if x == 0.0 && y == 0.0 then x.isNegative == y.isNegative
  else x == y

end Ecma.Number
