import Mathlib
import Ecma.Eval.Operator

/-! Sameness of values and equality with conversion. Sameness is equality: for Numbers this rests on
what the machine's equality compares, doubles of which only the two zeros are equal without being the
same, and NaN is equal to nothing. The rules of equality with conversion are an ordered table over the
types of the two operands, and some of them convert one side and start again; which side that is does
not matter. -/

namespace Ecma

/-! ### Sameness -/

namespace Number

theorem eq_zero_of_beq {x : Number} (h : (x == 0.0) = true) : x = 0 ∨ x = -0 := by
  have hzero : (0.0 : Float) = 0 := by decide
  rw [hzero, Float.beq_iff_ne_nan_and_eq] at h
  rcases h with ⟨-, -, h | ⟨h, -⟩ | ⟨h, -⟩⟩
  · exact .inl h
  · exact .inl h
  · exact .inr h

/-- The sign tells the two zeros apart. -/
theorem isNegative_zero : isNegative 0 = false ∧ isNegative (-0) = true := by
  decide

theorem sameValue_iff {x y : Number} : x.sameValue y = true ↔ x = y := by
  unfold sameValue
  split
  · next hnan =>
    simp only [Float.isNaN_eq_decide_eq_nan, Bool.and_eq_true, decide_eq_true_eq] at hnan
    simp [hnan]
  · next hnan =>
    simp only [Float.isNaN_eq_decide_eq_nan, Bool.and_eq_true, decide_eq_true_eq] at hnan
    obtain ⟨hpositive, hnegative⟩ := isNegative_zero
    split
    · next hzero =>
      rw [Bool.and_eq_true] at hzero
      have hne : (0 : Float) ≠ -0 := fun heq => by
        rw [← heq, hpositive] at hnegative
        cases hnegative
      rcases eq_zero_of_beq hzero.1 with rfl | rfl <;>
        rcases eq_zero_of_beq hzero.2 with rfl | rfl <;>
          simp [hpositive, hnegative, hne, hne.symm]
    · next hzero =>
      rw [Float.beq_iff_ne_nan_and_eq]
      constructor
      · rintro ⟨-, -, h | ⟨rfl, rfl⟩ | ⟨rfl, rfl⟩⟩
        · exact h
        · exact absurd (by decide) hzero
        · exact absurd (by decide) hzero
      · rintro rfl
        have hx : x ≠ Float.nan := fun h => hnan ⟨h, h⟩
        exact ⟨hx, hx, .inl rfl⟩

end Number

/-- Primitives that are the same are equal. -/
theorem Primitive.sameValue_iff {p q : Primitive} : p.sameValue q = true ↔ p = q := by
  cases p <;> cases q <;> simp [sameValue, strictEquals, Number.sameValue_iff]

theorem Value.sameValue_iff {v w : Value} : v.sameValue w = true ↔ v = w := by
  cases v <;> cases w <;> simp [sameValue, Primitive.sameValue_iff]

/-! ### Types -/

/-- The types of values. -/
inductive ValueType where
  | undefined
  | null
  | boolean
  | number
  | string
  | symbol
  | bigInt
  | object
deriving Repr, DecidableEq

namespace Primitive

/-- The type of a primitive. -/
def type : Primitive → ValueType
  | .undefined => .undefined
  | .null => .null
  | .boolean _ => .boolean
  | .number _ => .number
  | .string _ => .string
  | .symbol _ => .symbol
  | .bigInt _ => .bigInt

end Primitive

/-- The type of a value. -/
def Value.type : Value → ValueType
  | .primitive p => p.type
  | .object _ => .object

/-! ### Primitives -/

theorem Number.beq_comm (x y : Number) : (x == y) = (y == x) := by
  rw [Bool.eq_iff_iff, Float.beq_iff_ne_nan_and_eq, Float.beq_iff_ne_nan_and_eq]
  constructor
  · rintro ⟨hx, hy, h | h | h⟩
    · exact ⟨hy, hx, .inl h.symm⟩
    · exact ⟨hy, hx, .inr (.inr h.symm)⟩
    · exact ⟨hy, hx, .inr (.inl h.symm)⟩
  · rintro ⟨hy, hx, h | h | h⟩
    · exact ⟨hx, hy, .inl h.symm⟩
    · exact ⟨hx, hy, .inr (.inr h.symm)⟩
    · exact ⟨hx, hy, .inr (.inl h.symm)⟩

/-- Booleans are equal as Numbers if they are equal. -/
theorem Number.ofBool_beq (a b : Bool) : (ofBool a == ofBool b) = (a == b) := by
  cases a <;> cases b <;> decide

namespace Primitive

theorem convertedEquals_comm (p q : Primitive) : p.convertedEquals q = q.convertedEquals p := by
  cases p <;> cases q <;>
    simp only [convertedEquals, strictEquals, Number.beq_comm, Bool.beq_comm]

theorem looselyEquals_comm (p q : Primitive) : p.looselyEquals q = q.looselyEquals p :=
  convertedEquals_comm _ _

end Primitive

/-! ### Values -/

namespace Engine

variable (eng : Engine)

/-- One turn of the table. Its rules are tried in order, and one that converts a side hands the pair
to `again`. -/
def equalityTurn (again : Value → Value → Eval Bool) (x y : Value) : Eval Bool :=
  if x.type = y.type then return x.strictEquals y
  else
    match x, y with
    | .undefined, .null | .null, .undefined => return true
    | .number a, .string s | .string s, .number a => return a == Number.ofUnits s
    | .bigInt i, .string s | .string s, .bigInt i => return intOfUnits? s == some i
    | .boolean b, y => again (.number (.ofBool b)) y
    | x, .boolean b => again x (.number (.ofBool b))
    | .object o, .primitive q =>
      if q.isNullish then return false
      else do again (.primitive (← eng.toPrimitive (.object o) .default)) (.primitive q)
    | .primitive p, .object o =>
      if p.isNullish then return false
      else do again (.primitive p) (.primitive (← eng.toPrimitive (.object o) .default))
    | .bigInt i, .number a | .number a, .bigInt i =>
      return Exact.compareInt i a.exact == some .eq
    | _, _ => return false

/-- Equality with conversion goes by the table, turn after turn. -/
theorem looselyEqual_eq_turn (x y : Value) :
    eng.looselyEqual x y = eng.equalityTurn eng.looselyEqual x y := by
  rcases x with p | a <;> rcases y with q | b
  · cases p <;> cases q <;> first | rfl | exact congrArg pure (Number.ofBool_beq _ _)
  · cases p <;> rfl
  · cases q <;> rfl
  · rfl

/-- Equality with conversion goes by the table, and is symmetric in all that it does: whatever the
state, the two orders of the operands give the same result or throw the same value, and end in the
same state. Values of one type are compared as they are, without an effect. -/
theorem looselyEqual_symmetric (x y : Value) (s : State) :
    eng.looselyEqual x y s = eng.equalityTurn eng.looselyEqual x y s ∧
    eng.looselyEqual x y s = eng.looselyEqual y x s ∧
    (x.type = y.type → eng.looselyEqual x y s = .ok (x.strictEquals y) s) := by
  refine ⟨by rw [looselyEqual_eq_turn], ?_, ?_⟩
  · rcases x with p | a <;> rcases y with q | b
    · exact congrArg (EStateM.Result.ok · s) (Primitive.looselyEquals_comm p q)
    · simp only [looselyEqual, Primitive.looselyEquals_comm p]
    · simp only [looselyEqual, Primitive.looselyEquals_comm q]
    · exact congrArg (EStateM.Result.ok · s) Bool.beq_comm
  · intro htype
    rw [looselyEqual_eq_turn]
    unfold equalityTurn
    rw [if_pos htype]
    rfl

end Engine

end Ecma
