import Mathlib
import Ecma.Text.Digit

/-! Runs of digits and the numbers that they read as: every digit counts by its place, and a numeral
is read back. -/

namespace Ecma

variable {radix : Nat} {digits : List Char}

/-- Just the runs of digits are read. -/
theorem isSome_readDigitsFrom (acc : Nat) :
    (readDigitsFrom radix acc digits).isSome = true ↔ ∀ d ∈ digits, isDigitIn radix d = true := by
  induction digits generalizing acc with
  | nil => simp [readDigitsFrom]
  | cons d digits ih =>
    rw [readDigitsFrom, List.forall_mem_cons, isDigitIn]
    cases digitIn radix d with
    | none => simp
    | some n => simpa using ih _

/-- The number that digits write: each of them counts by its place. -/
def placeValue (radix : Nat) (digits : List Char) : Nat :=
  Nat.ofDigits radix (digits.map fun d => (digitValue d).getD 0).reverse

@[simp]
theorem placeValue_nil (radix : Nat) : placeValue radix [] = 0 :=
  rfl

theorem placeValue_cons (radix : Nat) (d : Char) (digits : List Char) :
    placeValue radix (d :: digits) =
      (digitValue d).getD 0 * radix ^ digits.length + placeValue radix digits := by
  simp only [placeValue, List.map_cons, List.reverse_cons, Nat.ofDigits_append,
    Nat.ofDigits_singleton, List.length_reverse, List.length_map]
  ring

/-- Digits are read one after the other to the number that they write. -/
theorem readDigitsFrom_eq (acc : Nat) (h : ∀ d ∈ digits, isDigitIn radix d = true) :
    readDigitsFrom radix acc digits =
      some (acc * radix ^ digits.length + placeValue radix digits) := by
  induction digits generalizing acc with
  | nil => simp [readDigitsFrom]
  | cons d digits ih =>
    obtain ⟨hd, hdigits⟩ := List.forall_mem_cons.1 h
    obtain ⟨n, hn⟩ := Option.isSome_iff_exists.1 hd
    have hvalue : digitValue d = some n := (Option.filter_eq_some_iff.1 hn).1
    rw [readDigitsFrom, hn]
    dsimp only
    rw [ih _ hdigits, placeValue_cons, hvalue, Option.getD_some, List.length_cons]
    congr 1
    ring

theorem readDigitsFrom_eq_some_iff {acc n : Nat} : readDigitsFrom radix acc digits = some n ↔
    (∀ d ∈ digits, isDigitIn radix d = true) ∧
      n = acc * radix ^ digits.length + placeValue radix digits := by
  constructor
  · intro h
    have hdigits := (isSome_readDigitsFrom acc).1 (Option.isSome_iff_exists.2 ⟨n, h⟩)
    rw [readDigitsFrom_eq acc hdigits] at h
    exact ⟨hdigits, (Option.some.inj h).symm⟩
  · rintro ⟨hdigits, rfl⟩
    exact readDigitsFrom_eq acc hdigits

/-- The number that a run of digits writes, which has at least one. -/
def runValue? (radix : Nat) (digits : List Char) : Option Nat :=
  if digits.isEmpty then none else readDigitsFrom radix 0 digits

/-! ### Numerals -/

theorem digitIn_digitChar {d : Nat} (h : d < radix) (hradix : radix ≤ 36) :
    digitIn radix (digitChar d) = some d := by
  have hvalue : ∀ d < 36, digitValue (digitChar d) = some d := by decide
  rw [digitIn, hvalue d (by omega)]
  simpa using h

/-- The numeral of a number is read as it. -/
theorem readDigitsFrom_numeralBefore (hlow : 2 ≤ radix) (hhigh : radix ≤ 36) (n : Nat)
    (tail : List Char) :
    readDigitsFrom radix 0 (numeralBefore radix n tail) = readDigitsFrom radix n tail := by
  induction n using Nat.strongRecOn generalizing tail with
  | _ n ih =>
    rw [numeralBefore]
    split
    · next h =>
      have hdigit := digitIn_digitChar (Nat.mod_lt n (by omega)) hhigh
      rw [ih _ (Nat.div_lt_self (by omega) (by omega)), readDigitsFrom, hdigit]
      dsimp only
      rw [Nat.div_add_mod']
    · next h =>
      rw [readDigitsFrom, digitIn_digitChar (by omega) hhigh]
      dsimp only
      rw [Nat.zero_mul, Nat.zero_add]

/-! ### Signs -/

theorem runValue?_eq (h : digits ≠ []) : runValue? radix digits = readDigitsFrom radix 0 digits := by
  rw [runValue?, if_neg (by simpa using h)]

theorem splitSign_eq {text : List Char} (h : ∀ ch ∈ text.head?, ch ≠ '-' ∧ ch ≠ '+') :
    splitSign text = (false, text) := by
  unfold splitSign
  split
  · exact absurd rfl (h '-' rfl).1
  · exact absurd rfl (h '+' rfl).2
  · rfl

/-- No digit is a sign. -/
theorem splitSign_digits (h : ∀ d ∈ digits, isDigitIn radix d = true) :
    splitSign digits = (false, digits) := by
  refine splitSign_eq fun ch hch => ?_
  have hdigit := h ch (List.mem_of_mem_head? hch)
  constructor
  · rintro rfl
    cases hdigit
  · rintro rfl
    cases hdigit

/-- A run of digits is read as the number that it writes. -/
theorem read?_run [IntegerFormat] (hlow : 2 ≤ radix) (hhigh : radix ≤ 36) (hne : digits ≠ [])
    (h : ∀ d ∈ digits, isDigitIn radix d = true) :
    IntegerFormat.read? radix digits = some (placeValue radix digits : Int) := by
  refine IntegerFormat.read?_digits hlow hhigh hne ((readDigitsFrom_eq 0 h).trans ?_)
  rw [Nat.zero_mul, Nat.zero_add]

/-- Decimal digits are the digits of radix ten. -/
theorem isDigitIn_ten (c : Char) : isDigitIn 10 c = c.isDigit := by
  have hdigit : c.isDigit = true ↔ '0' ≤ c ∧ c ≤ '9' := by
    simp [Char.isDigit, Char.le_def, ge_iff_le]
  rw [Bool.eq_iff_iff, hdigit, isDigitIn, digitIn, digitValue]
  split_ifs with hten hlower hupper
  · have hle : c.toNat ≤ 57 := hten.2
    have hvalue : c.toNat - 48 < 10 := by omega
    simp [Option.filter, hvalue, hten]
  · simp [Option.filter, hten]
  · simp [Option.filter, hten]
  · simp [hten]

end Ecma
