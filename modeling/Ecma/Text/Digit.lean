/-! Digits in a radix from 2 to 36: the value of a digit character, the numeral that writes a
natural number, and the texts of integers of any size. -/

namespace Ecma

/-- The value of a digit character: `0` to `9`, then the letters in either case. -/
def digitValue (c : Char) : Option Nat :=
  if '0' ≤ c ∧ c ≤ '9' then some (c.toNat - '0'.toNat)
  else if 'a' ≤ c ∧ c ≤ 'z' then some (c.toNat - 'a'.toNat + 10)
  else if 'A' ≤ c ∧ c ≤ 'Z' then some (c.toNat - 'A'.toNat + 10)
  else none

/-- The value of a character that is a digit in the radix. -/
def digitIn (radix : Nat) (c : Char) : Option Nat :=
  (digitValue c).filter (· < radix)

/-- A character is a digit in the radix. -/
def isDigitIn (radix : Nat) (c : Char) : Bool :=
  (digitIn radix c).isSome

/-- The character of a digit value; letters are lower case. -/
def digitChar (d : Nat) : Char :=
  if d < 10 then Char.ofNat ('0'.toNat + d) else Char.ofNat ('a'.toNat + (d - 10))

/-- The numeral of `n`, most significant digit first, written before `tail`. -/
def numeralBefore (radix n : Nat) (tail : List Char) : List Char :=
  if _h : 2 ≤ radix ∧ radix ≤ n then
    numeralBefore radix (n / radix) (digitChar (n % radix) :: tail)
  else digitChar n :: tail
termination_by n
decreasing_by exact Nat.div_lt_self (by omega) (by omega)

/-- The numeral of `n` in the radix, without leading zeros. -/
def numeral (radix n : Nat) : String :=
  String.ofList (numeralBefore radix n [])

/-- The numeral of an integer: a minus sign stands before the digits of a negative one. -/
def intNumeral (radix : Nat) (i : Int) : String :=
  if i < 0 then "-" ++ numeral radix i.natAbs else numeral radix i.natAbs

/-- The value of a run of digits continued from `acc`, or nothing if a character is no digit. -/
def readDigitsFrom (radix acc : Nat) : List Char → Option Nat
  | [] => some acc
  | c :: rest =>
    match digitIn radix c with
    | some d => readDigitsFrom radix (acc * radix + d) rest
    | none => none

/-- A sign in front of a text, and the text after it. -/
def splitSign : List Char → Bool × List Char
  | '-' :: rest => (true, rest)
  | '+' :: rest => (false, rest)
  | text => (false, text)

/-- A decimal text with a zero before other digits, as in legacy literals, which strict code
rejects. -/
def hasLeadingZero : List Char → Bool
  | '0' :: c :: _ => c.isDigit
  | _ => false

/-- The radix that the first two characters of a text announce, and the text after them. -/
def splitRadix? : List Char → Option (Nat × List Char)
  | '0' :: c :: rest =>
    if c = 'x' ∨ c = 'X' then some (16, rest)
    else if c = 'o' ∨ c = 'O' then some (8, rest)
    else if c = 'b' ∨ c = 'B' then some (2, rest)
    else none
  | _ => none

/-! ### Integers of any size -/

theorem isDigitIn_of_readDigitsFrom {radix acc n : Nat} {digits : List Char}
    (h : readDigitsFrom radix acc digits = some n) : ∀ d ∈ digits, isDigitIn radix d = true := by
  induction digits generalizing acc with
  | nil => exact fun _ hd => absurd hd List.not_mem_nil
  | cons d digits ih =>
    unfold readDigitsFrom at h
    split at h
    · next m hm =>
      intro e he
      rcases List.mem_cons.mp he with rfl | he
      · rw [isDigitIn, hm]
        rfl
      · exact ih h e he
    · cases h

/-- How integers of any size are read from texts and written. Of the reading it is only known that it
takes a run of digits, with a sign or without, for the integer that they write; whatever else it
takes is left open. -/
class IntegerFormat where
  read? (radix : Nat) (text : List Char) : Option Int
  write (radix : Nat) (i : Int) : String
  read?_digits {radix n : Nat} {digits : List Char} (hlow : 2 ≤ radix) (hhigh : radix ≤ 36)
    (hne : digits ≠ []) (h : readDigitsFrom radix 0 digits = some n) :
    read? radix digits = some (n : Int)
  read?_plus {radix n : Nat} {digits : List Char} (hlow : 2 ≤ radix) (hhigh : radix ≤ 36)
    (hne : digits ≠ []) (h : readDigitsFrom radix 0 digits = some n) :
    read? radix ('+' :: digits) = some (n : Int)
  read?_minus {radix n : Nat} {digits : List Char} (hlow : 2 ≤ radix) (hhigh : radix ≤ 36)
    (hne : digits ≠ []) (h : readDigitsFrom radix 0 digits = some n) :
    read? radix ('-' :: digits) = some (-(n : Int))
  write_eq {radix : Nat} (hlow : 2 ≤ radix) (hhigh : radix ≤ 36) (i : Int) :
    write radix i = intNumeral radix i

namespace IntegerFormat

/-- Takes a sign off the front of a text, unless a plus sign comes behind it. -/
def dropSign (sign : Char) (text : List Char) : List Char :=
  if text.head? = some sign ∧ text[1]? ≠ some '+' then text.drop 1 else text

/-- A natural number, which may have a plus sign in front and underscores behind its first digit. -/
def readMagnitude? (radix : Nat) (text : List Char) : Option Nat :=
  let digits := dropSign '+' text
  if digits.isEmpty ∨ digits.head? = some '_' then none
  else readDigitsFrom radix 0 (digits.filter (· != '_'))

/-- An integer, which may have signs in front and underscores behind its first digit. -/
def readTolerant? (radix : Nat) (text : List Char) : Option Int :=
  (readMagnitude? radix (dropSign '-' text)).map fun n : Nat =>
    if text.head? = some '-' then -(n : Int) else n

example : readTolerant? 10 "-1_000".toList = some (-1000) := by decide

section

variable {radix n : Nat} {digits : List Char}

theorem dropSign_cons (sign : Char) (h : ∀ d ∈ digits, isDigitIn radix d = true) :
    dropSign sign (sign :: digits) = digits := by
  refine if_pos ⟨rfl, fun hplus => ?_⟩
  exact Bool.false_ne_true (h '+' (List.mem_of_getElem? (i := 0) hplus))

theorem dropSign_digits {sign : Char} (hsign : isDigitIn radix sign = false)
    (h : ∀ d ∈ digits, isDigitIn radix d = true) : dropSign sign digits = digits := by
  refine if_neg fun hhead => Bool.false_ne_true (hsign.symm.trans (h sign ?_))
  exact List.mem_of_head? hhead.1

/-- A run of digits is read as it stands, behind a plus sign or not. -/
theorem readMagnitude?_eq {text : List Char} (htext : dropSign '+' text = digits)
    (hne : digits ≠ []) (h : readDigitsFrom radix 0 digits = some n) :
    readMagnitude? radix text = some n := by
  have hdigits := isDigitIn_of_readDigitsFrom h
  have hline : '_' ∉ digits := fun hmem => Bool.false_ne_true (hdigits '_' hmem)
  have hfilter : digits.filter (· != '_') = digits :=
    List.filter_eq_self.mpr fun d hd => bne_iff_ne.mpr fun heq => hline (heq ▸ hd)
  have hhead : ¬(digits.isEmpty ∨ digits.head? = some '_') := by
    rintro (hempty | hhead)
    · exact hne (List.isEmpty_iff.mp hempty)
    · exact hline (List.mem_of_head? hhead)
  unfold readMagnitude?
  rw [htext]
  dsimp only
  rw [if_neg hhead, hfilter, h]

theorem readTolerant?_digits (hne : digits ≠ []) (h : readDigitsFrom radix 0 digits = some n) :
    readTolerant? radix digits = some (n : Int) := by
  have hdigits := isDigitIn_of_readDigitsFrom h
  have hminus : digits.head? ≠ some '-' := fun hhead =>
    Bool.false_ne_true (hdigits '-' (List.mem_of_head? hhead))
  rw [readTolerant?, dropSign_digits rfl hdigits,
    readMagnitude?_eq (dropSign_digits rfl hdigits) hne h, Option.map_some, if_neg hminus]

theorem readTolerant?_plus (hne : digits ≠ []) (h : readDigitsFrom radix 0 digits = some n) :
    readTolerant? radix ('+' :: digits) = some (n : Int) := by
  have hdigits := isDigitIn_of_readDigitsFrom h
  rw [readTolerant?, show dropSign '-' ('+' :: digits) = '+' :: digits from rfl,
    readMagnitude?_eq (dropSign_cons '+' hdigits) hne h]
  rfl

theorem readTolerant?_minus (hne : digits ≠ []) (h : readDigitsFrom radix 0 digits = some n) :
    readTolerant? radix ('-' :: digits) = some (-(n : Int)) := by
  have hdigits := isDigitIn_of_readDigitsFrom h
  rw [readTolerant?, dropSign_cons '-' hdigits,
    readMagnitude?_eq (dropSign_digits rfl hdigits) hne h]
  rfl

end

/-- The reading that allows underscores, and the numerals. -/
instance tolerant : IntegerFormat where
  read? := readTolerant?
  write := intNumeral
  read?_digits _ _ := readTolerant?_digits
  read?_plus _ _ := readTolerant?_plus
  read?_minus _ _ := readTolerant?_minus
  write_eq _ _ _ := rfl

end IntegerFormat

end Ecma
