import Ecma.Proofs.Number.Residue

/-! The 32-bit operators as operations on bit vectors. Each operand counts by its residue only: the
32 bits of its integer part in two's complement. -/

namespace Ecma

namespace Number

/-- The integer part modulo `2 ^ 32`, as bits in two's complement. -/
def residue (x : Number) : BitVec 32 :=
  BitVec.ofInt 32 x.whole

/-- The places by which an operand shifts: its integer part modulo 32. -/
def places (y : Number) : Nat :=
  (y.whole % 32).toNat

/-- A Number that is rounded from an integer and equal to it. -/
def IsInteger (x : Number) (i : ℤ) : Prop :=
  x = ofInt i ∧ x.measure = i

/-- The operators of two words. -/
def wordOperators : List (Number → Number → Number) :=
  [bitwiseAnd, bitwiseOr, bitwiseXor, leftShift, signedRightShift, unsignedRightShift]

/-! ### Words -/

theorem whole_eq (x : Number) : x.whole = x.exact.trunc?.getD 0 := by
  rw [whole]
  cases x.exact with
  | nan | infinite => rfl
  | finite negative m e =>
    rw [Exact.trunc?_finite]
    rfl

theorem toNat_toUint32 (x : Number) : (x.toUint32.toNat : ℤ) = x.whole % 0x100000000 := by
  rw [whole_eq, toUint32]
  cases x.exact.trunc? with
  | none => rfl
  | some i =>
    have hsize : (i % 0x100000000).toNat < UInt32.size := by
      change _ < 4294967296
      omega
    dsimp only [Option.getD_some]
    rw [UInt32.toNat_ofNat_of_lt' hsize]
    omega

theorem toBitVec_toUint32 (x : Number) : x.toUint32.toBitVec = x.residue := by
  have hnat := x.toNat_toUint32
  apply BitVec.eq_of_toNat_eq
  rw [residue, BitVec.toNat_ofInt, UInt32.toNat_toBitVec]
  change _ = (x.whole % 0x100000000).toNat
  omega

theorem toBitVec_toInt32 (x : Number) : x.toInt32.toBitVec = x.residue :=
  x.toBitVec_toUint32

theorem toInt_toInt32 (x : Number) : x.toInt32.toInt = x.whole.bmod 0x100000000 := by
  rw [← Int32.toInt_toBitVec, toBitVec_toInt32, residue, BitVec.toInt_ofInt]

/-- What is not finite has the integer part of zero. -/
theorem whole_of_not_finite {x : Number} (h : x.isFinite = false) : x.whole = 0 := by
  rw [isFinite_eq] at h
  rw [whole]
  cases hx : x.exact with
  | nan | infinite => rfl
  | finite =>
    rw [hx] at h
    cases h

/-! ### Results -/

theorem isInteger_ofInt32 (w : Int32) : (ofInt32 w).IsInteger w.toBitVec.toInt := by
  have hlow := w.le_toInt
  have hhigh := w.toInt_lt
  rw [Int32.toInt_toBitVec]
  exact ⟨rfl, measure_ofInt (by omega)⟩

theorem isInteger_ofUint32 (w : UInt32) : (ofUint32 w).IsInteger w.toBitVec.toNat := by
  have hlt := w.toNat_lt
  exact ⟨rfl, measure_ofInt (show ((w.toNat : Nat) : ℤ).natAbs < _ by omega)⟩

theorem places_lt (y : Number) : y.places < 32 := by
  unfold places
  omega

/-- A shift count is the number of places. -/
theorem toBitVec_shiftCount (y : Number) : y.shiftCount.toBitVec = BitVec.ofNat 32 y.places := by
  have hnat := y.toNat_toUint32
  apply BitVec.eq_of_toNat_eq
  rw [UInt32.toNat_toBitVec, shiftCount, UInt32.toNat_mod, BitVec.toNat_ofNat, places]
  change y.toUint32.toNat % 32 = _
  omega

/-- Shift counts are not reduced again. -/
theorem ofNat_reduced {n : Nat} (h : n < 32) :
    (BitVec.ofNat 32 n).smod 32 = BitVec.ofNat 32 n ∧ BitVec.ofNat 32 n % 32 = BitVec.ofNat 32 n := by
  have hall : ∀ n : Fin 32, (BitVec.ofNat 32 n).smod 32 = BitVec.ofNat 32 n ∧
      BitVec.ofNat 32 n % 32 = BitVec.ofNat 32 n := by
    decide
  exact hall ⟨n, h⟩

theorem toNat_ofNat_places (y : Number) : (BitVec.ofNat 32 y.places).toNat = y.places := by
  have hlt := y.places_lt
  rw [BitVec.toNat_ofNat]
  omega

theorem toBitVec_leftShift (x y : Number) :
    (x.toInt32 <<< y.shiftCount.toInt32).toBitVec = x.residue <<< y.places := by
  have hcount : y.shiftCount.toInt32.toBitVec = BitVec.ofNat 32 y.places := y.toBitVec_shiftCount
  rw [Int32.toBitVec_shiftLeft, toBitVec_toInt32, hcount, (ofNat_reduced y.places_lt).1,
    BitVec.shiftLeft_eq', toNat_ofNat_places]

theorem toBitVec_signedRightShift (x y : Number) :
    (x.toInt32 >>> y.shiftCount.toInt32).toBitVec = x.residue.sshiftRight y.places := by
  have hcount : y.shiftCount.toInt32.toBitVec = BitVec.ofNat 32 y.places := y.toBitVec_shiftCount
  rw [Int32.toBitVec_shiftRight, toBitVec_toInt32, hcount, (ofNat_reduced y.places_lt).1,
    BitVec.sshiftRight', toNat_ofNat_places]

theorem toBitVec_unsignedRightShift (x y : Number) :
    (x.toUint32 >>> y.shiftCount).toBitVec = x.residue >>> y.places := by
  rw [UInt32.toBitVec_shiftRight, toBitVec_toUint32, toBitVec_shiftCount,
    (ofNat_reduced y.places_lt).2, BitVec.ushiftRight_eq', toNat_ofNat_places]

/-- Equal residues have equal words. -/
theorem toUint32_congr {x x' : Number}
    (h : x.whole % 0x100000000 = x'.whole % 0x100000000) : x.toUint32 = x'.toUint32 := by
  have hleft := x.toNat_toUint32
  have hright := x'.toNat_toUint32
  exact UInt32.toNat_inj.mp (by omega)

end Number

open Number in
/-- The 32-bit operators are modular integer arithmetic. The word of a Number is its integer part
modulo `2 ^ 32`, also when it is computed by floating-point division; the operators are those of
bit vectors in two's complement on these residues, with a shift count modulo 32; and the results
depend on the operands only by their integer parts modulo `2 ^ 32`. -/
theorem word_operators (x y : Number) :
    x.dividedWord = x.toUint32 ∧
      (x.toUint32.toNat : ℤ) = x.whole % 0x100000000 ∧
      (x.isFinite = false → x.toUint32 = 0) ∧
      x.toInt32.toInt = x.whole.bmod 0x100000000 ∧
      -0x80000000 ≤ x.toInt32.toInt ∧ x.toInt32.toInt ≤ 0x7FFFFFFF ∧
      x.bitwiseNot.IsInteger (~~~ x.residue).toInt ∧
      (x.bitwiseAnd y).IsInteger (x.residue &&& y.residue).toInt ∧
      (x.bitwiseOr y).IsInteger (x.residue ||| y.residue).toInt ∧
      (x.bitwiseXor y).IsInteger (x.residue ^^^ y.residue).toInt ∧
      (x.leftShift y).IsInteger (x.residue <<< y.places).toInt ∧
      (x.signedRightShift y).IsInteger (x.residue.sshiftRight y.places).toInt ∧
      (x.unsignedRightShift y).IsInteger (x.residue >>> y.places).toNat ∧
      ∀ x' y' : Number, x.whole % 0x100000000 = x'.whole % 0x100000000 →
        y.whole % 0x100000000 = y'.whole % 0x100000000 →
          x.bitwiseNot = x'.bitwiseNot ∧ ∀ op ∈ wordOperators, op x y = op x' y' := by
  have hsigned (w : Int32) : (ofInt32 w).IsInteger w.toBitVec.toInt := isInteger_ofInt32 w
  refine ⟨x.dividedWord_eq, x.toNat_toUint32, ?_, x.toInt_toInt32, x.toInt32.le_toInt,
    Int.le_of_lt_add_one x.toInt32.toInt_lt, ?_, ?_, ?_, ?_, ?_, ?_, ?_, ?_⟩
  · intro h
    have hnat := x.toNat_toUint32
    rw [whole_of_not_finite h] at hnat
    exact UInt32.toNat_inj.mp (by simpa using hnat)
  · have h := hsigned (~~~ x.toInt32)
    rwa [Int32.toBitVec_not, toBitVec_toInt32] at h
  · have h := hsigned (x.toInt32 &&& y.toInt32)
    rwa [Int32.toBitVec_and, toBitVec_toInt32, toBitVec_toInt32] at h
  · have h := hsigned (x.toInt32 ||| y.toInt32)
    rwa [Int32.toBitVec_or, toBitVec_toInt32, toBitVec_toInt32] at h
  · have h := hsigned (x.toInt32 ^^^ y.toInt32)
    rwa [Int32.toBitVec_xor, toBitVec_toInt32, toBitVec_toInt32] at h
  · have h := hsigned (x.toInt32 <<< y.shiftCount.toInt32)
    rwa [toBitVec_leftShift] at h
  · have h := hsigned (x.toInt32 >>> y.shiftCount.toInt32)
    rwa [toBitVec_signedRightShift] at h
  · have h := isInteger_ofUint32 (x.toUint32 >>> y.shiftCount)
    rwa [toBitVec_unsignedRightShift] at h
  · intro x' y' hx hy
    have hwords := toUint32_congr hx
    have hwords' := toUint32_congr hy
    simp only [wordOperators, List.forall_mem_cons, List.not_mem_nil, false_implies, implies_true,
      bitwiseNot, bitwiseAnd, bitwiseOr, bitwiseXor, leftShift, signedRightShift,
      unsignedRightShift, shiftCount, toInt32, hwords, hwords', and_self]

/-- An infinity counts as zero and so does `2 ^ 32`; a shift by 33 places is one by any number of
places with that residue. -/
theorem word_operators_infinity :
    (Number.infinity false).isFinite = false ∧
      (Number.infinity false).whole % 0x100000000 = Number.whole 4294967296.0 % 0x100000000 ∧
      Number.whole 33.0 % 0x100000000 = Number.whole (-4294967263.0) % 0x100000000 ∧
      (Number.infinity false).toUint32 = 0 ∧
      ∀ op ∈ Number.wordOperators,
        op (Number.infinity false) 33.0 = op 4294967296.0 (-4294967263.0) := by
  have hinfinite : (Number.infinity false).isFinite = false := by decide
  have hzero : (Number.infinity false).whole % 0x100000000 =
      Number.whole 4294967296.0 % 0x100000000 := by
    rw [Number.whole_eq, Number.whole_eq]
    decide
  have hplaces : Number.whole 33.0 % 0x100000000 =
      Number.whole (-4294967263.0) % 0x100000000 := by
    rw [Number.whole_eq, Number.whole_eq]
    decide
  obtain ⟨-, -, hword, -, -, -, -, -, -, -, -, -, -, hresidues⟩ :=
    word_operators (Number.infinity false) 33.0
  exact ⟨hinfinite, hzero, hplaces, hword hinfinite, (hresidues _ _ hzero hplaces).2⟩

end Ecma
