import Mathlib
import Ecma.Number.Exact

/-! Doubles as the machine takes them apart. The exact value of a double is read off the same three
fields, so that what is computed in integers can be compared with what the machine's operations
do. -/

namespace Ecma

open Float.Model Float.Model.UnpackedFloat

/-! ### Fields -/

section

variable (b : BitVec Format.binary64.numBits)

theorem toNat_unpackExponent : (unpackExponent b).toNat = b.toNat / 0x10000000000000 % 0x800 := by
  rw [unpackExponent_def, BitVec.extractLsb'_toNat, Nat.shiftRight_eq_div_pow]
  rfl

theorem toNat_unpackMantissa : (unpackMantissa b).toNat = b.toNat % 0x10000000000000 := by
  rw [unpackMantissa_def, BitVec.extractLsb'_toNat, Nat.shiftRight_eq_div_pow, Nat.pow_zero,
    Nat.div_one]
  rfl

theorem toNat_unpackSign : (unpackSign b).toNat = b.toNat / 0x8000000000000000 := by
  have hb : b.toNat < 2 ^ 64 := b.isLt
  rw [unpackSign_def, BitVec.extractLsb'_toNat, Nat.shiftRight_eq_div_pow]
  change b.toNat / 0x8000000000000000 % 2 = _
  omega

/-- The sign is the minus. -/
def isMinus : Sign → Bool
  | .negative => true
  | .positive => false

theorem isMinus_inj {s s' : Sign} (h : isMinus s = isMinus s') : s = s' := by
  cases s <;> cases s' <;> first | rfl | cases h

theorem isMinus_unpackSign :
    isMinus (Sign.ofBitVec (unpackSign b)) = decide (0x8000000000000000 ≤ b.toNat) := by
  have hzero : unpackSign b = 0#1 ↔ b.toNat / 0x8000000000000000 = 0 := by
    rw [← toNat_unpackSign b, ← BitVec.toNat_inj]
    rfl
  unfold Sign.ofBitVec
  split
  · next h =>
    rw [hzero] at h
    exact (decide_eq_false (by omega)).symm
  · next h =>
    rw [hzero] at h
    exact (decide_eq_true (by omega)).symm

end

namespace Exact

/-- The exact value of a double that is taken apart. -/
def ofUnpacked : UnpackedFloat → Exact
  | .notANumber => .nan
  | .infinity s => .infinite (isMinus s)
  | .zero s => .finite (isMinus s) 0 (-1074)
  | .finite s m e _ => .finite (isMinus s) m e

theorem ofUnpacked_inj {u v : UnpackedFloat} (h : ofUnpacked u = ofUnpacked v) : u = v := by
  cases u <;> cases v <;> simp only [ofUnpacked, reduceCtorEq, infinite.injEq, finite.injEq] at h
  · rw [isMinus_inj h]
  · rfl
  · rw [isMinus_inj h.1]
  · next hm => exact absurd h.2.1 (by omega)
  · next hm _ => exact absurd h.2.1 (by omega)
  · obtain ⟨hs, rfl, rfl⟩ := h
    rw [isMinus_inj hs]

/-- The fields of a word and its value. -/
theorem ofUnpacked_unpack (b : BitVec Format.binary64.numBits) :
    ofUnpacked (UnpackedFloat.unpack Format.binary64 b) =
      if b.toNat / 0x10000000000000 % 0x800 = 2047 then
        if b.toNat % 0x10000000000000 = 0 then .infinite (decide (0x8000000000000000 ≤ b.toNat))
        else .nan
      else if b.toNat / 0x10000000000000 % 0x800 = 0 then
        .finite (decide (0x8000000000000000 ≤ b.toNat)) (b.toNat % 0x10000000000000) (-1074)
      else
        .finite (decide (0x8000000000000000 ≤ b.toNat))
          (0x10000000000000 + b.toNat % 0x10000000000000)
          (((b.toNat / 0x10000000000000 % 0x800 : Nat) : Int) - 1075) := by
  have hexponent := toNat_unpackExponent b
  have hmantissa := toNat_unpackMantissa b
  have hlargest : unpackExponent b = -BitVec.ofNat Format.binary64.exponentBits 1 ↔
      b.toNat / 0x10000000000000 % 0x800 = 2047 := by
    rw [← hexponent, ← BitVec.toNat_inj]
    rfl
  have hleast : unpackExponent b = BitVec.ofNat Format.binary64.exponentBits 0 ↔
      b.toNat / 0x10000000000000 % 0x800 = 0 := by
    rw [← hexponent, ← BitVec.toNat_inj]
    rfl
  have hzero : unpackMantissa b = BitVec.ofNat Format.binary64.mantissaBitsWithoutImplicit 0 ↔
      b.toNat % 0x10000000000000 = 0 := by
    rw [← hmantissa, ← BitVec.toNat_inj]
    rfl
  have hleading : (1#1 ++ unpackMantissa b).toNat =
      0x10000000000000 + b.toNat % 0x10000000000000 := by
    have hlt : b.toNat % 0x10000000000000 < 2 ^ 52 := Nat.mod_lt _ (by decide)
    rw [BitVec.toNat_append, hmantissa, Nat.shiftLeft_eq]
    exact (Nat.two_pow_add_eq_or_of_lt hlt 1).symm
  simp only [UnpackedFloat.unpack, hlargest, hleast, hzero]
  split_ifs with h1 h2 h3 h4
  · simp only [ofUnpacked, isMinus_unpackSign]
  · rfl
  · simp only [ofUnpacked, isMinus_unpackSign, h4]
  · simp only [ofUnpacked, isMinus_unpackSign, hmantissa, hexponent, h3]
    rfl
  · simp only [ofUnpacked, isMinus_unpackSign, hexponent, hleading]
    rfl

end Exact

namespace Number

/-- The exact value of a double is that of its fields. -/
theorem exact_eq (x : Number) : x.exact = .ofUnpacked x.toModel.unpack := by
  rw [Float.Model.unpack, Exact.ofUnpacked_unpack]
  rfl

/-- A double is known by its exact value: there is one NaN, and the two zeros differ. -/
theorem exact_inj {x y : Number} (h : x.exact = y.exact) : x = y := by
  rw [exact_eq, exact_eq] at h
  have hbits := (unpack_inj_of_valid x.toModel.valid y.toModel.valid).mp (Exact.ofUnpacked_inj h)
  exact Float.toBits_inj.mp (UInt64.toBitVec_inj.mp hbits)

theorem isNaN_iff (x : Number) : x.isNaN = true ↔ x.exact = .nan := by
  rw [exact_eq]
  change x.toModel.unpack.isNaN = true ↔ _
  rw [UnpackedFloat.isNaN_iff]
  exact ⟨fun h => by rw [h]; rfl, fun h => Exact.ofUnpacked_inj (v := .notANumber) h⟩

end Number

/-! ### Canonical values -/

/-- A significand and an exponent of a finite double: the significand has its 53 bits, unless the
exponent is the least one. -/
structure Exact.Canonical (m : Nat) (e : Int) : Prop where
  lt : m < 0x20000000000000
  low : -1074 ≤ e
  high : e ≤ 971
  normal : -1074 < e → 0x10000000000000 ≤ m

theorem Number.exact_canonical {x : Number} {negative : Bool} {m : Nat} {e : Int}
    (h : x.exact = .finite negative m e) : Exact.Canonical m e := by
  rw [exact] at h
  have hbits := x.toBits.toNat_lt
  split_ifs at h with h1 h2 h3
  · cases h
    exact ⟨by omega, by omega, by omega, by omega⟩
  · cases h
    exact ⟨by omega, by omega, by omega, by omega⟩

end Ecma
