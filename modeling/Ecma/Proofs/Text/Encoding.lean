import Mathlib
import Ecma.Text.Units

/-! Texts and their code units: the encoding loses nothing, so that different texts are different
string values, and the decoding loses nothing but unpaired surrogates. -/

namespace Ecma

namespace Units

theorem toNat_ofNat {n : Nat} (h : n < 0x10000) : (UInt16.ofNat n).toNat = n := by
  simp; omega

/-- A character is no surrogate. -/
theorem toNat_char (c : Char) : c.toNat < 0xD800 ∨ 0xDFFF < c.toNat ∧ c.toNat < 0x110000 :=
  c.valid

theorem isHigh_ofNat {n : Nat} (h : n < 0x10000) :
    isHigh (UInt16.ofNat n) = true ↔ 0xD800 ≤ n ∧ n ≤ 0xDBFF := by
  simp only [isHigh, Bool.and_eq_true, decide_eq_true_eq, UInt16.le_iff_toNat_le, toNat_ofNat h]
  exact Iff.rfl

theorem isLow_ofNat {n : Nat} (h : n < 0x10000) :
    isLow (UInt16.ofNat n) = true ↔ 0xDC00 ≤ n ∧ n ≤ 0xDFFF := by
  simp only [isLow, Bool.and_eq_true, decide_eq_true_eq, UInt16.le_iff_toNat_le, toNat_ofNat h]
  exact Iff.rfl

/-- The units of a character are decoded to it, whatever follows. -/
theorem decodeWith_ofChar {α : Type} (char : Char → α) (lone : UInt16 → α) (c : Char)
    (rest : List UInt16) :
    decodeWith char lone (ofChar c ++ rest) = char c :: decodeWith char lone rest := by
  have hc := toNat_char c
  unfold ofChar
  dsimp only
  split
  · next hlt =>
    have hhigh : isHigh (UInt16.ofNat c.toNat) = false := by
      rw [Bool.eq_false_iff, Ne, isHigh_ofNat hlt]
      omega
    have hlow : isLow (UInt16.ofNat c.toNat) = false := by
      rw [Bool.eq_false_iff, Ne, isLow_ofNat hlt]
      omega
    have hunit : decodeUnit char lone (UInt16.ofNat c.toNat) = char c := by
      simp [decodeUnit, hhigh, hlow, toNat_ofNat hlt, Char.ofNat_toNat]
    cases rest with
    | nil => simp [decodeWith, hunit]
    | cons v rest => simp [decodeWith, hhigh, hunit]
  · next hge =>
    have hv : c.toNat - 0x10000 < 0x100000 := by omega
    have hhigh : 0xD800 + (c.toNat - 0x10000) / 0x400 < 0x10000 := by omega
    have hlow : 0xDC00 + (c.toNat - 0x10000) % 0x400 < 0x10000 := by omega
    have hisHigh := (isHigh_ofNat hhigh).mpr (by omega)
    have hisLow := (isLow_ofNat hlow).mpr (by omega)
    have hpair : pairChar (UInt16.ofNat (0xD800 + (c.toNat - 0x10000) / 0x400))
        (UInt16.ofNat (0xDC00 + (c.toNat - 0x10000) % 0x400)) = c := by
      rw [pairChar, toNat_ofNat hhigh, toNat_ofNat hlow]
      have hnat : 0x10000 + (0xD800 + (c.toNat - 0x10000) / 0x400 - 0xD800) * 0x400 +
          (0xDC00 + (c.toNat - 0x10000) % 0x400 - 0xDC00) = c.toNat := by omega
      rw [hnat, Char.ofNat_toNat]
    simp only [List.cons_append, List.nil_append, decodeWith, hisHigh, hisLow, Bool.and_self,
      if_true, hpair]

/-- Characters are read back from their code units. -/
theorem chars_ofChars (cs : List Char) : (ofChars cs).chars = cs := by
  change decodeWith id (fun _ => '\uFFFD') (cs.flatMap ofChar) = cs
  induction cs with
  | nil => rfl
  | cons c rest ih => rw [List.flatMap_cons, decodeWith_ofChar, ih, id]

/-- A text is read back from its code units. -/
theorem text_ofString (s : String) : (ofString s).text = s := by
  rw [text, ofString, chars_ofChars, String.ofList_toList]

theorem ofString_inj {s t : String} (h : ofString s = ofString t) : s = t := by
  rw [← text_ofString s, h, text_ofString]

theorem ofString_append (s t : String) : ofString (s ++ t) = ofString s ++ ofString t := by
  change ofChars (s ++ t).toList = ⟨(ofString s).toList ++ (ofString t).toList⟩
  rw [String.toList_append]
  exact congrArg Units.mk List.flatMap_append

/-! ### Decoding -/

theorem ofChar_pairChar {u v : UInt16} (hu : isHigh u = true) (hv : isLow v = true) :
    ofChar (pairChar u v) = [u, v] := by
  simp only [isHigh, isLow, Bool.and_eq_true, decide_eq_true_eq, UInt16.le_iff_toNat_le] at hu hv
  have hhigh : 0xD800 ≤ u.toNat ∧ u.toNat ≤ 0xDBFF := hu
  have hlow : 0xDC00 ≤ v.toNat ∧ v.toNat ≤ 0xDFFF := hv
  have hnat : (pairChar u v).toNat =
      0x10000 + (u.toNat - 0xD800) * 0x400 + (v.toNat - 0xDC00) := by
    rw [pairChar, Char.toNat_ofNat, if_pos (.inr (by omega))]
  have hu' : 0xD800 + ((pairChar u v).toNat - 0x10000) / 0x400 = u.toNat := by omega
  have hv' : 0xDC00 + ((pairChar u v).toNat - 0x10000) % 0x400 = v.toNat := by omega
  simp only [ofChar]
  rw [if_neg (by omega), hu', hv', UInt16.ofNat_toNat, UInt16.ofNat_toNat]

theorem ofChar_unit {u : UInt16} (h : (isHigh u || isLow u) = false) :
    ofChar (Char.ofNat u.toNat) = [u] := by
  have hlt := u.toNat_lt
  simp only [isHigh, isLow, Bool.or_eq_false_iff, Bool.and_eq_false_iff, decide_eq_false_iff_not,
    UInt16.le_iff_toNat_le] at h
  have hhigh : ¬ 0xD800 ≤ u.toNat ∨ ¬ u.toNat ≤ 0xDBFF := h.1
  have hlow : ¬ 0xDC00 ≤ u.toNat ∨ ¬ u.toNat ≤ 0xDFFF := h.2
  have hnat : (Char.ofNat u.toNat).toNat = u.toNat := by
    rw [Char.toNat_ofNat, if_pos (by unfold Nat.isValidChar; omega)]
  simp only [ofChar, hnat]
  rw [if_pos (by omega), UInt16.ofNat_toNat]

theorem decodeUnit_ne {u : UInt16} (h : decodeUnit id (fun _ => '\uFFFD') u ≠ '\uFFFD') :
    ofChar (decodeUnit id (fun _ => '\uFFFD') u) = [u] := by
  unfold decodeUnit at h ⊢
  split at h
  · exact absurd rfl h
  · next hunit =>
    rw [if_neg hunit]
    exact ofChar_unit (Bool.eq_false_iff.mpr hunit)

/-- Code units that are decoded without a replacement are those of the characters. -/
theorem ofChars_chars {s : Units} (h : '\uFFFD' ∉ s.chars) : ofChars s.chars = s := by
  obtain ⟨us⟩ := s
  have hflat : ∀ us : List UInt16, '\uFFFD' ∉ decodeWith id (fun _ => '\uFFFD') us →
      (decodeWith id (fun _ => '\uFFFD') us).flatMap ofChar = us := by
    intro us
    fun_induction decodeWith id (fun _ => '\uFFFD') us with
    | case1 => intro _; rfl
    | case2 u =>
      intro h
      rw [List.flatMap_cons, decodeUnit_ne fun heq => h (List.mem_cons.mpr (.inl heq.symm))]
      rfl
    | case3 u v rest hpair ih =>
      intro h
      rw [Bool.and_eq_true] at hpair
      rw [List.flatMap_cons, id, ofChar_pairChar hpair.1 hpair.2,
        ih fun hmem => h (List.mem_cons_of_mem _ hmem)]
      rfl
    | case4 u v rest hpair ih =>
      intro h
      rw [List.flatMap_cons, decodeUnit_ne fun heq => h (List.mem_cons.mpr (.inl heq.symm)),
        ih fun hmem => h (List.mem_cons_of_mem _ hmem)]
      rfl
  exact congrArg Units.mk (hflat us h)

end Units

end Ecma
