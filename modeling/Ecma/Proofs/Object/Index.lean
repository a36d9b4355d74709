import Mathlib
import Ecma.Value.Basic

/-! Array indices and the keys that write them: a key writes an index exactly if it is the numeral
of that index, so the index and the key determine each other. -/

namespace Ecma

namespace Units

/-- The code unit of a decimal digit. -/
def digitUnit (d : Nat) : UInt16 :=
  UInt16.ofNat (48 + d)

theorem ofChar_digitChar {d : Nat} (hd : d < 10) : ofChar (digitChar d) = [digitUnit d] := by
  revert d
  decide

theorem digitUnit_toNat {d : Nat} (hd : d < 10) : (digitUnit d).toNat = 48 + d := by
  revert d
  decide

theorem digitUnit_isDigit {d : Nat} (hd : d < 10) : 48 ≤ digitUnit d ∧ digitUnit d ≤ 57 := by
  revert d
  decide

theorem digitUnit_sub {u : UInt16} (h : 48 ≤ u ∧ u ≤ 57) : digitUnit (u.toNat - 48) = u := by
  have hlow : 48 ≤ u.toNat := by simpa using UInt16.le_iff_toNat_le.mp h.1
  rw [digitUnit, show 48 + (u.toNat - 48) = u.toNat by omega, UInt16.ofNat_toNat]

theorem toNat_sub_lt {u : UInt16} (h : 48 ≤ u ∧ u ≤ 57) : u.toNat - 48 < 10 := by
  have hhigh : u.toNat ≤ 57 := by simpa using UInt16.le_iff_toNat_le.mp h.2
  omega

/-! ### Writing an index -/

theorem numeralBefore_append (n : Nat) (tail : List Char) :
    numeralBefore 10 n tail = numeralBefore 10 n [] ++ tail := by
  induction n using Nat.strongRecOn generalizing tail with
  | _ n ih =>
    by_cases h : 10 ≤ n
    · have step (tail : List Char) :
          numeralBefore 10 n tail = numeralBefore 10 (n / 10) (digitChar (n % 10) :: tail) := by
        rw [numeralBefore, dif_pos (by omega)]
      rw [step, step [], ih (n / 10) (by omega), ih (n / 10) (by omega) [_]]
      simp
    · have last (tail : List Char) : numeralBefore 10 n tail = digitChar n :: tail := by
        rw [numeralBefore, dif_neg (by omega)]
      rw [last, last []]
      rfl

theorem ofIndex_of_lt {n : Nat} (h : n < 10) : (ofIndex n).toList = [digitUnit n] := by
  rw [ofIndex, numeral, ofString, String.toList_ofList, numeralBefore, dif_neg (by omega)]
  simp [ofChars, ofChar_digitChar h]

theorem ofIndex_of_le {n : Nat} (h : 10 ≤ n) :
    (ofIndex n).toList = (ofIndex (n / 10)).toList ++ [digitUnit (n % 10)] := by
  simp only [ofIndex, numeral, ofString, String.toList_ofList]
  rw [numeralBefore, dif_pos (by omega), numeralBefore_append]
  simp [ofChars, ofChar_digitChar (Nat.mod_lt n (by omega : 10 > 0))]

theorem ofIndex_ne_nil (n : Nat) : (ofIndex n).toList ≠ [] := by
  by_cases h : 10 ≤ n
  · simp [ofIndex_of_le h]
  · simp [ofIndex_of_lt (Nat.lt_of_not_le h)]

/-- The numeral of a number above nine does not start with a zero. -/
theorem head_ofIndex_ne_zero {n : Nat} (hn : 0 < n) : (ofIndex n).toList.head? ≠ some 48 := by
  induction n using Nat.strongRecOn with
  | _ n ih =>
    by_cases h : 10 ≤ n
    · rw [ofIndex_of_le h, List.head?_append_of_ne_nil _ (ofIndex_ne_nil _)]
      exact ih (n / 10) (by omega) (by omega)
    · have hlt : n < 10 := Nat.lt_of_not_le h
      rw [ofIndex_of_lt hlt]
      intro heq
      have htoNat := congrArg UInt16.toNat (Option.some.inj heq)
      rw [digitUnit_toNat hlt] at htoNat
      simp at htoNat
      omega

theorem length_ofIndex_le {n k : Nat} (h : n < 10 ^ (k + 1)) :
    (ofIndex n).toList.length ≤ k + 1 := by
  induction k generalizing n with
  | zero => simp [ofIndex_of_lt (by simpa using h)]
  | succ k ih =>
    by_cases hn : 10 ≤ n
    · have hdiv : n / 10 < 10 ^ (k + 1) := Nat.div_lt_of_lt_mul (by rw [Nat.pow_succ] at h; omega)
      rw [ofIndex_of_le hn, List.length_append, List.length_singleton]
      exact Nat.add_le_add_right (ih hdiv) 1
    · simp [ofIndex_of_lt (Nat.lt_of_not_le hn)]

theorem two_le_length_ofIndex {n : Nat} (h : 10 ≤ n) : 2 ≤ (ofIndex n).toList.length := by
  have := List.length_pos_iff.mpr (ofIndex_ne_nil (n / 10))
  rw [ofIndex_of_le h, List.length_append, List.length_singleton]
  omega

/-! ### Reading an index -/

theorem readIndexFrom_append (acc : Nat) (us vs : List UInt16) :
    readIndexFrom acc (us ++ vs) = (readIndexFrom acc us).bind (readIndexFrom · vs) := by
  induction us generalizing acc with
  | nil => rfl
  | cons u us ih =>
    simp only [List.cons_append, readIndexFrom]
    split
    · exact ih _
    · rfl

theorem readIndexFrom_digitUnit (acc : Nat) {d : Nat} (hd : d < 10) :
    readIndexFrom acc [digitUnit d] = some (acc * 10 + d) := by
  simp [readIndexFrom, digitUnit_isDigit hd, digitUnit_toNat hd]

theorem readIndexFrom_ofIndex (n : Nat) : readIndexFrom 0 (ofIndex n).toList = some n := by
  induction n using Nat.strongRecOn with
  | _ n ih =>
    by_cases h : 10 ≤ n
    · have hmod : n % 10 < 10 := Nat.mod_lt n (by omega)
      rw [ofIndex_of_le h, readIndexFrom_append, ih (n / 10) (by omega), Option.bind_some,
        readIndexFrom_digitUnit _ hmod, Nat.div_add_mod']
    · have hlt : n < 10 := Nat.lt_of_not_le h
      rw [ofIndex_of_lt hlt, readIndexFrom_digitUnit _ hlt, Nat.zero_mul, Nat.zero_add]

theorem le_of_readIndexFrom {acc n : Nat} {us : List UInt16} (h : readIndexFrom acc us = some n) :
    acc ≤ n := by
  induction us generalizing acc with
  | nil => exact Nat.le_of_eq (Option.some.inj h)
  | cons u us ih =>
    simp only [readIndexFrom] at h
    split at h
    · have := ih h
      omega
    · cases h

/-- Digits that do not start with a zero are the numeral of their value. -/
theorem eq_ofIndex_of_readIndexFrom {n : Nat} {us : List UInt16} (hne : us ≠ [])
    (hhead : us.head? ≠ some 48 ∨ us.length = 1) (h : readIndexFrom 0 us = some n) :
    us = (ofIndex n).toList := by
  induction us using List.reverseRecOn generalizing n with
  | nil => exact absurd rfl hne
  | append_singleton vs u ih =>
    rw [readIndexFrom_append] at h
    obtain ⟨m, hm, hu⟩ := Option.bind_eq_some_iff.mp h
    simp only [readIndexFrom] at hu
    split at hu
    · next hdigit =>
      have hlt := toNat_sub_lt hdigit
      obtain rfl := Option.some.inj hu
      by_cases hvs : vs = []
      · subst hvs
        obtain rfl : m = 0 := (Option.some.inj hm).symm
        rw [ofIndex_of_lt (by omega), Nat.zero_mul, Nat.zero_add, digitUnit_sub hdigit]
        rfl
      · have hhead : vs.head? ≠ some 48 := by
          rcases hhead with hhead | hone
          · rwa [List.head?_append_of_ne_nil _ hvs] at hhead
          · exact absurd hone (by simpa using hvs)
        -- The first digit is not zero, so the number before the last digit is not zero.
        have hpos : 0 < m := by
          cases vs with
          | nil => exact absurd rfl hvs
          | cons v vs =>
            simp only [readIndexFrom] at hm
            split at hm
            · next hv =>
              have hle := le_of_readIndexFrom hm
              have hne : v.toNat ≠ 48 := fun heq =>
                hhead (congrArg some (UInt16.toNat_inj.mp heq))
              have hlow : 48 ≤ v.toNat := by simpa using UInt16.le_iff_toNat_le.mp hv.1
              omega
            · cases hm
        rw [ofIndex_of_le (by omega), show (m * 10 + (u.toNat - 48)) / 10 = m by omega,
          show (m * 10 + (u.toNat - 48)) % 10 = u.toNat - 48 by omega, digitUnit_sub hdigit,
          ← ih hvs (.inl hhead) hm]
    · cases hu

/-! ### Both together -/

theorem ofIndex_inj {i j : Nat} (h : ofIndex i = ofIndex j) : i = j := by
  have hread := readIndexFrom_ofIndex i
  rw [h, readIndexFrom_ofIndex] at hread
  exact (Option.some.inj hread).symm

/-- The key of an index writes it. -/
theorem arrayIndex?_ofIndex {i : Nat} (h : i < 0xFFFFFFFF) : (ofIndex i).arrayIndex? = some i := by
  have hread := readIndexFrom_ofIndex i
  unfold arrayIndex?
  by_cases hi : 10 ≤ i
  · have hlength := two_le_length_ofIndex hi
    have hshort : (ofIndex i).toList.length ≤ 10 := length_ofIndex_le (k := 9) (by omega)
    have hhead := head_ofIndex_ne_zero (n := i) (by omega)
    generalize (ofIndex i).toList = us at *
    match us with
    | u :: v :: rest =>
      have hu : u ≠ 48 := fun heq => hhead (by simp [heq])
      have hrest : ¬10 < (v :: rest).length + 1 := Nat.not_lt.mpr hshort
      simp only [hu, hrest, or_self, if_false, hread]
      simp [h]
  · rw [ofIndex_of_lt (by omega)] at hread ⊢
    exact hread

/-- A key that writes an index is the key of that index. -/
theorem ofIndex_of_arrayIndex? {s : Units} {i : Nat} (h : s.arrayIndex? = some i) :
    ofIndex i = s ∧ i < 0xFFFFFFFF := by
  obtain ⟨us⟩ := s
  unfold arrayIndex? at h
  dsimp only at h
  split at h
  · cases h
  · next u =>
    have heq := eq_ofIndex_of_readIndexFrom (by simp) (.inr rfl) h
    refine ⟨congrArg Units.mk heq.symm, ?_⟩
    by_contra hbig
    have := two_le_length_ofIndex (n := i) (by omega)
    rw [← heq] at this
    simp at this
  · next u rest hrest =>
    split at h
    · cases h
    · next hcond =>
      obtain ⟨hread, hlt⟩ := Option.filter_eq_some_iff.mp h
      have heq := eq_ofIndex_of_readIndexFrom (by simp) (.inl (by simpa using not_or.mp hcond |>.1))
        hread
      exact ⟨congrArg Units.mk heq.symm, by simpa using hlt⟩

end Units

namespace PropertyKey

theorem ofIndex_inj {i j : Nat} : PropertyKey.ofIndex i = .ofIndex j ↔ i = j :=
  ⟨fun h => Units.ofIndex_inj (PropertyKey.string.inj h), congrArg _⟩

theorem arrayIndex?_ofIndex {i : Nat} (h : i < 0xFFFFFFFF) : (ofIndex i).arrayIndex? = some i :=
  Units.arrayIndex?_ofIndex h

theorem ofIndex_of_arrayIndex? {key : PropertyKey} {i : Nat} (h : key.arrayIndex? = some i) :
    ofIndex i = key ∧ i < 0xFFFFFFFF := by
  cases key with
  | string s =>
    obtain ⟨heq, hlt⟩ := Units.ofIndex_of_arrayIndex? h
    exact ⟨congrArg PropertyKey.string heq, hlt⟩
  | symbol s => cases h

end PropertyKey

end Ecma
