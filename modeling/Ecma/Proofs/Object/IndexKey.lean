import Ecma.Object.Basic
import Ecma.Proofs.Object.Index

/-! Keys that are array indices are canonical: a string writes an index exactly if it is the decimal
text of that index, so no two keys share one, and a key that is made again from its index is the same
key. The digits are read in natural numbers; a word of 64 bits holds every number on the way, since a
key of more than ten units is no index. -/

namespace Ecma

namespace Units

/-! ### The decimal text -/

theorem digitChar_eq {d : Nat} (hd : d < 10) : digitChar d = d.digitChar := by
  revert d
  decide

theorem numeralBefore_eq_toDigits (n : Nat) : numeralBefore 10 n [] = Nat.toDigits 10 n := by
  induction n using Nat.strongRecOn with
  | _ n ih =>
    by_cases h : 10 ≤ n
    · have hdigit := digitChar_eq (Nat.mod_lt n (by omega : 10 > 0))
      rw [numeralBefore, dif_pos (by omega), numeralBefore_append, ih (n / 10) (by omega), hdigit,
        ← Nat.toDigits_of_base_le (by omega) h]
    · rw [numeralBefore, dif_neg (by omega), digitChar_eq (by omega),
        Nat.toDigits_of_lt_base (by omega)]

/-- The key of an index is its decimal text. -/
theorem ofIndex_eq (i : Nat) : ofIndex i = ofString (toString i) := by
  rw [ofIndex, numeral, numeralBefore_eq_toDigits, Nat.toString_eq_ofList_toDigits]

/-! ### Words -/

/-- The value of decimal digits continued from `acc`, in a word. -/
def readWordFrom (acc : UInt64) : List UInt16 → Option UInt64
  | [] => some acc
  | u :: rest =>
    if 48 ≤ u ∧ u ≤ 57 then readWordFrom (acc * 10 + (u - 48).toUInt64) rest else none

/-- The array index that a string of at most ten units writes, read in a word. -/
def wordIndex? (s : Units) : Option UInt64 :=
  if s.isEmpty ∨ 10 < s.length ∨ (1 < s.length ∧ s.toList.head? = some 48) then none
  else (readWordFrom 0 s.toList).filter (· < 0xFFFFFFFF)

theorem readWordFrom_eq {us : List UInt16} {acc : UInt64} {k : Nat} (hk : k + us.length ≤ 19)
    (hacc : acc.toNat < 10 ^ k) :
    (readWordFrom acc us).map UInt64.toNat = readIndexFrom acc.toNat us := by
  induction us generalizing acc k with
  | nil => rfl
  | cons u us ih =>
    rw [readWordFrom, readIndexFrom]
    split
    · next hdigit =>
      have hlow : 48 ≤ u.toNat := by simpa using UInt16.le_iff_toNat_le.mp hdigit.1
      have hunit := toNat_sub_lt hdigit
      have hsub : ((u - 48).toUInt64).toNat = u.toNat - 48 := by
        rw [UInt16.toNat_toUInt64, UInt16.toNat_sub_of_le _ _ hdigit.1]
        rfl
      rw [List.length_cons] at hk
      -- Nineteen digits write less than `2 ^ 64`.
      have hpow : 10 ^ (k + 1) ≤ 10 ^ 19 := Nat.pow_le_pow_right (by omega) (by omega)
      have hroom : acc.toNat * 10 + (u.toNat - 48) < 10 ^ (k + 1) := by
        rw [Nat.pow_succ]
        omega
      have hword : (acc * 10 + (u - 48).toUInt64).toNat = acc.toNat * 10 + (u.toNat - 48) := by
        rw [UInt64.toNat_add, UInt64.toNat_mul, hsub]
        change (acc.toNat * 10 % 2 ^ 64 + (u.toNat - 48)) % 2 ^ 64 = _
        omega
      rw [ih (k := k + 1) (by omega) (by omega), hword]
    · rfl

/-- The filters agree where the word holds the number. -/
theorem filter_readWordFrom {us : List UInt16} (h : us.length ≤ 10) :
    ((readWordFrom 0 us).filter (· < 0xFFFFFFFF)).map UInt64.toNat =
      (readIndexFrom 0 us).filter (· < 0xFFFFFFFF) := by
  have hread : (readWordFrom 0 us).map UInt64.toNat = readIndexFrom 0 us :=
    readWordFrom_eq (k := 0) (by omega) (by decide)
  rw [← hread]
  cases readWordFrom 0 us with
  | none => rfl
  | some w =>
    have hlt : w < 0xFFFFFFFF ↔ w.toNat < 0xFFFFFFFF := UInt64.lt_iff_toNat_lt
    rw [Option.map_some, Option.filter_some, Option.filter_some]
    by_cases hw : w < 0xFFFFFFFF
    · rw [if_pos (decide_eq_true hw), if_pos (decide_eq_true (hlt.mp hw))]
      rfl
    · rw [if_neg (by simpa using hw), if_neg (by simpa using mt hlt.mpr hw)]
      rfl

/-- A single digit is below every bound on indices. -/
theorem filter_readIndexFrom_singleton (u : UInt16) :
    (readIndexFrom 0 [u]).filter (· < 0xFFFFFFFF) = readIndexFrom 0 [u] := by
  simp only [readIndexFrom]
  split
  · next hdigit =>
    have hlt := toNat_sub_lt hdigit
    rw [Option.filter_some, if_pos (decide_eq_true (by omega))]
  · rfl

/-- What is read in words is the index. -/
theorem wordIndex?_eq (s : Units) : s.wordIndex?.map UInt64.toNat = s.arrayIndex? := by
  obtain ⟨us⟩ := s
  unfold wordIndex? arrayIndex? isEmpty length
  match us with
  | [] => rfl
  | [u] =>
    have hcond : ¬([u].isEmpty = true ∨ 10 < [u].length ∨
        (1 < [u].length ∧ [u].head? = some 48)) := by simp
    rw [if_neg hcond, filter_readWordFrom (by simp), filter_readIndexFrom_singleton]
  | u :: v :: rest =>
    have hcond : ((u :: v :: rest).isEmpty = true ∨ 10 < (u :: v :: rest).length ∨
        (1 < (u :: v :: rest).length ∧ (u :: v :: rest).head? = some 48)) ↔
        u = 48 ∨ 10 < (v :: rest).length + 1 := by
      simp only [List.isEmpty_cons, Bool.false_eq_true, List.length_cons, List.head?_cons,
        Option.some.injEq, false_or]
      constructor
      · rintro (hlong | ⟨-, hzero⟩)
        · exact .inr hlong
        · exact .inl hzero
      · rintro (hzero | hlong)
        · exact .inr ⟨by omega, hzero⟩
        · exact .inl hlong
    by_cases h : u = 48 ∨ 10 < (v :: rest).length + 1
    · rw [if_pos (hcond.mpr h)]
      simp only [if_pos h]
      rfl
    · rw [if_neg (mt hcond.mp h)]
      simp only [if_neg h]
      exact filter_readWordFrom (by rw [List.length_cons]; omega)

/-- A string writes an index exactly if it is its decimal text. -/
theorem arrayIndex?_eq_some_iff {s : Units} {i : Nat} :
    s.arrayIndex? = some i ↔ i < 2 ^ 32 - 1 ∧ s = ofString (toString i) := by
  rw [← ofIndex_eq]
  constructor
  · intro h
    obtain ⟨hkey, hlt⟩ := ofIndex_of_arrayIndex? h
    exact ⟨hlt, hkey.symm⟩
  · rintro ⟨hlt, rfl⟩
    exact arrayIndex?_ofIndex hlt

end Units

/-! ### Keys made again -/

namespace ObjectData

/-- The stored keys that are indices are those that the own keys make again from the indices. -/
theorem map_ofIndex_indices (properties : List (PropertyKey × Property)) :
    (properties.filterMap (·.1.arrayIndex?)).map PropertyKey.ofIndex =
      (properties.map Prod.fst).filter (·.arrayIndex?.isSome) := by
  induction properties with
  | nil => rfl
  | cons entry rest ih =>
    cases hindex : entry.1.arrayIndex? with
    | none => simp [hindex, ih]
    | some i =>
      obtain ⟨hkey, -⟩ := PropertyKey.ofIndex_of_arrayIndex? hindex
      simp [hindex, ih, hkey]

end ObjectData

/-- A string is an array index exactly if it is the decimal text of a number below `2 ^ 32 - 1`, and
then it is that one; a word of 64 bits holds what is read on the way. So no two keys share an index,
the own keys of an object are made again from their indices as they were stored, and the key that the
object of arguments makes for a position has that position as its index. -/
theorem array_index_keys :
    (∀ (s : Units) (i : Nat),
      s.arrayIndex? = some i ↔ i < 2 ^ 32 - 1 ∧ s = Units.ofString (toString i)) ∧
    (∀ s : Units, s.wordIndex?.map UInt64.toNat = s.arrayIndex?) ∧
    (∀ (key key' : PropertyKey) (i : Nat),
      key.arrayIndex? = some i → key'.arrayIndex? = some i → key = key') ∧
    (∀ (key : PropertyKey) (i : Nat), key.arrayIndex? = some i → PropertyKey.ofIndex i = key) ∧
    (∀ o : ObjectData, (o.properties.filterMap (·.1.arrayIndex?)).map PropertyKey.ofIndex =
      (o.properties.map Prod.fst).filter (·.arrayIndex?.isSome)) ∧
    ∀ i : Nat, (PropertyKey.ofIndex i).arrayIndex? = if i < 2 ^ 32 - 1 then some i else none := by
  refine ⟨fun s i => Units.arrayIndex?_eq_some_iff, Units.wordIndex?_eq, ?_, ?_,
    fun o => ObjectData.map_ofIndex_indices o.properties, ?_⟩
  · intro key key' i hkey hkey'
    rw [← (PropertyKey.ofIndex_of_arrayIndex? hkey).1, (PropertyKey.ofIndex_of_arrayIndex? hkey').1]
  · intro key i hkey
    exact (PropertyKey.ofIndex_of_arrayIndex? hkey).1
  · intro i
    by_cases hi : i < 2 ^ 32 - 1
    · rw [if_pos hi]
      exact PropertyKey.arrayIndex?_ofIndex hi
    · rw [if_neg hi, Option.eq_none_iff_forall_ne_some]
      intro j hj
      obtain ⟨hkey, hlt⟩ := PropertyKey.ofIndex_of_arrayIndex? hj
      have hij := PropertyKey.ofIndex_inj.mp hkey
      omega

/-- The greatest index of an array. -/
theorem array_index_keys_greatest :
    ("4294967294" : PropertyKey).arrayIndex? = some 4294967294 ∧
      PropertyKey.ofIndex 4294967294 = ("4294967294" : PropertyKey) ∧
      ∀ key : PropertyKey, key.arrayIndex? = some 4294967294 → key = "4294967294" := by
  have hindex : ("4294967294" : PropertyKey).arrayIndex? = some 4294967294 := by decide +kernel
  refine ⟨hindex, array_index_keys.2.2.2.1 _ _ hindex, ?_⟩
  intro key hkey
  exact array_index_keys.2.2.1 key _ _ hkey hindex

end Ecma
