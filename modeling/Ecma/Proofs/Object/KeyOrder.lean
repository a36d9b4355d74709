import Ecma.Proofs.Object.Index
import Ecma.Proofs.Object.Keys

/-! The order in which an object lists its own keys: array indices ascending, then the other
strings and then the symbols in order of creation. The list is complete and names no key twice. -/

namespace Ecma

/-- Neighbours that differ stay. -/
theorem eraseReps_loop_eq {α : Type} [BEq α] [LawfulBEq α] (a : α) (as acc : List α)
    (h : (a :: as).Pairwise (· ≠ ·)) :
    List.eraseRepsBy.loop (· == ·) a as acc = acc.reverse ++ a :: as := by
  induction as generalizing a acc with
  | nil => simp [List.eraseRepsBy.loop]
  | cons b as ih =>
    have hne : (a == b) = false := by simpa using (List.pairwise_cons.mp h).1 b (by simp)
    simp only [List.eraseRepsBy.loop, hne]
    rw [ih b (a :: acc) (List.pairwise_cons.mp h).2]
    simp

theorem eraseReps_of_nodup {α : Type} [BEq α] [LawfulBEq α] {as : List α} (h : as.Nodup) :
    as.eraseReps = as := by
  cases as with
  | nil => rfl
  | cons a as => exact eraseReps_loop_eq a as [] h

namespace Units

/-- The array indices of a string are those of its code units. -/
theorem isSome_property?_iff {s : Units} {key : PropertyKey} (hs : s.length < 0xFFFFFFFF) :
    (s.property? key).isSome = true ↔
      key = ("length" : PropertyKey) ∨ ∃ i < s.length, key = .ofIndex i := by
  have hat (i : Nat) : (s.at? i).isSome = true ↔ i < s.length := by simp [at?, length]
  have hunit : (key.arrayIndex?.bind s.at?).isSome = true ↔ ∃ i < s.length, key = .ofIndex i := by
    constructor
    · intro hsome
      cases hi : key.arrayIndex? with
      | none => simp [hi] at hsome
      | some i =>
        rw [hi, Option.bind_some] at hsome
        exact ⟨i, (hat i).mp hsome, (PropertyKey.ofIndex_of_arrayIndex? hi).1.symm⟩
    · rintro ⟨i, hi, rfl⟩
      rw [PropertyKey.arrayIndex?_ofIndex (by omega), Option.bind_some]
      exact (hat i).mpr hi
  unfold property?
  split
  · next h =>
    rw [h] at hunit
    simpa using .inr (hunit.mp rfl)
  · next h =>
    rw [h] at hunit
    split
    · next hkey => simp [hkey]
    · next hkey => simpa [hkey] using hunit

end Units

namespace ObjectData

variable {o : ObjectData} {key : PropertyKey}

/-- The string that an object wraps is shorter than every index of an array. -/
def HasShortString (o : ObjectData) : Prop :=
  ∀ s, o.kind = .string s → s.length < 0xFFFFFFFF

/-! ### The parts of the list -/

/-- The length of a wrapped string. -/
def lengthKeys (o : ObjectData) : List PropertyKey :=
  match o.kind with
  | .string _ => ["length"]
  | _ => []

/-- The stored strings that are no indices. -/
def namedKeys (o : ObjectData) : List PropertyKey :=
  o.keys.filter fun k => !k.isSymbol && k.arrayIndex?.isNone

/-- The stored symbols. -/
def symbolKeys (o : ObjectData) : List PropertyKey :=
  o.keys.filter (·.isSymbol)

theorem ownKeys_eq (o : ObjectData) :
    o.ownKeys =
      o.ownIndices.map PropertyKey.ofIndex ++ o.lengthKeys ++ o.namedKeys ++ o.symbolKeys :=
  rfl

/-- The indices that are stored. -/
def storedIndices (o : ObjectData) : List Nat :=
  o.keys.filterMap PropertyKey.arrayIndex?

/-- The indices of the code units of a wrapped string. -/
def unitIndices (o : ObjectData) : List Nat :=
  match o.kind with
  | .string s => List.range s.length
  | _ => []

theorem ownIndices_eq (o : ObjectData) :
    o.ownIndices =
      ((o.storedIndices ++ o.unitIndices).mergeSort fun i j => decide (i ≤ j)).eraseReps := by
  have hstored : o.storedIndices = o.properties.filterMap (·.1.arrayIndex?) := by
    rw [storedIndices, keys, List.filterMap_map]
    rfl
  rw [hstored]
  rfl

/-- The keys that an object has by its kind. -/
theorem isSome_exoticProperty?_iff (ho : o.HasShortString) :
    (o.exoticProperty? key).isSome = true ↔
      key ∈ o.lengthKeys ∨ ∃ i ∈ o.unitIndices, key = .ofIndex i := by
  unfold exoticProperty? lengthKeys unitIndices
  cases hkind : o.kind with
  | string s => simp [Units.isSome_property?_iff (ho s hkind)]
  | _ => simp

theorem length_arrayIndex? : (("length" : String) : PropertyKey).arrayIndex? = none := by
  decide +kernel

theorem mem_lengthKeys (h : key ∈ o.lengthKeys) : key = ("length" : PropertyKey) := by
  unfold lengthKeys at h
  split at h
  · exact List.mem_singleton.mp h
  · cases h

/-! ### Indices -/

theorem mem_storedIndices {i : Nat} (h : i ∈ o.storedIndices) :
    PropertyKey.ofIndex i ∈ o.keys ∧ i < 0xFFFFFFFF := by
  obtain ⟨k, hk, hi⟩ := List.mem_filterMap.mp h
  obtain ⟨rfl, hlt⟩ := PropertyKey.ofIndex_of_arrayIndex? hi
  exact ⟨hk, hlt⟩

theorem mem_unitIndices_lt (ho : o.HasShortString) {i : Nat} (h : i ∈ o.unitIndices) :
    i < 0xFFFFFFFF := by
  unfold unitIndices at h
  split at h
  · next s hs => exact Nat.lt_trans (List.mem_range.mp h) (ho s hs)
  · cases h

theorem nodup_storedIndices (hwf : o.WellFormed) : o.storedIndices.Nodup := by
  refine List.Nodup.filterMap (fun k k' i hi hi' => ?_) hwf.nodup
  rw [← (PropertyKey.ofIndex_of_arrayIndex? hi).1, (PropertyKey.ofIndex_of_arrayIndex? hi').1]

theorem nodup_unitIndices : o.unitIndices.Nodup := by
  unfold unitIndices
  split
  · exact List.nodup_range
  · exact List.nodup_nil

/-- A stored index is never one of the wrapped string's. -/
theorem nodup_indices (hwf : o.WellFormed) (ho : o.HasShortString) :
    (o.storedIndices ++ o.unitIndices).Nodup := by
  refine List.nodup_append.mpr ⟨nodup_storedIndices hwf, nodup_unitIndices, ?_⟩
  rintro i hi j hj rfl
  have hexotic := (isSome_exoticProperty?_iff ho).mpr (.inr ⟨i, hj, rfl⟩)
  rw [hwf.disjoint _ (mem_storedIndices hi).1] at hexotic
  cases hexotic

theorem ownIndices_perm (hwf : o.WellFormed) (ho : o.HasShortString) :
    o.ownIndices.Perm (o.storedIndices ++ o.unitIndices) := by
  have hperm := List.mergeSort_perm (o.storedIndices ++ o.unitIndices) fun i j => decide (i ≤ j)
  rw [ownIndices_eq, eraseReps_of_nodup (hperm.nodup_iff.mpr (nodup_indices hwf ho))]
  exact hperm

/-- The indices ascend. -/
theorem pairwise_ownIndices (hwf : o.WellFormed) (ho : o.HasShortString) :
    o.ownIndices.Pairwise (· < ·) := by
  have hnodup := (ownIndices_perm hwf ho).nodup_iff.mpr (nodup_indices hwf ho)
  have hsorted : o.ownIndices.Pairwise (· ≤ ·) := by
    have hperm := List.mergeSort_perm (o.storedIndices ++ o.unitIndices) fun i j => decide (i ≤ j)
    rw [ownIndices_eq, eraseReps_of_nodup (hperm.nodup_iff.mpr (nodup_indices hwf ho))]
    have htrans (a b c : Nat) (hab : decide (a ≤ b) = true) (hbc : decide (b ≤ c) = true) :
        decide (a ≤ c) = true := by simp_all; omega
    have htotal (a b : Nat) : (decide (a ≤ b) || decide (b ≤ a)) = true := by simp; omega
    exact (List.pairwise_mergeSort htrans htotal _).imp fun hle => by simpa using hle
  exact hsorted.imp₂ (fun i j hle hne => Nat.lt_of_le_of_ne hle hne) hnodup

theorem lt_of_mem_ownIndices (hwf : o.WellFormed) (ho : o.HasShortString) {i : Nat}
    (h : i ∈ o.ownIndices) : i < 0xFFFFFFFF := by
  rcases List.mem_append.mp ((ownIndices_perm hwf ho).mem_iff.mp h) with h | h
  · exact (mem_storedIndices h).2
  · exact mem_unitIndices_lt ho h

/-! ### All keys -/

theorem arrayIndex?_of_mem_indices (hwf : o.WellFormed) (ho : o.HasShortString)
    (h : key ∈ o.ownIndices.map PropertyKey.ofIndex) : key.arrayIndex?.isSome = true := by
  obtain ⟨i, hi, rfl⟩ := List.mem_map.mp h
  rw [PropertyKey.arrayIndex?_ofIndex (lt_of_mem_ownIndices hwf ho hi)]
  rfl

theorem mem_namedKeys :
    key ∈ o.namedKeys ↔ key ∈ o.keys ∧ key.isSymbol = false ∧ key.arrayIndex? = none := by
  simp [namedKeys]

theorem mem_symbolKeys : key ∈ o.symbolKeys ↔ key ∈ o.keys ∧ key.isSymbol = true := by
  simp [symbolKeys]

theorem arrayIndex?_of_isSymbol (h : key.isSymbol = true) : key.arrayIndex? = none := by
  cases key with
  | string s => cases h
  | symbol s => rfl

/-- No own key is listed twice. -/
theorem nodup_ownKeys (hwf : o.WellFormed) (ho : o.HasShortString) : o.ownKeys.Nodup := by
  have hindices : (o.ownIndices.map PropertyKey.ofIndex).Nodup := by
    refine List.Nodup.map_on (fun i hi j hj heq => ?_)
      ((ownIndices_perm hwf ho).nodup_iff.mpr (nodup_indices hwf ho))
    have h := congrArg PropertyKey.arrayIndex? heq
    rw [PropertyKey.arrayIndex?_ofIndex (lt_of_mem_ownIndices hwf ho hi),
      PropertyKey.arrayIndex?_ofIndex (lt_of_mem_ownIndices hwf ho hj)] at h
    exact Option.some.inj h
  have hlength : o.lengthKeys.Nodup := by
    unfold lengthKeys
    split <;> simp
  rw [ownKeys_eq]
  -- The parts are told apart by what kind of key they hold.
  refine List.nodup_append.mpr ⟨List.nodup_append.mpr ⟨List.nodup_append.mpr
    ⟨hindices, hlength, ?_⟩, hwf.nodup.filter _, ?_⟩, hwf.nodup.filter _, ?_⟩
  · rintro k hk k' hk' rfl
    have hindex := arrayIndex?_of_mem_indices hwf ho hk
    rw [mem_lengthKeys hk', length_arrayIndex?] at hindex
    cases hindex
  · rintro k hk k' hk' rfl
    obtain ⟨hmem, _, hnone⟩ := mem_namedKeys.mp hk'
    rcases List.mem_append.mp hk with hk | hk
    · have hindex := arrayIndex?_of_mem_indices hwf ho hk
      rw [hnone] at hindex
      cases hindex
    · have hexotic := (isSome_exoticProperty?_iff ho).mpr (.inl hk)
      rw [hwf.disjoint _ hmem] at hexotic
      cases hexotic
  · rintro k hk k' hk' rfl
    obtain ⟨hmem, hsymbol⟩ := mem_symbolKeys.mp hk'
    rcases List.mem_append.mp hk with hk | hk
    · rcases List.mem_append.mp hk with hk | hk
      · have hindex := arrayIndex?_of_mem_indices hwf ho hk
        rw [arrayIndex?_of_isSymbol hsymbol] at hindex
        cases hindex
      · rw [mem_lengthKeys hk] at hsymbol
        cases hsymbol
    · rw [(mem_namedKeys.mp hk).2.1] at hsymbol
      cases hsymbol

/-- The keys that are listed are those under which there is a property. -/
theorem mem_ownKeys_iff (hwf : o.WellFormed) (ho : o.HasShortString) :
    key ∈ o.ownKeys ↔ o.hasOwn key = true := by
  have hindices : key ∈ o.ownIndices.map PropertyKey.ofIndex ↔
      (∃ i ∈ o.storedIndices, key = .ofIndex i) ∨ ∃ i ∈ o.unitIndices, key = .ofIndex i := by
    simp only [List.mem_map, (ownIndices_perm hwf ho).mem_iff, List.mem_append]
    grind
  rw [hasOwn_iff, isSome_exoticProperty?_iff ho, ownKeys_eq]
  simp only [List.mem_append, hindices, mem_namedKeys, mem_symbolKeys]
  constructor
  · rintro ((((⟨i, hi, rfl⟩ | hunit) | hlength) | ⟨hmem, _⟩) | ⟨hmem, _⟩)
    · exact .inr (mem_storedIndices hi).1
    · exact .inl (.inr hunit)
    · exact .inl (.inl hlength)
    · exact .inr hmem
    · exact .inr hmem
  · rintro ((hlength | hunit) | hmem)
    · exact .inl (.inl (.inr hlength))
    · exact .inl (.inl (.inl (.inr hunit)))
    · cases hsymbol : key.isSymbol with
      | true => exact .inr ⟨hmem, rfl⟩
      | false =>
        cases hindex : key.arrayIndex? with
        | none => exact .inl (.inr ⟨hmem, rfl, rfl⟩)
        | some i =>
          refine .inl (.inl (.inl (.inl ⟨i, List.mem_filterMap.mpr ⟨key, hmem, hindex⟩, ?_⟩)))
          exact (PropertyKey.ofIndex_of_arrayIndex? hindex).1.symm

end ObjectData

end Ecma
