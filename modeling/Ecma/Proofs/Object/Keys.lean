import Mathlib
import Ecma.Object.Heap

/-! The own keys of an object: which ones it stores, in which order it lists them, and what
defining and deleting a property does to them. -/

namespace Ecma

namespace ObjectData

variable {o o' : ObjectData} {key : PropertyKey} {d : Descriptor}

/-- The keys of the stored properties, in order of creation. -/
def keys (o : ObjectData) : List PropertyKey :=
  o.properties.map Prod.fst

/-- No key is stored twice, and none that the object has by its kind is stored. -/
structure WellFormed (o : ObjectData) : Prop where
  nodup : o.keys.Nodup
  disjoint : ∀ key ∈ o.keys, o.exoticProperty? key = none

theorem isSome_lookup_iff : (o.properties.lookup key).isSome = true ↔ key ∈ o.keys := by
  simp only [List.lookup_isSome_iff, keys, List.mem_map, beq_iff_eq]
  exact ⟨fun ⟨p, hp, heq⟩ => ⟨p, hp, heq.symm⟩, fun ⟨p, hp, heq⟩ => ⟨p, hp, heq.symm⟩⟩

theorem hasOwn_iff :
    o.hasOwn key = true ↔ (o.exoticProperty? key).isSome = true ∨ key ∈ o.keys := by
  rw [← isSome_lookup_iff]
  simp [hasOwn, getOwn?]

/-! ### Defining and deleting -/

theorem keys_replace (key : PropertyKey) (p : Property)
    (properties : List (PropertyKey × Property)) :
    (replace key p properties).map Prod.fst = properties.map Prod.fst := by
  simp only [replace, List.map_map]
  refine List.map_congr_left fun entry _ => ?_
  simp only [Function.comp]
  split
  · next h => exact h.symm
  · rfl

/-- What a definition does: a new key is stored behind the others, a stored one keeps its place, and
one that the object has by its kind is not stored. -/
theorem define_cases (h : o.define key d = some o') :
    (o.getOwn? key = none ∧ o.extensible = true ∧
      o' = { o with properties := o.properties ++ [(key, d.complete)] }) ∨
    (∃ current, o.getOwn? key = some current ∧ d.allows current = true ∧
      ((key ∈ o.keys ∧ o' = { o with properties := replace key (d.update current) o.properties }) ∨
        (key ∉ o.keys ∧ o' = o))) := by
  unfold define at h
  split at h
  · next hnone =>
    split at h
    · next hext => exact .inl ⟨hnone, hext, (Option.some.inj h).symm⟩
    · cases h
  · next current hsome =>
    split at h
    · next hallows =>
      refine .inr ⟨current, hsome, hallows, ?_⟩
      split at h
      · next hstored => exact .inl ⟨isSome_lookup_iff.mp hstored, (Option.some.inj h).symm⟩
      · next hstored =>
        exact .inr ⟨fun hmem => hstored (isSome_lookup_iff.mpr hmem), (Option.some.inj h).symm⟩
    · cases h

/-- What a deletion does: nothing if there is no property, else the key is no longer stored. -/
theorem delete_cases (h : o.delete key = some o') :
    (o.getOwn? key = none ∧ o' = o) ∨
    (∃ p, o.getOwn? key = some p ∧ p.isConfigurable = true ∧
      o' = { o with properties := o.properties.filter (·.1 ≠ key) }) := by
  unfold delete at h
  split at h
  · next hnone => exact .inl ⟨hnone, (Option.some.inj h).symm⟩
  · next p hsome =>
    split at h
    · next hp => exact .inr ⟨p, hsome, hp, (Option.some.inj h).symm⟩
    · cases h

/-- A new key comes last. -/
theorem keys_define_new (h : o.define key d = some o') (hnew : o.hasOwn key = false) :
    o'.keys = o.keys ++ [key] := by
  obtain ⟨_, _, rfl⟩ | ⟨current, hsome, _⟩ := define_cases h
  · simp [keys]
  · simp [hasOwn, hsome] at hnew

/-- A key that is there keeps its place. -/
theorem keys_define_own (h : o.define key d = some o') (hown : o.hasOwn key = true) :
    o'.keys = o.keys := by
  obtain ⟨hnone, _⟩ | ⟨_, _, _, ⟨_, rfl⟩ | ⟨_, rfl⟩⟩ := define_cases h
  · simp [hasOwn, hnone] at hown
  · exact keys_replace key _ _
  · rfl

/-- A deleted key is gone, and the others keep their order. -/
theorem keys_delete (h : o.delete key = some o') : o'.keys = o.keys.filter (· ≠ key) := by
  obtain ⟨hnone, rfl⟩ | ⟨_, _, _, rfl⟩ := delete_cases h
  · refine (List.filter_eq_self.mpr fun k hk => ?_).symm
    have hne : k ≠ key := by
      rintro rfl
      have : o'.hasOwn k = true := hasOwn_iff.mpr (.inr hk)
      simp [hasOwn, hnone] at this
    simpa using hne
  · simp only [keys, List.filter_map]
    rfl

theorem kind_define (h : o.define key d = some o') : o'.kind = o.kind := by
  obtain ⟨_, _, rfl⟩ | ⟨_, _, _, ⟨_, rfl⟩ | ⟨_, rfl⟩⟩ := define_cases h <;> rfl

theorem kind_delete (h : o.delete key = some o') : o'.kind = o.kind := by
  obtain ⟨_, rfl⟩ | ⟨_, _, _, rfl⟩ := delete_cases h <;> rfl

theorem privateElements_define (h : o.define key d = some o') :
    o'.privateElements = o.privateElements := by
  obtain ⟨_, _, rfl⟩ | ⟨_, _, _, ⟨_, rfl⟩ | ⟨_, rfl⟩⟩ := define_cases h <;> rfl

theorem privateElements_delete (h : o.delete key = some o') :
    o'.privateElements = o.privateElements := by
  obtain ⟨_, rfl⟩ | ⟨_, _, _, rfl⟩ := delete_cases h <;> rfl

theorem exoticProperty?_of_kind (h : o'.kind = o.kind) (key : PropertyKey) :
    o'.exoticProperty? key = o.exoticProperty? key := by
  rw [exoticProperty?, h, exoticProperty?]

/-- What an object has by its kind stays. -/
theorem not_configurable_of_exotic {p : Property} (h : o.exoticProperty? key = some p) :
    p.isConfigurable = false := by
  unfold exoticProperty? at h
  split at h
  · unfold Units.property? at h
    split at h
    · cases h
      rfl
    · split at h <;> cases h
      rfl
  · cases h

/-- A deleted key is free. -/
theorem hasOwn_delete (h : o.delete key = some o') : o'.hasOwn key = false := by
  have hkeys := keys_delete h
  have hkind := kind_delete h
  obtain ⟨hnone, rfl⟩ | ⟨p, hp, hconf, -⟩ := delete_cases h
  · simp [hasOwn, hnone]
  · refine Bool.eq_false_iff.mpr fun hown => ?_
    rw [hasOwn_iff, exoticProperty?_of_kind hkind, hkeys] at hown
    rcases hown with hexotic | hmem
    · obtain ⟨q, hq⟩ := Option.isSome_iff_exists.mp hexotic
      rw [getOwn?, hq] at hp
      cases hp
      rw [not_configurable_of_exotic hq] at hconf
      cases hconf
    · simp at hmem

theorem WellFormed.define (hwf : o.WellFormed) (h : o.define key d = some o') : o'.WellFormed := by
  have hexotic := exoticProperty?_of_kind (kind_define h)
  cases hown : o.hasOwn key with
  | true =>
    have hkeys := keys_define_own h hown
    refine ⟨hkeys ▸ hwf.nodup, fun k hk => ?_⟩
    rw [hexotic, hwf.disjoint k (hkeys ▸ hk)]
  | false =>
    have hkeys := keys_define_new h hown
    have hnot : ¬((o.exoticProperty? key).isSome = true ∨ key ∈ o.keys) := fun h =>
      Bool.false_ne_true (hown.symm.trans (hasOwn_iff.mpr h))
    simp only [not_or, Option.not_isSome_iff_eq_none] at hnot
    refine ⟨hkeys ▸ List.nodup_append.mpr ⟨hwf.nodup, by simp, ?_⟩, fun k hk => ?_⟩
    · intro a ha b hb heq
      exact hnot.2 (List.mem_singleton.mp hb ▸ heq ▸ ha)
    · rw [hkeys] at hk
      rw [hexotic]
      rcases List.mem_append.mp hk with hk | hk
      · exact hwf.disjoint k hk
      · exact List.mem_singleton.mp hk ▸ hnot.1

theorem WellFormed.delete (hwf : o.WellFormed) (h : o.delete key = some o') : o'.WellFormed := by
  have hkeys := keys_delete h
  refine ⟨hkeys ▸ hwf.nodup.filter _, fun k hk => ?_⟩
  rw [exoticProperty?_of_kind (kind_delete h)]
  exact hwf.disjoint k (List.mem_filter.mp (hkeys ▸ hk)).1

/-- The keys and the kind are all that well-formedness is about. -/
theorem WellFormed.of_eq (hwf : o.WellFormed) (hkeys : o'.keys = o.keys)
    (hexotic : ∀ key, o'.exoticProperty? key = o.exoticProperty? key) : o'.WellFormed :=
  ⟨hkeys ▸ hwf.nodup, fun key hk => (hexotic key).trans (hwf.disjoint key (hkeys ▸ hk))⟩

theorem WellFormed.of_empty (h : o.properties = []) : o.WellFormed :=
  ⟨by simp [keys, h], by simp [keys, h]⟩

end ObjectData

end Ecma
