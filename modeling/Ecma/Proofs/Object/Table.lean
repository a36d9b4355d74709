import Ecma.Object.Table
import Ecma.Proofs.Object.Evolution
import Ecma.Proofs.Object.KeyOrder

/-! Objects as they are stored, beside the list of complete properties that stands for them. The two
do the same, and whatever is done to a stored object, its map and its list of keys stay in step, and
every description in the map is complete and of one kind. -/

namespace Ecma

/-! ### Descriptions of complete properties -/

namespace Descriptor

variable (d : Descriptor) (p : Property)

/-- A description with all parts of one kind, and none of the other. -/
structure IsFull (d : Descriptor) : Prop where
  enumerable : d.enumerable.isSome = true
  configurable : d.configurable.isSome = true
  kind : (d.value.isSome = true ∧ d.writable.isSome = true ∧ d.get = none ∧ d.set = none) ∨
    (d.get.isSome = true ∧ d.set.isSome = true ∧ d.value = none ∧ d.writable = none)

theorem isFull_ofProperty (p : Property) : (ofProperty p).IsFull := by
  cases p with
  | data v w e c => exact ⟨rfl, rfl, .inl ⟨rfl, rfl, rfl, rfl⟩⟩
  | accessor get set e c => exact ⟨rfl, rfl, .inr ⟨rfl, rfl, rfl, rfl⟩⟩

theorem isConfigurable_ofProperty : (ofProperty p).isConfigurable = p.isConfigurable := by
  cases p with
  | data v w e c => cases c <;> rfl
  | accessor get set e c => cases c <;> rfl

theorem completed_eq : d.completed = ofProperty d.complete := by
  unfold completed complete
  cases d.isAccessor <;> rfl

theorem keepsAccessor_some (given current : Value) :
    keepsAccessor given (some current) = sameAccessor given current := by
  unfold keepsAccessor sameAccessor
  split <;> split <;> simp_all

/-- A check of a part that may be absent fails if the part is there and does not pass. -/
theorem any_not_eq {α : Type} (x : Option α) (p : α → Bool) : (x.any fun a => !p a) = !x.all p := by
  cases x <;> rfl

theorem conflicts_ofProperty : d.conflicts (ofProperty p) = !d.allows p := by
  have henumerable (e : Bool) :
      (d.enumerable.any (some · != some e)) = !d.enumerable.all (· == e) := by
    rw [← any_not_eq]
    rfl
  cases p with
  | data v w e c =>
    simp only [ofProperty, data, conflicts, isAccessor, isConfigurable, isWritable,
      Option.isSome_none, Bool.or_self, henumerable, Option.any_some, any_not_eq, allows,
      Property.isConfigurable, Property.isEnumerable, Property.isAccessor, keepsContents]
    cases c <;> cases w <;> simp [isGeneric, bne]
  | accessor g s e c =>
    simp only [ofProperty, accessor, conflicts, isAccessor, isConfigurable,
      Option.isSome_some, Bool.or_self, henumerable, keepsAccessor_some, any_not_eq, allows,
      Property.isConfigurable, Property.isEnumerable, Property.isAccessor, keepsContents]
    cases c <;> simp [isGeneric, bne]

theorem appliedTo_ofProperty : d.appliedTo (ofProperty p) = ofProperty (d.update p) := by
  cases p with
  | data v w e c =>
    simp only [ofProperty, data, appliedTo, update, Property.isEnumerable, Property.isConfigurable]
    by_cases h : d.isAccessor = true
    · simp [h, isData, accessor]
    · have hparts : d.get = none ∧ d.set = none := by simpa [isAccessor] using h
      simp [isAccessor, hparts]
  | accessor g s e c =>
    simp only [ofProperty, accessor, appliedTo, update, Property.isEnumerable,
      Property.isConfigurable]
    by_cases h : d.isData = true
    · have hparts : d.value.isSome = true ∨ d.writable.isSome = true := by simpa [isData] using h
      simp [hparts, isAccessor, isData, data]
    · have hparts : d.value = none ∧ d.writable = none := by simpa [isData] using h
      simp [isData, hparts]

end Descriptor

namespace ObjectTable

variable {t t' : ObjectTable} {o o' : ObjectData} {key : PropertyKey} {d : Descriptor}

/-- The list of complete properties stands for what is stored. -/
structure Represents (t : ObjectTable) (o : ObjectData) : Prop where
  extensible : t.extensible = o.extensible
  kind : t.kind = o.kind
  order : t.order = o.keys
  properties : ∀ key, t.properties key = (o.properties.lookup key).map .ofProperty

theorem Represents.getOwn?_eq (h : t.Represents o) (key : PropertyKey) :
    t.getOwn? key = (o.getOwn? key).map .ofProperty := by
  unfold getOwn? ObjectData.getOwn? ObjectData.exoticProperty?
  rw [h.kind, h.properties key]
  cases o.kind with
  | string s =>
    dsimp only [Units.property?]
    cases key.arrayIndex?.bind s.at? with
    | some u => rfl
    | none =>
      dsimp only
      split <;> rfl
  | _ => rfl

theorem Represents.stored_iff (h : t.Represents o) :
    (t.properties key).isSome = true ↔ key ∈ o.keys := by
  rw [h.properties, Option.isSome_map, ObjectData.isSome_lookup_iff]

/-- A key that is put in the map is read back, and the others are left alone. -/
theorem Represents.insert_new (h : t.Represents o) (hnew : o.getOwn? key = none) (p : Property) :
    ({ t.insert key (.ofProperty p) with order := t.order ++ [key] } : ObjectTable).Represents
      { o with properties := o.properties ++ [(key, p)] } where
  extensible := h.extensible
  kind := h.kind
  order := by
    rw [h.order, ObjectData.keys, ObjectData.keys, List.map_append]
    rfl
  properties k := by
    have hlookup : o.properties.lookup key = none := by
      simp only [ObjectData.getOwn?, Option.orElse_eq_orElse, Option.orElse_eq_or,
        Option.or_eq_none_iff] at hnew
      exact hnew.2
    rw [List.lookup_append, List.lookup_cons, List.lookup_nil]
    by_cases hk : k = key
    · subst hk
      simp [insert, hlookup]
    · have hne : (k == key) = false := by simpa using hk
      simp [insert, hk, hne, h.properties k]

theorem Represents.insert_own (h : t.Represents o) (hmem : key ∈ o.keys) (p : Property) :
    (t.insert key (.ofProperty p)).Represents
      { o with properties := ObjectData.replace key p o.properties } where
  extensible := h.extensible
  kind := h.kind
  order := h.order.trans (ObjectData.keys_replace key p o.properties).symm
  properties k := by
    by_cases hk : k = key
    · subst hk
      rw [ObjectData.lookup_replace_same (ObjectData.isSome_lookup_iff.mpr hmem)]
      simp [insert]
    · rw [ObjectData.lookup_replace_ne hk, ← h.properties k]
      simp [insert, hk]

/-- Nothing is defined where the list refuses it, and elsewhere both define the same. -/
theorem Represents.define (h : t.Represents o) (key : PropertyKey) (d : Descriptor) :
    (o.define key d = none → t.define key d = (false, t)) ∧
      ∀ o', o.define key d = some o' →
        (t.define key d).1 = true ∧ (t.define key d).2.Represents o' := by
  unfold ObjectTable.define ObjectData.define
  rw [h.getOwn?_eq key]
  cases hown : o.getOwn? key with
  | none =>
    dsimp only [Option.map_none]
    rw [h.extensible]
    by_cases hext : o.extensible = true
    · rw [if_pos hext, if_pos hext]
      refine ⟨fun hnone => (by cases hnone), fun o' ho' => ⟨rfl, ?_⟩⟩
      cases ho'
      rw [Descriptor.completed_eq]
      exact h.insert_new hown d.complete
    · rw [if_neg hext, if_neg hext]
      exact ⟨fun _ => rfl, fun o' ho' => (by cases ho')⟩
  | some current =>
    dsimp only [Option.map_some]
    rw [Descriptor.conflicts_ofProperty]
    cases d.allows current with
    | false => exact ⟨fun _ => rfl, fun o' ho' => (by cases ho')⟩
    | true =>
      simp only [Bool.not_true, Bool.false_eq_true, if_false, if_true]
      by_cases hmem : key ∈ o.keys
      · rw [if_pos (ObjectData.isSome_lookup_iff.mpr hmem),
          if_neg (by simpa using Option.isSome_iff_ne_none.mp (h.stored_iff.mpr hmem)),
          Descriptor.appliedTo_ofProperty]
        refine ⟨fun hnone => (by cases hnone), fun o' ho' => ⟨rfl, ?_⟩⟩
        cases ho'
        exact h.insert_own hmem _
      · rw [if_neg (fun hsome => hmem (ObjectData.isSome_lookup_iff.mp hsome)),
          if_pos (by simpa using fun hsome => hmem (h.stored_iff.mp hsome))]
        refine ⟨fun hnone => (by cases hnone), fun o' ho' => ⟨rfl, ?_⟩⟩
        cases ho'
        exact h

/-- Nothing is deleted where the list refuses it, and elsewhere both delete the same. -/
theorem Represents.delete (h : t.Represents o) (key : PropertyKey) :
    (o.delete key = none → t.delete key = (false, t)) ∧
      ∀ o', o.delete key = some o' →
        (t.delete key).1 = true ∧ (t.delete key).2.Represents o' := by
  unfold ObjectTable.delete ObjectData.delete
  rw [h.getOwn?_eq key]
  cases o.getOwn? key with
  | none =>
    refine ⟨fun hnone => (by cases hnone), fun o' ho' => ⟨rfl, ?_⟩⟩
    cases ho'
    exact h
  | some current =>
    dsimp only [Option.map_some]
    rw [Descriptor.isConfigurable_ofProperty]
    cases current.isConfigurable with
    | false => exact ⟨fun _ => rfl, fun o' ho' => (by cases ho')⟩
    | true =>
      refine ⟨fun hnone => (by cases hnone), fun o' ho' => ⟨rfl, ?_⟩⟩
      cases ho'
      refine ⟨h.extensible, h.kind, ?_, fun k => ?_⟩
      · change t.order.filter (· ≠ key) = _
        rw [h.order]
        simp only [ObjectData.keys, List.filter_map]
        rfl
      · by_cases hk : k = key
        · subst hk
          have hnone : (o.properties.filter (·.1 ≠ k)).lookup k = none := by
            simp only [List.lookup_eq_none_iff, List.mem_filter, decide_eq_true_eq]
            exact fun entry hentry => bne_iff_ne.mpr (Ne.symm hentry.2)
          rw [hnone]
          exact if_pos rfl
        · change (if k = key then none else t.properties k) = _
          rw [if_neg hk, ObjectData.lookup_filter_ne hk, h.properties k]

/-- Both list the same keys in the same order. -/
theorem Represents.parts_eq (h : t.Represents o) :
    t.ownIndices = o.ownIndices ∧ t.lengthKeys = o.lengthKeys ∧ t.namedKeys = o.namedKeys ∧
      t.symbolKeys = o.symbolKeys := by
  refine ⟨?_, ?_, ?_, ?_⟩
  · rw [ObjectData.ownIndices_eq, ObjectData.storedIndices, ObjectData.unitIndices, ownIndices,
      h.order, h.kind]
    cases o.kind <;> simp
  · cases hkind : o.kind <;> simp [lengthKeys, ObjectData.lengthKeys, h.kind, hkind]
  · rw [namedKeys, h.order, ObjectData.namedKeys]
  · rw [symbolKeys, h.order, ObjectData.symbolKeys]

theorem Represents.ownKeys_eq (h : t.Represents o) : t.ownKeys = o.ownKeys := by
  obtain ⟨hindices, hlength, hnamed, hsymbols⟩ := h.parts_eq
  rw [ownKeys, hindices, hlength, hnamed, hsymbols, ObjectData.ownKeys_eq]

/-- The operations on what is stored and on the list that stands for it have the same results. -/
structure Matches (t : ObjectTable) (o : ObjectData) : Prop where
  getOwn?_eq : ∀ key, t.getOwn? key = (o.getOwn? key).map .ofProperty
  ownKeys_eq : t.ownKeys = o.ownKeys
  undefined : ∀ key d, o.define key d = none → t.define key d = (false, t)
  defined : ∀ key d o', o.define key d = some o' →
    (t.define key d).1 = true ∧ (t.define key d).2.Represents o'
  undeleted : ∀ key, o.delete key = none → t.delete key = (false, t)
  deleted : ∀ key o', o.delete key = some o' →
    (t.delete key).1 = true ∧ (t.delete key).2.Represents o'

theorem Represents.matches (h : t.Represents o) : t.Matches o where
  getOwn?_eq := h.getOwn?_eq
  ownKeys_eq := h.ownKeys_eq
  undefined key d := (h.define key d).1
  defined key d := (h.define key d).2
  undeleted key := (h.delete key).1
  deleted key := (h.delete key).2

/-! ### Whatever is done -/

/-- What is stored after some operations on a new object, with whatever descriptions. -/
inductive Reached : ObjectTable → Prop
  | new (kind : ObjectKind) : Reached (new kind)
  | define {t : ObjectTable} (h : Reached t) (key : PropertyKey) (d : Descriptor) :
    Reached (t.define key d).2
  | delete {t : ObjectTable} (h : Reached t) (key : PropertyKey) : Reached (t.delete key).2
  | extensible {t : ObjectTable} (h : Reached t) (extensible : Bool) :
    Reached { t with extensible := extensible }

/-- Operation by operation there is a list of complete properties that stands for what is stored. -/
theorem Reached.exists_represents (h : t.Reached) : ∃ o, t.Represents o ∧ o.WellFormed := by
  induction h with
  | new kind =>
    exact ⟨{ kind := kind }, ⟨rfl, rfl, rfl, fun _ => rfl⟩, .of_empty rfl⟩
  | define _ key d ih =>
    obtain ⟨o, ho, hwf⟩ := ih
    obtain ⟨hrefused, hdone⟩ := ho.define key d
    cases hdefine : o.define key d with
    | none => exact ⟨o, (hrefused hdefine) ▸ ho, hwf⟩
    | some o' => exact ⟨o', (hdone o' hdefine).2, hwf.define hdefine⟩
  | delete _ key ih =>
    obtain ⟨o, ho, hwf⟩ := ih
    obtain ⟨hrefused, hdone⟩ := ho.delete key
    cases hdelete : o.delete key with
    | none => exact ⟨o, (hrefused hdelete) ▸ ho, hwf⟩
    | some o' => exact ⟨o', (hdone o' hdelete).2, hwf.delete hdelete⟩
  | extensible _ extensible ih =>
    obtain ⟨o, ho, hwf⟩ := ih
    exact ⟨{ o with extensible := extensible }, ⟨rfl, ho.kind, ho.order, ho.properties⟩,
      hwf.nodup, hwf.disjoint⟩

/-- Every list of complete properties that names no key twice, and none that the object has by its
kind, stands for what is stored after some operations. -/
theorem exists_reached (hwf : o.WellFormed) : ∃ t : ObjectTable, t.Reached ∧ t.Represents o := by
  -- the properties are defined one by one, while the object may still gain some
  have hopen (properties : List (PropertyKey × Property)) :
      ({ o with extensible := true, properties := properties } : ObjectData).WellFormed →
        ∃ t : ObjectTable, t.Reached ∧
          t.Represents { o with extensible := true, properties := properties } := by
    induction properties using List.reverseRecOn with
    | nil => exact fun _ => ⟨new o.kind, .new o.kind, rfl, rfl, rfl, fun _ => rfl⟩
    | append_singleton properties entry ih =>
      intro hwf
      set o₀ : ObjectData := { o with extensible := true, properties := properties } with ho₀
      have hkeys : ObjectData.keys { o with
          extensible := true, properties := properties ++ [entry] } = o₀.keys ++ [entry.1] :=
        List.map_append
      have hnodup : (o₀.keys ++ [entry.1]).Nodup := hkeys ▸ hwf.nodup
      obtain ⟨t, ht, hrep⟩ := ih ⟨hnodup.of_append_left,
        fun key hkey => hwf.disjoint key (hkeys ▸ List.mem_append_left _ hkey)⟩
      have hnew : o₀.getOwn? entry.1 = none := by
        have hshown : o₀.exoticProperty? entry.1 = none :=
          hwf.disjoint entry.1 (hkeys ▸ List.mem_append_right _ (List.mem_singleton_self _))
        have hstored : o₀.properties.lookup entry.1 = none := by
          refine Option.not_isSome_iff_eq_none.mp fun hsome => ?_
          exact List.disjoint_of_nodup_append hnodup (ObjectData.isSome_lookup_iff.mp hsome)
            (List.mem_singleton_self _)
        rw [ObjectData.getOwn?, hshown, hstored]
        rfl
      have hdefine : o₀.define entry.1 (.ofProperty entry.2) =
          some { o with extensible := true, properties := properties ++ [entry] } := by
        rw [ObjectData.define, hnew]
        simp [ho₀, Descriptor.complete_ofProperty]
      exact ⟨_, ht.define entry.1 (.ofProperty entry.2), ((hrep.define _ _).2 _ hdefine).2⟩
  obtain ⟨t, ht, hrep⟩ := hopen o.properties ⟨hwf.nodup, hwf.disjoint⟩
  exact ⟨{ t with extensible := o.extensible }, ht.extensible o.extensible, rfl, hrep.kind,
    hrep.order, hrep.properties⟩

/-! ### Order -/

/-- The list of keys is the order in which the properties of the map were created, and the
descriptions in the map are complete and of one kind. -/
structure KeepsOrder (t : ObjectTable) : Prop where
  nodup : t.order.Nodup
  mem_order_iff : ∀ key, key ∈ t.order ↔ (t.properties key).isSome = true
  full : ∀ key d, t.properties key = some d → d.IsFull
  /-- What a wrapped string shows hides nothing that is stored. -/
  shown : ∀ key ∈ t.order, t.getOwn? key = t.properties key
  /-- A new key comes last. -/
  added : ∀ key d, (t.define key d).1 = true → t.getOwn? key = none →
    (t.define key d).2.order = t.order ++ [key]
  /-- A key that is there keeps its place. -/
  redefined : ∀ key d, (t.getOwn? key).isSome = true → (t.define key d).2.order = t.order
  /-- The keys around a deleted one keep theirs. -/
  deleted : ∀ key, (t.delete key).1 = true → (t.delete key).2.order = t.order.filter (· ≠ key)
  /-- A deleted key that is added again comes last. -/
  moved : ∀ key d, (t.delete key).1 = true → ((t.delete key).2.define key d).1 = true →
    ((t.delete key).2.define key d).2.order = t.order.filter (· ≠ key) ++ [key]

/-- The own keys are listed once each: ascending indices, a wrapped string's length, then the other
strings and the symbols in the order of creation. -/
structure ListsKeys (t : ObjectTable) : Prop where
  nodup : t.ownKeys.Nodup
  mem_iff : ∀ key, key ∈ t.ownKeys ↔ (t.getOwn? key).isSome = true
  parts : t.ownKeys = t.ownIndices.map PropertyKey.ofIndex ++ t.lengthKeys ++
    t.order.filter (fun k => !k.isSymbol && k.arrayIndex?.isNone) ++ t.order.filter (·.isSymbol)
  ascending : t.ownIndices.Pairwise (· < ·)
  indices : ∀ i ∈ t.ownIndices, (PropertyKey.ofIndex i).arrayIndex? = some i

/-- The string that an object wraps is shorter than every index of an array. -/
def HasShortString (t : ObjectTable) : Prop :=
  ∀ s, t.kind = .string s → s.length < 0xFFFFFFFF

@[simp]
theorem kind_define (t : ObjectTable) (key : PropertyKey) (d : Descriptor) :
    (t.define key d).2.kind = t.kind := by
  unfold define
  repeat' split
  all_goals rfl

@[simp]
theorem kind_delete (t : ObjectTable) (key : PropertyKey) : (t.delete key).2.kind = t.kind := by
  unfold delete
  repeat' split
  all_goals rfl

theorem Represents.of_define (h : t.Represents o) (hdone : (t.define key d).1 = true) :
    ∃ o', o.define key d = some o' ∧ (t.define key d).2.Represents o' := by
  obtain ⟨hrefused, hrep⟩ := h.define key d
  cases hdefine : o.define key d with
  | none =>
    rw [hrefused hdefine] at hdone
    cases hdone
  | some o' => exact ⟨o', rfl, (hrep o' hdefine).2⟩

theorem Represents.of_delete (h : t.Represents o) (hdone : (t.delete key).1 = true) :
    ∃ o', o.delete key = some o' ∧ (t.delete key).2.Represents o' := by
  obtain ⟨hrefused, hrep⟩ := h.delete key
  cases hdelete : o.delete key with
  | none =>
    rw [hrefused hdelete] at hdone
    cases hdone
  | some o' => exact ⟨o', rfl, (hrep o' hdelete).2⟩

theorem Represents.hasOwn_eq (h : t.Represents o) (key : PropertyKey) :
    (t.getOwn? key).isSome = o.hasOwn key := by
  rw [h.getOwn?_eq, Option.isSome_map, ObjectData.hasOwn]

theorem Reached.keepsOrder (h : t.Reached) : t.KeepsOrder := by
  obtain ⟨o, ho, hwf⟩ := h.exists_represents
  have hnew {key : PropertyKey} (hnone : t.getOwn? key = none) : o.hasOwn key = false := by
    rw [← ho.hasOwn_eq, hnone]
    rfl
  exact
    { nodup := ho.order ▸ hwf.nodup
      mem_order_iff := fun key => by rw [ho.order, ho.stored_iff]
      full := fun key d hd => by
        rw [ho.properties] at hd
        obtain ⟨p, -, rfl⟩ := Option.map_eq_some_iff.mp hd
        exact Descriptor.isFull_ofProperty p
      shown := fun key hkey => by
        rw [ho.order] at hkey
        rw [ho.getOwn?_eq, ho.properties, ObjectData.getOwn?, hwf.disjoint key hkey]
        rfl
      added := fun key d hdone hnone => by
        obtain ⟨o', hdefine, ho'⟩ := ho.of_define hdone
        rw [ho'.order, ho.order, ObjectData.keys_define_new hdefine (hnew hnone)]
      redefined := fun key d hsome => by
        obtain ⟨hrefused, hrep⟩ := ho.define key d
        cases hdefine : o.define key d with
        | none => rw [hrefused hdefine]
        | some o' =>
          rw [(hrep o' hdefine).2.order, ho.order,
            ObjectData.keys_define_own hdefine (ho.hasOwn_eq key ▸ hsome)]
      deleted := fun key hdone => by
        obtain ⟨o', hdelete, ho'⟩ := ho.of_delete hdone
        rw [ho'.order, ho.order, ObjectData.keys_delete hdelete]
      moved := fun key d hdeleted hdefined => by
        obtain ⟨o₁, hdelete, ho₁⟩ := ho.of_delete hdeleted
        obtain ⟨o₂, hdefine, ho₂⟩ := ho₁.of_define hdefined
        rw [ho₂.order, ho.order,
          ObjectData.keys_define_new hdefine (ObjectData.hasOwn_delete hdelete),
          ObjectData.keys_delete hdelete] }

theorem Reached.listsKeys (h : t.Reached) (hshort : t.HasShortString) : t.ListsKeys := by
  obtain ⟨o, ho, hwf⟩ := h.exists_represents
  have hshort' : o.HasShortString := fun s hs => hshort s (ho.kind.trans hs)
  obtain ⟨hindices, -, -, -⟩ := ho.parts_eq
  exact
    { nodup := ho.ownKeys_eq ▸ ObjectData.nodup_ownKeys hwf hshort'
      mem_iff := fun key => by
        rw [ho.ownKeys_eq, ObjectData.mem_ownKeys_iff hwf hshort', ho.hasOwn_eq]
      parts := rfl
      ascending := hindices ▸ ObjectData.pairwise_ownIndices hwf hshort'
      indices := fun i hi => PropertyKey.arrayIndex?_ofIndex
        (ObjectData.lt_of_mem_ownIndices hwf hshort' (hindices ▸ hi)) }

end ObjectTable

end Ecma
