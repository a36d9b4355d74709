import Ecma.Proofs.Object.Keys
import Ecma.Proofs.Value.Equality

/-! What an object may become. A property that is not configurable stays, and an object that is not
extensible keeps its prototype and gains no property. -/

namespace Ecma

/-- A description that does not ask for both a value and an accessor. -/
class Descriptor.Coherent (d : Descriptor) : Prop where
  exclusive : d.isData = true → d.isAccessor = false

namespace Descriptor

instance (v : Value) (w e c : Bool) : (data v w e c).Coherent := ⟨fun _ => rfl⟩

instance (get set : Value) (e c : Bool) : (accessor get set e c).Coherent := ⟨fun h => by cases h⟩

instance (v : Value) : (plain v).Coherent := ⟨fun _ => rfl⟩

instance (v : Value) : (hidden v).Coherent := ⟨fun _ => rfl⟩

instance (v : Value) : Coherent { value := some v } := ⟨fun _ => rfl⟩

end Descriptor

namespace Property

/-- What a property that is not configurable may become: it keeps its kind and its flags, except
that it may stop being writable; then its value stays the same, and accessors always do. -/
inductive Persists : Property → Property → Prop
  | data {v v' : Value} {w w' e : Bool} (writable : w' = true → w = true)
    (value : w = false → v.sameValue v' = true) :
    Persists (.data v w e false) (.data v' w' e false)
  | accessor {get set : Value} {e : Bool} :
    Persists (.accessor get set e false) (.accessor get set e false)

theorem Persists.refl {p : Property} (h : p.isConfigurable = false) : p.Persists p := by
  cases p with
  | data v w e c =>
    cases h
    exact .data id fun _ => Value.sameValue_iff.mpr rfl
  | accessor get set e c =>
    cases h
    exact .accessor

theorem Persists.trans {p q r : Property} (hpq : p.Persists q) (hqr : q.Persists r) :
    p.Persists r := by
  cases hpq with
  | data hw hv =>
    cases hqr with
    | data hw' hv' =>
      refine .data (hw ∘ hw') fun hfalse => ?_
      have hfalse' := Bool.eq_false_iff.mpr fun htrue =>
        Bool.false_ne_true (hfalse.symm.trans (hw htrue))
      have hsame := Value.sameValue_iff.mp (hv hfalse)
      have hsame' := Value.sameValue_iff.mp (hv' hfalse')
      exact Value.sameValue_iff.mpr (hsame.trans hsame')
  | accessor => exact hqr

theorem Persists.not_configurable {p q : Property} (h : p.Persists q) :
    q.isConfigurable = false := by
  cases h <;> rfl

end Property

namespace Descriptor

variable {d : Descriptor}

theorem complete_ofProperty (p : Property) : (ofProperty p).complete = p := by
  cases p <;> rfl

theorem eq_of_sameAccessor {u v : Value} (h : sameAccessor u v = true) : u = v := by
  unfold sameAccessor at h
  split at h
  · rfl
  · exact congrArg Value.object (beq_iff_eq.mp h)
  · cases h

theorem getD_of_all {α : Type} {x : Option α} {a : α} {f : α → Bool} (h : x.all f = true)
    (hf : ∀ b, f b = true → b = a) : x.getD a = a := by
  cases x with
  | none => rfl
  | some b => exact hf b h

/-- A redefinition that is allowed leaves a property that is not configurable as it must stay. -/
theorem persists_update [d.Coherent] {p : Property} (h : d.allows p = true)
    (hp : p.isConfigurable = false) : p.Persists (d.update p) := by
  simp only [allows, hp, Bool.false_or, Bool.and_eq_true, Bool.or_eq_true, bne_iff_ne, ne_eq,
    beq_iff_eq] at h
  obtain ⟨⟨⟨hconfigurable, henumerable⟩, hkind⟩, hcontents⟩ := h
  have hc : d.configurable.getD false = false := by
    cases hd : d.configurable with
    | none => rfl
    | some c => cases c <;> simp_all
  cases p with
  | data v w e c =>
    cases hp
    have he : d.enumerable.getD e = e := getD_of_all henumerable fun b hb => beq_iff_eq.mp hb
    have hdata : d.isAccessor = false := by
      rcases hkind with hgeneric | hsame
      · simp_all [isGeneric]
      · exact hsame
    simp only [update, hdata, Bool.false_eq_true, if_false, Property.isEnumerable,
      Property.isConfigurable, he, hc]
    cases w with
    | true => exact .data (fun _ => rfl) fun h => by cases h
    | false =>
      simp only [keepsContents, Bool.false_or, Bool.and_eq_true, bne_iff_ne, ne_eq] at hcontents
      refine .data (fun hw => ?_) fun _ => ?_
      · cases hd : d.writable with
        | none => simp [hd] at hw
        | some w => cases w <;> simp_all
      · cases hd : d.value with
        | none => exact Value.sameValue_iff.mpr rfl
        | some v' => simpa [hd] using hcontents.2
  | accessor get set e c =>
    cases hp
    have he : d.enumerable.getD e = e := getD_of_all henumerable fun b hb => beq_iff_eq.mp hb
    have hdata : d.isData = false := by
      rcases hkind with hgeneric | hsame
      · simp_all [isGeneric]
      · refine Bool.eq_false_iff.mpr fun h => ?_
        rw [Coherent.exclusive h] at hsame
        cases hsame
    simp only [keepsContents, Bool.and_eq_true] at hcontents
    have hget : d.get.getD get = get := getD_of_all hcontents.1 fun _ => eq_of_sameAccessor
    have hset : d.set.getD set = set := getD_of_all hcontents.2 fun _ => eq_of_sameAccessor
    simp only [update, hdata, Bool.false_eq_true, if_false, Property.isEnumerable,
      Property.isConfigurable, he, hc, hget, hset]
    exact .accessor

end Descriptor

namespace ObjectData

variable {o o' o₁ o₂ o₃ : ObjectData} {key : PropertyKey} {d : Descriptor}

/-- What an object may become, as far as the language promises that something stays. -/
structure Evolves (o o' : ObjectData) : Prop where
  persists : ∀ key p, o.getOwn? key = some p → p.isConfigurable = false →
    ∃ p', o'.getOwn? key = some p' ∧ p.Persists p'
  extensible : o.extensible = false → o'.extensible = false
  prototype : o.extensible = false → o'.prototype = o.prototype
  keys : o.extensible = false → ∀ key, o'.hasOwn key = true → o.hasOwn key = true

/-- An object whose properties stay evolves, unless it is extended or given a prototype against
what it says. -/
theorem Evolves.of_getOwn? (h : ∀ key, o'.getOwn? key = o.getOwn? key)
    (hext : o.extensible = false → o'.extensible = false)
    (hproto : o.extensible = false → o'.prototype = o.prototype) : o.Evolves o' where
  persists key p hp hconf := ⟨p, (h key).trans hp, .refl hconf⟩
  extensible := hext
  prototype := hproto
  keys _ key hown := by rwa [hasOwn, ← h key]

theorem Evolves.refl (o : ObjectData) : o.Evolves o :=
  .of_getOwn? (fun _ => rfl) id fun _ => rfl

theorem Evolves.trans (h₁ : o₁.Evolves o₂) (h₂ : o₂.Evolves o₃) : o₁.Evolves o₃ where
  persists key p hp hconf := by
    obtain ⟨q, hq, hpq⟩ := h₁.persists key p hp hconf
    obtain ⟨r, hr, hqr⟩ := h₂.persists key q hq hpq.not_configurable
    exact ⟨r, hr, hpq.trans hqr⟩
  extensible h := h₂.extensible (h₁.extensible h)
  prototype h := (h₂.prototype (h₁.extensible h)).trans (h₁.prototype h)
  keys h key hown := h₁.keys h key (h₂.keys (h₁.extensible h) key hown)

/-- An object without properties that may be extended may become anything. -/
theorem Evolves.of_empty (h : ∀ key, o.getOwn? key = none) (hext : o.extensible = true) :
    o.Evolves o' where
  persists key p hp := by rw [h key] at hp; cases hp
  extensible hfalse := by rw [hext] at hfalse; cases hfalse
  prototype hfalse := by rw [hext] at hfalse; cases hfalse
  keys hfalse := by rw [hext] at hfalse; cases hfalse

/-! ### Defining and deleting -/

theorem lookup_replace_same {p : Property} {properties : List (PropertyKey × Property)}
    (h : (properties.lookup key).isSome = true) :
    (replace key p properties).lookup key = some p := by
  induction properties with
  | nil => cases h
  | cons entry rest ih =>
    by_cases heq : entry.1 = key
    · simp [replace, heq]
    · have hne : (key == entry.1) = false := by simpa using Ne.symm heq
      rw [List.lookup_cons, hne] at h
      simp only [replace, List.map_cons, heq, if_false]
      rw [List.lookup_cons, hne]
      exact ih h

theorem lookup_replace_ne {p : Property} {other : PropertyKey}
    {properties : List (PropertyKey × Property)} (h : other ≠ key) :
    (replace key p properties).lookup other = properties.lookup other := by
  induction properties with
  | nil => rfl
  | cons entry rest ih =>
    by_cases heq : entry.1 = key
    · have hne : (other == entry.1) = false := by simpa [heq] using h
      have hne' : (other == key) = false := by simpa using h
      simp only [replace, List.map_cons, heq, if_true]
      rw [List.lookup_cons, hne', List.lookup_cons, hne]
      exact ih
    · simp only [replace, List.map_cons, heq, if_false]
      rw [List.lookup_cons, List.lookup_cons]
      split
      · rfl
      · exact ih

theorem lookup_filter_ne {other : PropertyKey} {properties : List (PropertyKey × Property)}
    (h : other ≠ key) :
    (properties.filter (·.1 ≠ key)).lookup other = properties.lookup other := by
  induction properties with
  | nil => rfl
  | cons entry rest ih =>
    by_cases heq : entry.1 = key
    · have hne : (other == entry.1) = false := by simpa [heq] using h
      rw [List.filter_cons_of_neg (by simpa using heq), ih, List.lookup_cons, hne]
    · rw [List.filter_cons_of_pos (by simpa using heq), List.lookup_cons, List.lookup_cons, ih]

/-- Only the property under the key changes. -/
theorem getOwn?_define_ne (h : o.define key d = some o') {other : PropertyKey} (hne : other ≠ key) :
    o'.getOwn? other = o.getOwn? other := by
  rw [getOwn?, exoticProperty?_of_kind (kind_define h), getOwn?]
  obtain ⟨_, _, rfl⟩ | ⟨_, _, _, ⟨_, rfl⟩ | ⟨_, rfl⟩⟩ := define_cases h
  · have hlast : [(key, d.complete)].lookup other = none := by simp [hne]
    rw [List.lookup_append, hlast, Option.or_none]
  · rw [lookup_replace_ne hne]
  · rfl

/-- A property that is there is redefined, or it is one that the object has by its kind. -/
theorem getOwn?_define_own (h : o.define key d = some o') {current : Property}
    (hcurrent : o.getOwn? key = some current) :
    d.allows current = true ∧
      (o'.getOwn? key = some (d.update current) ∨ o'.getOwn? key = some current) := by
  obtain ⟨hnone, _⟩ | ⟨p, hp, hallows, hstored | ⟨_, rfl⟩⟩ := define_cases h
  · rw [hnone] at hcurrent
    cases hcurrent
  · obtain rfl : p = current := Option.some.inj (hp.symm.trans hcurrent)
    refine ⟨hallows, ?_⟩
    obtain ⟨hmem, rfl⟩ := hstored
    rw [getOwn?] at hcurrent ⊢
    rw [exoticProperty?_of_kind (kind_define h)]
    cases hx : o.exoticProperty? key with
    | some q => exact .inr (by simpa [hx] using hcurrent)
    | none => exact .inl (by simp [lookup_replace_same (isSome_lookup_iff.mpr hmem)])
  · obtain rfl : p = current := Option.some.inj (hp.symm.trans hcurrent)
    exact ⟨hallows, .inr hcurrent⟩

theorem extensible_define (h : o.define key d = some o') : o'.extensible = o.extensible := by
  obtain ⟨_, _, rfl⟩ | ⟨_, _, _, ⟨_, rfl⟩ | ⟨_, rfl⟩⟩ := define_cases h <;> rfl

theorem prototype_define (h : o.define key d = some o') : o'.prototype = o.prototype := by
  obtain ⟨_, _, rfl⟩ | ⟨_, _, _, ⟨_, rfl⟩ | ⟨_, rfl⟩⟩ := define_cases h <;> rfl

/-- A coherent definition is an evolution. -/
theorem evolves_define [d.Coherent] (h : o.define key d = some o') : o.Evolves o' where
  persists k p hp hconf := by
    by_cases hk : k = key
    · subst hk
      obtain ⟨hallows, hupdate | hsame⟩ := getOwn?_define_own h hp
      · exact ⟨_, hupdate, Descriptor.persists_update hallows hconf⟩
      · exact ⟨p, hsame, .refl hconf⟩
    · exact ⟨p, (getOwn?_define_ne h hk).trans hp, .refl hconf⟩
  extensible hfalse := (extensible_define h).trans hfalse
  prototype _ := prototype_define h
  keys hfalse k hk := by
    have hown : o.hasOwn key = true := by
      obtain ⟨_, hext, _⟩ | ⟨p, hp, _⟩ := define_cases h
      · rw [hext] at hfalse
        cases hfalse
      · simp [hasOwn, hp]
    rw [hasOwn_iff, exoticProperty?_of_kind (kind_define h), keys_define_own h hown] at hk
    exact hasOwn_iff.mpr hk

/-- A deletion is an evolution. -/
theorem evolves_delete (h : o.delete key = some o') : o.Evolves o' := by
  have hexotic := exoticProperty?_of_kind (kind_delete h)
  have hkeys := keys_delete h
  obtain ⟨_, rfl⟩ | ⟨p, hp, hconf, rfl⟩ := delete_cases h
  · exact .refl _
  · refine ⟨fun k q hq hfalse => ?_, id, fun _ => rfl, fun _ k hk => ?_⟩
    · have hne : k ≠ key := by
        rintro rfl
        rw [hp] at hq
        rw [← Option.some.inj hq, hconf] at hfalse
        cases hfalse
      refine ⟨q, ?_, .refl hfalse⟩
      rw [getOwn?, hexotic, lookup_filter_ne hne]
      exact hq
    · rw [hasOwn_iff, hexotic, hkeys] at hk
      exact hasOwn_iff.mpr (hk.imp_right fun hmem => (List.mem_filter.mp hmem).1)

end ObjectData

end Ecma
