import Ecma.Proofs.Object.Evolution

/-! Accessors that can be called: each half is undefined or a function. Properties are so as long as
the descriptions that define them are. -/

namespace Ecma

/-- A value that can be one half of an accessor: undefined or a function. -/
def Value.IsHalf (calls : ObjectRef → Prop) (v : Value) : Prop :=
  v = .undefined ∨ ∃ f, v = .object f ∧ calls f

/-- An accessor has halves that can be called. -/
def Property.Usable (calls : ObjectRef → Prop) : Property → Prop
  | .data .. => True
  | .accessor get set _ _ => get.IsHalf calls ∧ set.IsHalf calls

/-- The halves of an accessor that are given can be called. -/
structure Descriptor.Usable (calls : ObjectRef → Prop) (d : Descriptor) : Prop where
  get : ∀ v ∈ d.get, v.IsHalf calls
  set : ∀ v ∈ d.set, v.IsHalf calls

/-- All accessors that are stored have halves that can be called. -/
def ObjectData.Usable (calls : ObjectRef → Prop) (o : ObjectData) : Prop :=
  ∀ entry ∈ o.properties, entry.2.Usable calls

/-- A description without an accessor. -/
class Descriptor.IsPlain (d : Descriptor) : Prop where
  get : d.get = none
  set : d.set = none

variable {calls calls' : ObjectRef → Prop} {v : Value} {p : Property} {d : Descriptor}
  {o o' : ObjectData} {key : PropertyKey}

theorem Value.IsHalf.mono (hv : v.IsHalf calls) (h : ∀ f, calls f → calls' f) : v.IsHalf calls' :=
  hv.imp_right fun ⟨f, heq, hf⟩ => ⟨f, heq, h f hf⟩

theorem Property.Usable.mono (hp : p.Usable calls) (h : ∀ f, calls f → calls' f) :
    p.Usable calls' := by
  cases p with
  | data => trivial
  | accessor get set e c => exact ⟨hp.1.mono h, hp.2.mono h⟩

theorem Descriptor.Usable.mono (hd : d.Usable calls) (h : ∀ f, calls f → calls' f) :
    d.Usable calls' :=
  ⟨fun v hv => (hd.get v hv).mono h, fun v hv => (hd.set v hv).mono h⟩

theorem ObjectData.Usable.mono (ho : o.Usable calls) (h : ∀ f, calls f → calls' f) :
    o.Usable calls' :=
  fun entry hentry => (ho entry hentry).mono h

/-! ### Descriptions -/

namespace Descriptor

instance (v : Value) (w e c : Bool) : (data v w e c).IsPlain := ⟨rfl, rfl⟩

instance (v : Value) : (plain v).IsPlain := ⟨rfl, rfl⟩

instance (v : Value) : (hidden v).IsPlain := ⟨rfl, rfl⟩

instance (v : Value) : IsPlain { value := some v } := ⟨rfl, rfl⟩

instance [h : d.IsPlain] : d.Coherent :=
  ⟨fun _ => by simp [isAccessor, h.get, h.set]⟩

theorem IsPlain.usable [h : d.IsPlain] : d.Usable calls :=
  ⟨by simp [h.get], by simp [h.set]⟩

theorem isHalf_getD {half : Option Value} (h : ∀ v ∈ half, v.IsHalf calls)
    (hv : v.IsHalf calls) : (half.getD v).IsHalf calls := by
  cases half with
  | none => exact hv
  | some u => exact h u rfl

theorem Usable.complete (hd : d.Usable calls) : d.complete.Usable calls := by
  unfold Descriptor.complete
  dsimp only
  split
  · exact ⟨isHalf_getD hd.get (.inl rfl), isHalf_getD hd.set (.inl rfl)⟩
  · trivial

theorem Usable.update (hd : d.Usable calls) (hp : p.Usable calls) :
    (d.update p).Usable calls := by
  cases p with
  | data v w e c =>
    unfold Descriptor.update
    dsimp only
    split
    · exact ⟨isHalf_getD hd.get (.inl rfl), isHalf_getD hd.set (.inl rfl)⟩
    · trivial
  | accessor get set e c =>
    unfold Descriptor.update
    dsimp only
    split
    · trivial
    · exact ⟨isHalf_getD hd.get hp.1, isHalf_getD hd.set hp.2⟩

end Descriptor

/-! ### Objects -/

namespace ObjectData

/-- A string that an object wraps has no accessors. -/
theorem Usable.getOwn? (ho : o.Usable calls) (hp : o.getOwn? key = some p) : p.Usable calls := by
  rw [ObjectData.getOwn?] at hp
  cases hexotic : o.exoticProperty? key with
  | none =>
    rw [hexotic] at hp
    obtain ⟨before, after, heq, -⟩ := List.lookup_eq_some_iff.mp hp
    exact ho (key, p) (by simp [heq])
  | some q =>
    rw [hexotic] at hp
    cases hp
    unfold exoticProperty? Units.property? at hexotic
    split at hexotic
    · split at hexotic
      · cases hexotic; trivial
      · split at hexotic <;> cases hexotic; trivial
    · cases hexotic

theorem Usable.of_properties (ho : o.Usable calls) (h : o'.properties = o.properties) :
    o'.Usable calls := by
  rwa [Usable, h]

theorem Usable.define (ho : o.Usable calls) (hd : d.Usable calls)
    (h : o.define key d = some o') : o'.Usable calls := by
  obtain ⟨-, -, rfl⟩ | ⟨current, hcurrent, -, ⟨-, rfl⟩ | ⟨-, rfl⟩⟩ := define_cases h
  · intro entry hentry
    rcases List.mem_append.mp hentry with hentry | hentry
    · exact ho entry hentry
    · cases List.mem_singleton.mp hentry
      exact hd.complete
  · intro entry hentry
    obtain ⟨old, hold, rfl⟩ := List.mem_map.mp hentry
    split
    · exact hd.update (ho.getOwn? hcurrent)
    · exact ho old hold
  · exact ho

theorem Usable.delete (ho : o.Usable calls) (h : o.delete key = some o') : o'.Usable calls := by
  obtain ⟨-, rfl⟩ | ⟨-, -, -, rfl⟩ := delete_cases h
  · exact ho
  · exact fun entry hentry => ho entry (List.mem_filter.mp hentry).1

end ObjectData

/-! ### Heaps -/

namespace Heap

/-- What is a function stays one. -/
def KeepsCallable (h h' : Heap) : Prop :=
  ∀ f, h.isCallable f = true → h'.isCallable f = true

theorem KeepsCallable.refl (h : Heap) : h.KeepsCallable h :=
  fun _ hf => hf

theorem KeepsCallable.trans {h₁ h₂ h₃ : Heap} (h₁₂ : h₁.KeepsCallable h₂)
    (h₂₃ : h₂.KeepsCallable h₃) : h₁.KeepsCallable h₃ :=
  fun f hf => h₂₃ f (h₁₂ f hf)

end Heap

end Ecma
