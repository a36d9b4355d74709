import Ecma.Proofs.Object.Table
import Ecma.Proofs.Run.Request

/-! The life of an object: what stays of it, and how its keys are listed, whatever scripts and
requests do. -/

namespace Ecma

/-! ### What stays -/

/-- From any state on, every object only becomes what it may, as long as no description asks for
both a value and an accessor. A property that is not configurable stays so with its enumerability
and its kind: accessors do not change, and a value that is not writable stays the same. An object
that is not extensible keeps its prototype and gains no property. This holds of the contents of a
wrapped string as of stored properties. -/
theorem State.object_evolves {s s' : State} (hs : s.Reached) (h : s.Proceeds s') (o : ObjectRef) :
    (s.heap.get o).Evolves (s'.heap.get o) :=
  (h.follows hs.sound).1.evolves o

/-- A guarded built-in function, and an attempt to redefine its length. -/
theorem State.object_evolves_thrower :
    (State.initial.heap.get Intrinsic.throwTypeError).Evolves
      (((Request.define Intrinsic.throwTypeError "length" (.plain .null)).after 0
        State.initial).heap.get Intrinsic.throwTypeError) :=
  State.object_evolves .initial
    (.request .refl _ 0 (inferInstanceAs (Descriptor.plain _).Coherent)) _

/-! ### How keys are listed -/

/-- Whatever is done to an object, with whatever descriptions, its map and its list of keys stay in
step, every stored description is complete and of one kind and, unless the object wraps a string
whose positions are no array indices, its keys are listed in order. Every object that is ever there
stands for one that is stored in that way, and one that stands for another does as that does. -/
theorem State.object_keys_ordered :
    (∀ t : ObjectTable, t.Reached → t.KeepsOrder ∧ (t.HasShortString → t.ListsKeys)) ∧
      (∀ s : State, s.Reached → ∀ o, ∃ t : ObjectTable, t.Reached ∧ t.Represents (s.heap.get o)) ∧
      ∀ (t : ObjectTable) (o : ObjectData), t.Represents o → t.Matches o :=
  ⟨fun _ ht => ⟨ht.keepsOrder, ht.listsKeys⟩,
    fun _ hs o => ObjectTable.exists_reached (hs.sound.objects o),
    fun _ _ h => h.matches⟩

/-- A wrapped string, of which a property is deleted and added again, and another in a state. -/
theorem State.object_keys_ordered_wrapper :
    ((((((ObjectTable.new (.string "ab")).define "x" (.plain .null)).2.define "y" {}).2.delete
      "x").2.define "x" { get := some .null }).2.ListsKeys) ∧
      ∃ t : ObjectTable, t.Reached ∧ t.Matches
        (((Request.create none (.string "ab") nofun).after 0 State.initial).heap.get
          State.initial.heap.next) := by
  obtain ⟨htables, hstates, hmatches⟩ := State.object_keys_ordered
  refine ⟨(htables _ (((((.new _ : ObjectTable.Reached _).define _ _).define _ _).delete _).define
    _ _)).2 fun s hs => ?_, ?_⟩
  · simp only [ObjectTable.kind_define, ObjectTable.kind_delete] at hs
    cases hs
    decide
  · obtain ⟨t, ht, hrep⟩ := hstates _ (.request .initial _ 0) State.initial.heap.next
    exact ⟨t, ht, hmatches _ _ hrep⟩

end Ecma
