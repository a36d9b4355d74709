import Ecma.Object.Heap

/-! Private elements. Objects get the private names of a class from its constructor, all together and
each of them once. In a heap that is whole, each object has all names of a constructor or none, and no
name comes from two constructors. -/

namespace Ecma

/-! ### Places -/

namespace Heap

theorem get_modify_cases (h : Heap) (o : ObjectRef) (f : ObjectData → ObjectData) (p : ObjectRef) :
    (h.modify o f).get p = h.get p ∨ (p = o ∧ (h.modify o f).get p = f (h.get p)) := by
  simp only [get, modify, Array.getD_eq_getD_getElem?, Array.getElem?_modify]
  by_cases heq : o.index = p.index
  · simp only [heq, if_true]
    cases hget : h.objects[p.index]? with
    | none => exact .inl rfl
    | some data =>
      have hp : p = o := by cases p; cases o; simp_all
      exact .inr ⟨hp, rfl⟩
  · exact .inl (by simp [heq])

theorem get_modify_self {h : Heap} {o : ObjectRef} (ho : o.index < h.objects.size)
    (f : ObjectData → ObjectData) : (h.modify o f).get o = f (h.get o) := by
  simp only [get, modify, Array.getD_eq_getD_getElem?, Array.getElem?_modify, if_true]
  rw [Array.getElem?_eq_getElem ho]
  rfl

theorem modify_modify (h : Heap) (o : ObjectRef) (f g : ObjectData → ObjectData) :
    (h.modify o f).modify o g = h.modify o fun data => g (f data) := by
  simp only [modify, mk.injEq]
  refine Array.ext_getElem? fun i => ?_
  simp only [Array.getElem?_modify]
  split
  · rw [Option.map_map]
    rfl
  · rfl

/-- There is no function outside the range. -/
theorem lt_of_function {h : Heap} {o : ObjectRef} {f : ScriptFunction}
    (hkind : (h.get o).kind = .function f) : o.index < h.objects.size := by
  refine Decidable.by_contra fun hout => ?_
  simp [get, Array.getD_eq_getD_getElem?, Nat.not_lt.mp hout] at hkind

theorem get_push_cases (h : Heap) (data : ObjectData) (p : ObjectRef) :
    (h.push data).get p = h.get p ∨ (h.get p = {} ∧ (h.push data).get p = data) := by
  simp only [get, push, Array.getD_eq_getD_getElem?, Array.getElem?_push]
  by_cases heq : p.index = h.objects.size
  · exact .inr (by simp [heq])
  · exact .inl (by simp [heq])

theorem get_push_next (h : Heap) (data : ObjectData) : (h.push data).get h.next = data := by
  simp [get, push, next]

theorem modify_eq_self (h : Heap) (o : ObjectRef) {f : ObjectData → ObjectData}
    (hf : ∀ data, f data = data) : h.modify o f = h := by
  cases h
  simp only [modify, mk.injEq, funext hf]
  exact Array.ext_getElem? fun i => by simp [Array.getElem?_modify]

end Heap

/-! ### Private names -/

namespace ObjectData

/-- The names of the private elements of an object. -/
def privateNames (o : ObjectData) : List PrivateName :=
  o.privateElements.map Prod.fst

/-- The private elements that objects get from a constructor. -/
def instanceElements (o : ObjectData) : List (PrivateName × PrivateElement) :=
  match o.kind with
  | .function f => f.privateMethods
  | _ => []

/-- The private names that objects get from a constructor. -/
def instanceNames (o : ObjectData) : List PrivateName :=
  o.instanceElements.map Prod.fst

/-- An object with the same private elements, as a constructor too. -/
structure KeepsPrivates (o o' : ObjectData) : Prop where
  own : o'.privateElements = o.privateElements
  instances : o'.instanceNames = o.instanceNames

variable {o o' : ObjectData}

theorem KeepsPrivates.refl (o : ObjectData) : o.KeepsPrivates o :=
  ⟨rfl, rfl⟩

theorem KeepsPrivates.of_kind (hown : o'.privateElements = o.privateElements)
    (hkind : o'.kind = o.kind) : o.KeepsPrivates o' :=
  ⟨hown, by rw [instanceNames, instanceElements, hkind, instanceNames, instanceElements]⟩

theorem KeepsPrivates.names (h : o.KeepsPrivates o') : o'.privateNames = o.privateNames := by
  rw [privateNames, h.own, privateNames]

/-- What has no name in it is empty. -/
theorem instanceNames_eq_nil (h : ∀ f, o.kind = .function f → f.privateMethods = []) :
    o.instanceNames = [] := by
  unfold instanceNames instanceElements
  split
  · next f hkind => rw [h f hkind, List.map_nil]
  · rfl

theorem isSome_privateElement? {n : PrivateName} :
    (o.privateElement? n).isSome = true ↔ n ∈ o.privateNames := by
  rw [privateElement?, privateNames]
  induction o.privateElements with
  | nil => simp
  | cons entry rest ih =>
    rw [List.lookup_cons, List.map_cons, List.mem_cons, ← ih]
    cases heq : n == entry.1 with
    | true => simpa using .inl (beq_iff_eq.mp heq)
    | false => simp [beq_eq_false_iff_ne.mp heq]

end ObjectData

namespace Heap

/-- A private name is that of an element of an object, or one that objects get from a
constructor. -/
def Uses (h : Heap) (n : PrivateName) : Prop :=
  ∃ o, n ∈ (h.get o).privateNames ∨ n ∈ (h.get o).instanceNames

/-- Every private name of a constructor is its own, and objects have all names of a constructor or
none of them, each of them once. -/
structure Whole (h : Heap) : Prop where
  own : ∀ o, (h.get o).privateNames.Nodup
  instances : ∀ c, (h.get c).instanceNames.Nodup
  apart : ∀ c c' n, n ∈ (h.get c).instanceNames → n ∈ (h.get c').instanceNames → c' = c
  together : ∀ c o n n', n ∈ (h.get c).instanceNames → n' ∈ (h.get c).instanceNames →
    n ∈ (h.get o).privateNames → n' ∈ (h.get o).privateNames

variable {h h' : Heap} {o c : ObjectRef} {n : PrivateName} {f : ObjectData → ObjectData}

/-! ### Steps that keep private elements -/

theorem keepsPrivates_modify (hf : (h.get o).KeepsPrivates (f (h.get o))) (p : ObjectRef) :
    (h.get p).KeepsPrivates ((h.modify o f).get p) := by
  obtain heq | ⟨rfl, heq⟩ := h.get_modify_cases o f p
  · exact heq ▸ .refl _
  · exact heq ▸ hf

theorem keepsPrivates_push {data : ObjectData} (hown : data.privateElements = [])
    (hinstances : data.instanceNames = []) (p : ObjectRef) :
    (h.get p).KeepsPrivates ((h.push data).get p) := by
  obtain heq | ⟨hempty, heq⟩ := h.get_push_cases data p
  · exact heq ▸ .refl _
  · rw [hempty, heq]
    exact ⟨hown, hinstances⟩

theorem uses_of_keeps (hkeeps : ∀ p, (h.get p).KeepsPrivates (h'.get p)) : h'.Uses n ↔ h.Uses n := by
  simp only [Uses, (hkeeps _).names, (hkeeps _).instances]

theorem Whole.of_keeps (hh : h.Whole) (hkeeps : ∀ p, (h.get p).KeepsPrivates (h'.get p)) :
    h'.Whole where
  own p := by
    rw [(hkeeps p).names]
    exact hh.own p
  instances p := by
    rw [(hkeeps p).instances]
    exact hh.instances p
  apart p q n hp hq := by
    rw [(hkeeps p).instances] at hp
    rw [(hkeeps q).instances] at hq
    exact hh.apart p q n hp hq
  together p q n n' hn hn' hq := by
    rw [(hkeeps p).instances] at hn hn'
    rw [(hkeeps q).names] at hq ⊢
    exact hh.together p q n n' hn hn' hq

/-! ### Steps that give private elements -/

/-- An object that has a name of a constructor has all of them, and else it has none. -/
theorem Whole.all_or_none (hh : h.Whole) (c o : ObjectRef) :
    (∀ n ∈ (h.get c).instanceNames, n ∉ (h.get o).privateNames) ∨
      ∀ n ∈ (h.get c).instanceNames, n ∈ (h.get o).privateNames := by
  by_cases hany : ∃ n ∈ (h.get c).instanceNames, n ∈ (h.get o).privateNames
  · obtain ⟨n, hn, hown⟩ := hany
    exact .inr fun n' hn' => hh.together c o n n' hn hn' hown
  · exact .inl fun n hn hown => hany ⟨n, hn, hown⟩

/-- An object gets the names of a constructor of which it has none. -/
theorem Whole.give (hh : h.Whole)
    (hnone : ∀ n ∈ (h.get c).instanceNames, n ∉ (h.get o).privateNames)
    (hown : (f (h.get o)).privateNames = (h.get o).privateNames ++ (h.get c).instanceNames)
    (hinstances : (f (h.get o)).instanceNames = (h.get o).instanceNames) :
    (h.modify o f).Whole ∧ ∀ n, (h.modify o f).Uses n → h.Uses n := by
  have hsame (p : ObjectRef) : ((h.modify o f).get p).instanceNames = (h.get p).instanceNames := by
    obtain heq | ⟨rfl, heq⟩ := h.get_modify_cases o f p
    · rw [heq]
    · rw [heq, hinstances]
  have hnames (p : ObjectRef) : ((h.modify o f).get p).privateNames = (h.get p).privateNames ∨
      p = o ∧ ((h.modify o f).get p).privateNames =
        (h.get o).privateNames ++ (h.get c).instanceNames := by
    obtain heq | ⟨rfl, heq⟩ := h.get_modify_cases o f p
    · exact .inl (by rw [heq])
    · exact .inr ⟨rfl, by rw [heq, hown]⟩
  refine ⟨⟨fun p => ?_, fun p => ?_, fun p q n hp hq => ?_, fun p q n n' hn hn' hq => ?_⟩, ?_⟩
  · obtain heq | ⟨-, heq⟩ := hnames p <;> rw [heq]
    · exact hh.own p
    · exact List.nodup_append.mpr ⟨hh.own o, hh.instances c, fun n hn n' hn' heq =>
        hnone n' hn' (heq ▸ hn)⟩
  · rw [hsame]
    exact hh.instances p
  · rw [hsame] at hp hq
    exact hh.apart p q n hp hq
  · rw [hsame] at hn hn'
    obtain heq | ⟨rfl, heq⟩ := hnames q <;> rw [heq] at hq ⊢
    · exact hh.together p q n n' hn hn' hq
    · rcases List.mem_append.mp hq with hold | hnew
      · exact List.mem_append_left _ (hh.together p q n n' hn hn' hold)
      · obtain rfl := hh.apart p c n hn hnew
        exact List.mem_append_right _ hn'
  · rintro n ⟨p, hp⟩
    rw [hsame] at hp
    rcases hp with hp | hp
    · obtain heq | ⟨-, heq⟩ := hnames p <;> rw [heq] at hp
      · exact ⟨p, .inl hp⟩
      · rcases List.mem_append.mp hp with hold | hnew
        · exact ⟨o, .inl hold⟩
        · exact ⟨c, .inr hnew⟩
    · exact ⟨p, .inr hp⟩

/-- A constructor gets names that nothing uses: some of its own, and others for its instances. -/
theorem Whole.equip (hh : h.Whole) {statics instances : List PrivateName}
    (hnodup : (statics ++ instances).Nodup) (hfresh : ∀ n ∈ statics ++ instances, ¬h.Uses n)
    (hown : (f (h.get o)).privateNames = (h.get o).privateNames ++ statics)
    (hinstances : (f (h.get o)).instanceNames = instances ∨
      (f (h.get o)).instanceNames = (h.get o).instanceNames) :
    (h.modify o f).Whole ∧ ∀ n, (h.modify o f).Uses n → h.Uses n ∨ n ∈ statics ++ instances := by
  obtain ⟨hstatics, hothers, hdisjoint⟩ := List.nodup_append.mp hnodup
  have hsame (p : ObjectRef) : ((h.modify o f).get p).instanceNames = (h.get p).instanceNames ∨
      p = o ∧ ((h.modify o f).get p).instanceNames = instances := by
    obtain heq | ⟨rfl, heq⟩ := h.get_modify_cases o f p
    · exact .inl (by rw [heq])
    · rcases hinstances with hnew | hold
      · exact .inr ⟨rfl, by rw [heq, hnew]⟩
      · exact .inl (by rw [heq, hold])
  have hnames (p : ObjectRef) : ((h.modify o f).get p).privateNames = (h.get p).privateNames ∨
      ((h.modify o f).get p).privateNames = (h.get p).privateNames ++ statics := by
    obtain heq | ⟨rfl, heq⟩ := h.get_modify_cases o f p
    · exact .inl (by rw [heq])
    · exact .inr (by rw [heq, hown])
  -- The names of the constructor are new, so that no object has any of them but the statics.
  have hnew {p : ObjectRef} {n : PrivateName} (hn : n ∈ instances) :
      n ∉ (h.get p).instanceNames ∧ n ∉ ((h.modify o f).get p).privateNames := by
    have hunused := hfresh n (List.mem_append_right _ hn)
    refine ⟨fun hmem => hunused ⟨p, .inr hmem⟩, fun hmem => ?_⟩
    obtain heq | heq := hnames p <;> rw [heq] at hmem
    · exact hunused ⟨p, .inl hmem⟩
    · rcases List.mem_append.mp hmem with hold | hstatic
      · exact hunused ⟨p, .inl hold⟩
      · exact hdisjoint n hstatic n hn rfl
  refine ⟨⟨fun p => ?_, fun p => ?_, fun p q n hp hq => ?_, fun p q n n' hn hn' hq => ?_⟩, ?_⟩
  · obtain heq | heq := hnames p <;> rw [heq]
    · exact hh.own p
    · exact List.nodup_append.mpr ⟨hh.own p, hstatics, fun n hn n' hn' heq =>
        hfresh n' (List.mem_append_left _ hn') ⟨p, .inl (heq ▸ hn)⟩⟩
  · obtain heq | ⟨-, heq⟩ := hsame p <;> rw [heq]
    · exact hh.instances p
    · exact hothers
  · obtain hpeq | ⟨rfl, hpeq⟩ := hsame p <;> obtain hqeq | ⟨rfl, hqeq⟩ := hsame q <;>
      rw [hpeq] at hp <;> rw [hqeq] at hq
    · exact hh.apart p q n hp hq
    · exact absurd hp (hnew hq).1
    · exact absurd hq (hnew hp).1
  · obtain heq | ⟨-, heq⟩ := hsame p <;> rw [heq] at hn hn'
    · obtain hqeq | hqeq := hnames q <;> rw [hqeq] at hq ⊢
      · exact hh.together p q n n' hn hn' hq
      · rcases List.mem_append.mp hq with hold | hstatic
        · exact List.mem_append_left _ (hh.together p q n n' hn hn' hold)
        · exact absurd ⟨p, .inr hn⟩ (hfresh n (List.mem_append_left _ hstatic))
    · exact absurd hq (hnew hn).2
  · rintro n ⟨p, hp | hp⟩
    · obtain heq | heq := hnames p <;> rw [heq] at hp
      · exact .inl ⟨p, .inl hp⟩
      · rcases List.mem_append.mp hp with hold | hstatic
        · exact .inl ⟨p, .inl hold⟩
        · exact .inr (List.mem_append_left _ hstatic)
    · obtain heq | ⟨-, heq⟩ := hsame p <;> rw [heq] at hp
      · exact .inl ⟨p, .inr hp⟩
      · exact .inr (List.mem_append_right _ hp)

end Heap

end Ecma
