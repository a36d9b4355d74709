import Ecma.Proofs.Run.Store
import Mathlib.Data.List.Range
import Mathlib.Logic.Relation

/-! Walks along prototypes. On a heap where every walk ends, no object is on its own chain, and the
searches that follow a chain see all of it. Adding an object and setting a prototype that is
accepted leave such a heap one. -/

namespace Ecma

namespace Heap

variable {h h' : Heap} {start : Option ObjectRef} {o p : ObjectRef} {l l' : List ObjectRef}

/-- An object inherits directly from another one. -/
def Parent (h : Heap) (o p : ObjectRef) : Prop :=
  (h.get o).prototype = some p

/-- A whole walk along prototypes: the objects that it comes to, up to one without a prototype. -/
inductive Walk (h : Heap) : Option ObjectRef → List ObjectRef → Prop
  | stop : Walk h none []
  | step {o : ObjectRef} {rest : List ObjectRef} (tail : Walk h (h.get o).prototype rest) :
    Walk h (some o) (o :: rest)

/-- Every walk ends. -/
def Grounded (h : Heap) : Prop :=
  ∀ o, ∃ l, h.Walk (some o) l

/-- Every prototype is an object of the heap. -/
def Linked (h : Heap) : Prop :=
  ∀ o p, h.Parent o p → p.index < h.objects.size

/-! ### One walk -/

theorem Walk.unique (hl : h.Walk start l) (hl' : h.Walk start l') : l = l' := by
  induction hl generalizing l' with
  | stop => cases hl'; rfl
  | step _ ih =>
    cases hl' with
    | step tail => rw [ih tail]

/-- From an object on a walk, the walk goes on as it would from that object. -/
theorem Walk.from_mem (hl : h.Walk start l) (ho : o ∈ l) : ∃ l', h.Walk (some o) l' ∧ l' <:+ l := by
  induction hl with
  | stop => cases ho
  | @step p rest tail ih =>
    rcases List.mem_cons.mp ho with rfl | ho
    · exact ⟨_, .step tail, List.suffix_refl _⟩
    · obtain ⟨l', hl', hsuffix⟩ := ih ho
      exact ⟨l', hl', hsuffix.trans (List.suffix_cons p rest)⟩

/-- A walk that ends does not come back: it would go on forever. -/
theorem Walk.not_mem_tail (hl : h.Walk (some o) (o :: l)) : o ∉ l := by
  intro ho
  cases hl with
  | step tail =>
    obtain ⟨l', hl', hsuffix⟩ := tail.from_mem ho
    have heq : l' = o :: l := hl'.unique (.step tail)
    have hlength := hsuffix.length_le
    rw [heq, List.length_cons] at hlength
    omega

theorem Walk.nodup (hl : h.Walk start l) : l.Nodup := by
  induction hl with
  | stop => exact List.nodup_nil
  | step tail ih => exact List.nodup_cons.mpr ⟨(Walk.step tail).not_mem_tail, ih⟩

theorem Walk.lt (hh : h.Linked) (hstart : ∀ o ∈ start, o.index < h.objects.size)
    (hl : h.Walk start l) : ∀ o ∈ l, o.index < h.objects.size := by
  induction hl with
  | stop => exact fun _ ho => by cases ho
  | @step p rest _ ih =>
    intro o ho
    rcases List.mem_cons.mp ho with rfl | ho
    · exact hstart o rfl
    · exact ih (fun q hq => hh p q hq) o ho

/-- No walk is longer than the heap. -/
theorem Walk.length_le (hh : h.Linked) (hstart : ∀ o ∈ start, o.index < h.objects.size)
    (hl : h.Walk start l) : l.length ≤ h.objects.size := by
  have hinj : Function.Injective ObjectRef.index := fun a b heq => by cases a; cases b; simp_all
  have hnodup : (l.map ObjectRef.index).Nodup := hl.nodup.map hinj
  have hsubset : l.map ObjectRef.index ⊆ List.range h.objects.size := by
    intro i hi
    obtain ⟨o, ho, rfl⟩ := List.mem_map.mp hi
    exact List.mem_range.mpr (hl.lt hh hstart o ho)
  simpa using (List.subperm_of_subset hnodup hsubset).length_le

/-- The objects of a walk are those that inheritance leads to. -/
theorem Walk.mem_iff (hl : h.Walk (some o) l) : p ∈ l ↔ Relation.ReflTransGen h.Parent o p := by
  constructor
  · intro hp
    generalize hstart : some o = start at hl
    induction hl generalizing o with
    | stop => cases hp
    | @step q rest tail ih =>
      cases hstart
      rcases List.mem_cons.mp hp with rfl | hp
      · exact .refl
      · cases hq : (h.get q).prototype with
        | none =>
          rw [hq] at tail
          cases tail
          cases hp
        | some next => exact .head hq (ih hp hq.symm)
  · intro hp
    induction hp using Relation.ReflTransGen.head_induction_on generalizing l with
    | refl =>
      cases hl with
      | step _ => exact List.mem_cons_self
    | head hparent _ ih =>
      cases hl with
      | step tail => exact List.mem_cons_of_mem _ (ih (hparent ▸ tail))

/-- The objects behind the first one are those that it inherits from. -/
theorem Walk.mem_tail_iff (hl : h.Walk (some o) (o :: l)) :
    p ∈ l ↔ Relation.TransGen h.Parent o p := by
  cases hl with
  | step tail =>
    rw [Relation.TransGen.head'_iff]
    cases hq : (h.get o).prototype with
    | none =>
      rw [hq] at tail
      cases tail
      simp [Parent, hq]
    | some q =>
      rw [hq] at tail
      rw [tail.mem_iff]
      simp [Parent, hq]

/-! ### Searches -/

theorem chainFrom_eq (hl : h.Walk start l) {fuel : Nat} (hfuel : l.length ≤ fuel) :
    h.chainFrom fuel start = l := by
  induction hl generalizing fuel with
  | stop => cases fuel <;> rfl
  | step _ ih =>
    obtain ⟨fuel, rfl⟩ := Nat.exists_eq_add_one_of_ne_zero (Nat.ne_zero_of_lt hfuel)
    rw [chainFrom, ih (Nat.le_of_succ_le_succ hfuel)]

theorem get_of_not_lt (ho : ¬o.index < h.objects.size) : h.get o = {} := by
  simp [get, Array.getD_eq_getD_getElem?, Nat.not_lt.mp ho]

/-- The chain of an object is the whole walk from it. -/
theorem walk_chain (hh : h.Linked) (hg : h.Grounded)
    (hstart : ∀ o ∈ start, o.index < h.objects.size) : h.Walk start (h.chain start) := by
  obtain ⟨l, hl⟩ : ∃ l, h.Walk start l := by
    cases start with
    | none => exact ⟨[], .stop⟩
    | some o => exact hg o
  rwa [chain, chainFrom_eq hl (hl.length_le hh hstart)]

/-- No object inherits from itself. -/
theorem Grounded.acyclic (hg : h.Grounded) (o : ObjectRef) : ¬Relation.TransGen h.Parent o o := by
  obtain ⟨l, hl⟩ := hg o
  cases hl with
  | step tail =>
    have hwalk := Walk.step tail
    exact fun hcycle => hwalk.not_mem_tail (hwalk.mem_tail_iff.mpr hcycle)

/-! ### Changes -/

/-- A walk that comes to no object whose prototype changes stays the same. -/
theorem Walk.congr (hl : h.Walk start l)
    (heq : ∀ o ∈ l, (h'.get o).prototype = (h.get o).prototype) : h'.Walk start l := by
  induction hl with
  | stop => exact .stop
  | step _ ih =>
    refine .step ?_
    rw [heq _ List.mem_cons_self]
    exact ih fun q hq => heq q (List.mem_cons_of_mem _ hq)

theorem Grounded.congr (hg : h.Grounded)
    (heq : ∀ o, (h'.get o).prototype = (h.get o).prototype) : h'.Grounded := by
  intro o
  obtain ⟨l, hl⟩ := hg o
  exact ⟨l, hl.congr fun q _ => heq q⟩

@[simp] theorem size_push (h : Heap) (data : ObjectData) :
    (h.push data).objects.size = h.objects.size + 1 :=
  Array.size_push data

@[simp] theorem size_modify (h : Heap) (o : ObjectRef) (f : ObjectData → ObjectData) :
    (h.modify o f).objects.size = h.objects.size :=
  Array.size_modify

theorem get_push_of_lt (ho : o.index < h.objects.size) (data : ObjectData) :
    (h.push data).get o = h.get o := by
  simp [get, push, Array.getD_eq_getD_getElem?, Array.getElem?_push, Nat.ne_of_lt ho]

/-- A new object inherits from an old one, and no old one from it. -/
theorem Grounded.push (hg : h.Grounded) (hh : h.Linked) {data : ObjectData}
    (hdata : ∀ p ∈ data.prototype, p.index < h.objects.size) : (h.push data).Grounded := by
  have hold {start : Option ObjectRef} {l : List ObjectRef} (hl : h.Walk start l)
      (hstart : ∀ o ∈ start, o.index < h.objects.size) : (h.push data).Walk start l :=
    hl.congr fun q hq => by rw [get_push_of_lt (hl.lt hh hstart q hq)]
  intro o
  by_cases ho : o.index < h.objects.size
  · obtain ⟨l, hl⟩ := hg o
    exact ⟨l, hold hl fun q hq => by cases hq; exact ho⟩
  · obtain heq | ⟨-, heq⟩ := h.get_push_cases data o
    · refine ⟨[o], .step ?_⟩
      rw [heq, get_of_not_lt ho]
      exact .stop
    · have hwalk := walk_chain hh hg hdata
      refine ⟨o :: h.chain data.prototype, .step ?_⟩
      rw [heq]
      exact hold hwalk hdata

/-- Setting a prototype makes no cycle, if the walk from it does not come to the object. -/
theorem Grounded.modify (hg : h.Grounded) {prototype : Option ObjectRef}
    {behind : List ObjectRef} (hl : h.Walk prototype behind) (ho : o ∉ behind) {f : ObjectData → ObjectData}
    (hf : ∀ data, (f data).prototype = prototype) : (h.modify o f).Grounded := by
  have hnew : (h.modify o f).Walk prototype behind := by
    refine hl.congr fun q hq => ?_
    obtain heq | ⟨rfl, -⟩ := h.get_modify_cases o f q
    · rw [heq]
    · exact absurd hq ho
  suffices ∀ {start : Option ObjectRef} {l : List ObjectRef}, h.Walk start l →
      ∃ l', (h.modify o f).Walk start l' from
    fun q => (hg q).elim fun _ hq => this hq
  intro start l hstart
  induction hstart with
  | stop => exact ⟨[], .stop⟩
  | @step q rest _ ih =>
    obtain heq | ⟨rfl, heq⟩ := h.get_modify_cases o f q
    · obtain ⟨l', hl'⟩ := ih
      refine ⟨q :: l', .step ?_⟩
      rwa [heq]
    · refine ⟨q :: behind, .step ?_⟩
      rw [heq, hf]
      exact hnew

end Heap

end Ecma
