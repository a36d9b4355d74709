import Ecma.Proofs.Frame.Balance

/-! Prototypes are acyclic in every state that requests lead to, so that searches along them end and
see all of a chain. A cycle could only come from an object that is named before it is there; requests
name the objects that they have been given. -/

namespace Ecma

/-! ### The first state -/

namespace Property

/-- The objects that a property refers to. -/
def objects : Property → List ObjectRef
  | .data v _ _ _ => v.object?.toList
  | .accessor get set _ _ => get.object?.toList ++ set.object?.toList

theorem mem_objects {p : Property} {o : ObjectRef} (h : Mentions.mentions p o) : o ∈ p.objects := by
  have hvalue {v : Value} (h : Mentions.mentions v o) : o ∈ v.object?.toList := by
    cases v with
    | primitive x => exact h.elim
    | object q => exact h ▸ List.mem_singleton_self q
  cases p with
  | data v _ _ _ => exact hvalue h
  | accessor get set _ _ => exact List.mem_append.mpr (h.imp hvalue hvalue)

end Property

namespace Heap

/-- The fixed objects are there, every object inherits from an earlier one, and its properties refer
to objects of the heap. -/
def isTidy (h : Heap) : Bool :=
  decide (Intrinsic.globalObject.index < h.objects.size) &&
    h.objects.toList.zipIdx.all fun (data, i) =>
      data.prototype.all (·.index < i) && data.privateElements.isEmpty &&
        data.properties.all fun entry => entry.2.objects.all (·.index < h.objects.size)

variable {h : Heap}

theorem grounded_of_lt (hlt : ∀ o p, h.Parent o p → p.index < o.index) : h.Grounded := by
  intro o
  induction hi : o.index using Nat.strongRecOn generalizing o with
  | ind i ih =>
    cases hp : (h.get o).prototype with
    | none => exact ⟨[o], .step (hp ▸ .stop)⟩
    | some p =>
      obtain ⟨l, hl⟩ := ih p.index (hi ▸ hlt o p hp) p rfl
      exact ⟨o :: l, .step (hp ▸ hl)⟩

/-- What a tidy heap says of one object. -/
theorem tidy_get (hh : h.isTidy = true) (o : ObjectRef) :
    (∀ p, h.Parent o p → p.index < o.index) ∧ (h.get o).privateElements = [] ∧
      ∀ entry ∈ (h.get o).properties, ∀ p ∈ entry.2.objects, p.index < h.objects.size := by
  by_cases ho : o.index < h.objects.size
  · have hget : h.get o = h.objects[o.index] := by
      simp [get, Array.getD_eq_getD_getElem?, ho]
    have hmem : (h.get o, o.index) ∈ h.objects.toList.zipIdx := by
      rw [List.mem_zipIdx_iff_getElem?, hget]
      simp [ho]
    have hobject := List.all_eq_true.mp (Bool.and_eq_true_iff.mp hh).2 _ hmem
    simp only [Bool.and_eq_true, Option.all_eq_true, List.all_eq_true, decide_eq_true_eq,
      List.isEmpty_iff] at hobject
    exact ⟨hobject.1.1, hobject.1.2, hobject.2⟩
  · simp [Parent, get_of_not_lt ho]

end Heap

theorem Realm.isTidy_heap : Realm.heap.isTidy = true := by
  decide +kernel

/-- A tidy heap of built-in objects, with scopes that mention none of them, is closed. -/
theorem Store.Closed.of_tidy {st : Store} (htidy : st.heap.isTidy = true) (hplain : st.heap.Plain)
    (hscopes : ∀ q, Within 0 (st.scopes.get q)) : st.Closed where
  intrinsics := of_decide_eq_true (Bool.and_eq_true_iff.mp htidy).1
  objects o := by
    obtain ⟨hparent, hprivate, hproperties⟩ := Heap.tidy_get htidy o
    rintro p (⟨q, hq, rfl⟩ | ⟨entry, hentry, hp⟩ | hp | hp)
    · by_cases ho : o.index < st.heap.objects.size
      · exact .inl (Nat.lt_trans (hparent q hq) ho)
      · rw [Heap.get_of_not_lt ho] at hq
        cases hq
    · exact .inl (hproperties entry hentry p (Property.mem_objects (hp.resolve_left id)))
    · cases hkind : (st.heap.get o).kind with
      | function f => exact absurd hkind (hplain.functions o f)
      | _ =>
        rw [hkind] at hp
        exact hp.elim
    · rw [hprivate] at hp
      obtain ⟨_, hnone, -⟩ := hp
      cases hnone
  scopes q := (hscopes q).mono (Nat.zero_le _)
  grounded := Heap.grounded_of_lt fun o => (Heap.tidy_get htidy o).1

theorem State.closed_initial : State.initial.toStore.Closed := by
  have hheap : State.initial.heap = Realm.heap := by simp only [initial]
  have hscopes : State.initial.scopes = Scopes.empty.push {} := by simp only [initial]
  have hempty : Known .full 0 ({} : Environment) := inferInstance
  refine .of_tidy (hheap ▸ Realm.isTidy_heap) (hheap ▸ Realm.plain_heap) fun q => ?_
  rw [hscopes]
  obtain heq | ⟨-, -, heq⟩ := Scopes.empty.get_push_cases {} q <;> rw [heq]
  · exact (hempty.within trivial).there
  · exact (hempty.within trivial).there

/-! ### States -/

/-- A state that requests lead to which only name objects that are there. -/
inductive State.Attained : State → Prop
  | initial : Attained initial
  | request {s : State} (h : Attained s) (q : Request) (hq : Within s.heap.objects.size q)
    (fuel : Nat) : Attained (q.after fuel s)

/-- References are tracked. -/
def Regime.tracking : Regime :=
  ⟨.full, Eval.maxCallDepth, Nat.le_refl _⟩

theorem State.Attained.reached {s : State} (h : s.Attained) : s.Reached := by
  induction h with
  | initial => exact .initial
  | request _ q _ fuel ih => exact .request ih q fuel

theorem State.Attained.closed {s : State} (h : s.Attained) : s.toStore.Closed := by
  induction h with
  | initial => exact closed_initial
  | @request s hs q hq fuel ih =>
    have : Known Regime.tracking.tracked s.heap.objects.size q := ⟨fun _ => hq.full⟩
    have hdepth : s.callDepth ≤ Eval.maxCallDepth := hs.reached.idle.2.trans_le (Nat.zero_le _)
    have hstarts : Eval.Starts .tracking s.heap.objects.size s :=
      ⟨Nat.le_refl _, hdepth, fun _ => ih.obeys⟩
    have hkept := q.keeps_after fuel hstarts
    exact (hkept.2 trivial).obeys.toClosed

/-! ### Searches -/

namespace Store.Closed

variable {st : Store}

/-- The chain that a search follows is the whole walk. -/
theorem walk_chain (h : st.Closed) (start : Option ObjectRef) :
    st.heap.Walk start (st.heap.chain start) := by
  by_cases hstart : ∀ o ∈ start, o.index < st.heap.objects.size
  · exact Heap.walk_chain h.linked h.grounded hstart
  · -- nothing is behind a reference that leads to no object
    cases start with
    | none => exact absurd (fun _ ho => by cases ho) hstart
    | some o =>
      have ho : ¬o.index < st.heap.objects.size := by simpa using hstart
      have hwalk : st.heap.Walk (some o) [o] := .step (Heap.get_of_not_lt ho ▸ .stop)
      rwa [Heap.chain, Heap.chainFrom_eq hwalk (Nat.zero_lt_of_lt h.intrinsics)]

theorem find?_eq (h : st.Closed) {o : ObjectRef} {l : List ObjectRef}
    (hl : st.heap.Walk (some o) l) (key : PropertyKey) :
    st.heap.find? o key = l.findSome? (st.heap.getOwn? · key) := by
  rw [Heap.find?, (h.walk_chain (some o)).unique hl]

theorem inherits_iff (h : st.Closed) (o p : ObjectRef) :
    st.heap.inherits o p = true ↔ Relation.TransGen st.heap.Parent o p := by
  have hwalk := Heap.Walk.step (h.walk_chain (st.heap.get o).prototype)
  rw [Heap.inherits, List.contains_iff_mem, hwalk.mem_tail_iff]

theorem acceptsPrototype_iff (h : st.Closed) (o : ObjectRef) (prototype : Option ObjectRef) :
    st.heap.acceptsPrototype o prototype = true ↔
      (st.heap.get o).prototype = prototype ∨ ((st.heap.get o).extensible = true ∧
        ∀ p ∈ prototype, ¬Relation.ReflTransGen st.heap.Parent p o) := by
  have hchain : o ∈ st.heap.chain prototype ↔
      ∃ p ∈ prototype, Relation.ReflTransGen st.heap.Parent p o := by
    have hwalk := h.walk_chain prototype
    cases prototype with
    | none => simp [hwalk.unique .stop]
    | some p => simp [hwalk.mem_iff]
  simp [Heap.acceptsPrototype, hchain]

end Store.Closed

/-! ### Acyclicity -/

open scoped Classical in
/-- In every state that requests lead to no object inherits from itself, and so it is whenever a
script, a call or a construction comes to an expression, a statement or a call. Walks along
prototypes end: a property is searched on all of them, `inherits` (for `isPrototypeOf` and
`instanceof`) tells whether an object is behind another one, and a prototype is set exactly if it is
the one that is there, or if the object is extensible and is not on the chain from the prototype;
otherwise nothing changes. -/
theorem State.prototypes_acyclic {s : State} (hs : s.Attained) :
    (∀ o, ¬Relation.TransGen s.heap.Parent o o) ∧
    (∀ (a : Activity) (fuel : Nat), Within s.heap.objects.size a →
      ¬a.Meets (fun t => ∃ o, Relation.TransGen t.heap.Parent o o) fuel s) ∧
    (∀ o, ∃ l, s.heap.Walk (some o) l ∧
      ∀ key, s.heap.find? o key = l.findSome? (s.heap.getOwn? · key)) ∧
    (∀ o p, s.heap.inherits o p = true ↔ Relation.TransGen s.heap.Parent o p) ∧
    ∀ o prototype, ∃ accepted s', Eval.setPrototype o prototype s = .ok accepted s' ∧
      (accepted = true ↔ (s.heap.get o).prototype = prototype ∨
        ((s.heap.get o).extensible = true ∧
          ∀ p ∈ prototype, ¬Relation.ReflTransGen s.heap.Parent p o)) ∧
      (accepted = false → s' = s) := by
  have hclosed := hs.closed
  refine ⟨hclosed.grounded.acyclic, fun a fuel ha => ?_, fun o => ?_, hclosed.inherits_iff,
    fun o prototype => ?_⟩
  · have : Known Regime.tracking.tracked s.heap.objects.size a := ⟨fun _ => ha.full⟩
    have hdepth : s.callDepth ≤ Eval.maxCallDepth := hs.reached.idle.2.trans_le (Nat.zero_le _)
    have hstarts : Eval.Starts .tracking s.heap.objects.size s :=
      ⟨Nat.le_refl _, hdepth, fun _ => hclosed.obeys⟩
    refine a.not_meets (fun ht => ?_) fuel hstarts
    exact fun ⟨o, ho⟩ => (ht.obeys trivial).grounded.acyclic o ho
  · exact ⟨_, hclosed.walk_chain (some o), hclosed.find?_eq (hclosed.walk_chain (some o))⟩
  · rw [← hclosed.acceptsPrototype_iff, Eval.setPrototype_apply]
    split
    · next haccepts => exact ⟨_, _, rfl, by simp [haccepts], fun hfalse => by cases hfalse⟩
    · next haccepts => exact ⟨_, _, rfl, by simp [haccepts], fun _ => rfl⟩

/-- The general prototype cannot inherit from the prototype of functions, which inherits from it. -/
theorem State.prototypes_acyclic_refused :
    Eval.setPrototype Intrinsic.objectPrototype (some Intrinsic.functionPrototype) State.initial =
      .ok false State.initial := by
  have hheap : State.initial.heap = Realm.heap := by simp only [initial]
  have hprototypes :
      (Realm.heap.get Intrinsic.functionPrototype).prototype = some Intrinsic.objectPrototype ∧
        (Realm.heap.get Intrinsic.objectPrototype).prototype = none := by
    decide +kernel
  obtain ⟨-, -, -, -, hset⟩ := prototypes_acyclic .initial
  obtain ⟨accepted, s', heq, haccepted, hrefused⟩ :=
    hset Intrinsic.objectPrototype (some Intrinsic.functionPrototype)
  rw [hheap] at haccepted
  cases accepted with
  | false => rw [heq, hrefused rfl]
  | true =>
    obtain hsame | ⟨-, haway⟩ := haccepted.mp rfl
    · cases hprototypes.2.symm.trans hsame
    · exact absurd (.single hprototypes.1) (haway _ rfl)

end Ecma
