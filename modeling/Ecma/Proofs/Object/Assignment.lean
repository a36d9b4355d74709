import Ecma.Proofs.Object.Definition
import Ecma.Proofs.Scope.Lifetime

/-! Assigning to a property: what is found on the chain of one object decides whether a setter is
called, or whether another object, the receiver, gets the value. -/

namespace Ecma

/-! ### Finding -/

namespace Heap

variable {h : Heap} {key : PropertyKey} {start : Option ObjectRef} {found : Option Property}

/-- What is found under a key from an object on: its own property, else that of its prototype. -/
inductive Finds (h : Heap) (key : PropertyKey) : Option ObjectRef → Option Property → Prop
  | nowhere : Finds h key none none
  | own {o : ObjectRef} {p : Property} (own : h.getOwn? o key = some p) :
    Finds h key (some o) (some p)
  | inherited {o : ObjectRef} {found : Option Property} (missing : h.getOwn? o key = none)
    (rest : Finds h key (h.get o).prototype found) : Finds h key (some o) found

theorem Finds.of_walk {l : List ObjectRef} (hl : h.Walk start l) :
    h.Finds key start (l.findSome? (h.getOwn? · key)) := by
  induction hl with
  | stop => exact .nowhere
  | @step o rest _ ih =>
    cases hown : h.getOwn? o key with
    | some p => simpa [hown] using .own hown
    | none => simpa [hown] using .inherited hown ih

/-- Where no object inherits from itself, every walk ends. -/
theorem grounded_of_acyclic (hlinked : h.Linked)
    (hacyclic : ∀ o, ¬Relation.TransGen h.Parent o o) : h.Grounded := by
  let Object := { o : ObjectRef // o.index < h.objects.size }
  let below : Object → Object → Prop := Relation.TransGen fun p o => h.Parent o.1 p.1
  have : Finite Object :=
    .of_injective (fun o => (⟨o.1.index, o.2⟩ : Fin h.objects.size)) fun a b heq => by
      obtain ⟨⟨i⟩, hi⟩ := a
      obtain ⟨⟨j⟩, hj⟩ := b
      obtain rfl : i = j := congrArg Fin.val heq
      rfl
  have : Std.Irrefl below := ⟨fun o hcycle =>
    hacyclic o.1 (Relation.transGen_swap.mp (hcycle.lift Subtype.val fun _ _ h => h))⟩
  have : IsTrans Object below := ⟨fun _ _ _ => .trans⟩
  have hwf : WellFounded below := Finite.wellFounded_of_trans_of_irrefl below
  have hobject (o : Object) : ∃ l, h.Walk (some o.1) l := by
    induction o using hwf.induction with
    | h o ih =>
      cases hp : (h.get o.1).prototype with
      | none => exact ⟨[o.1], .step (hp ▸ .stop)⟩
      | some p =>
        obtain ⟨l, hl⟩ := ih ⟨p, hlinked o.1 p hp⟩ (.single hp)
        exact ⟨o.1 :: l, .step (hp ▸ hl)⟩
  intro o
  by_cases ho : o.index < h.objects.size
  · exact hobject ⟨o, ho⟩
  · refine ⟨[o], .step ?_⟩
    rw [get_of_not_lt ho]
    exact .stop

/-- A search follows the whole chain. -/
theorem finds_find? (hlinked : h.Linked) (hacyclic : ∀ o, ¬Relation.TransGen h.Parent o o)
    {o : ObjectRef} (ho : o.index < h.objects.size) (key : PropertyKey) :
    h.Finds key (some o) (h.find? o key) := by
  refine .of_walk (walk_chain hlinked (grounded_of_acyclic hlinked hacyclic) fun p hp => ?_)
  cases hp
  exact ho

/-- Why an object does not take a value: its own property cannot be written, or it may gain none. -/
inductive Locks (h : Heap) (r : ObjectRef) (key : PropertyKey) : Prop
  | accessor {get set : Value} {e c : Bool} (own : h.getOwn? r key = some (.accessor get set e c))
  | readOnly {v : Value} {e c : Bool} (own : h.getOwn? r key = some (.data v false e c))
  | closed (missing : h.getOwn? r key = none) (closed : (h.get r).extensible = false)

/-- A heap in which only one property of an object is different: it has a new value, and it has the
attributes that it had, or else all of them. -/
structure Stores (r : ObjectRef) (key : PropertyKey) (v : Value) (h h' : Heap) : Prop extends
    SameBut r key h h' where
  kept : ∀ old w e c, h.getOwn? r key = some (.data old w e c) →
    h'.getOwn? r key = some (.data v w e c)
  new : h.getOwn? r key = none → h'.getOwn? r key = some (.data v true true true)

end Heap

namespace Property

/-- The object that an assignment calls. -/
def setter? : Property → Option ObjectRef
  | .accessor _ (.object f) _ _ => some f
  | _ => none

/-- A property that stops an assignment where it is found. -/
inductive Blocks : Property → Prop
  | noSetter {get set : Value} {e c : Bool} (none : ∀ f, set ≠ .object f) :
    Blocks (.accessor get set e c)
  | readOnly {v : Value} {e c : Bool} : Blocks (.data v false e c)

end Property

/-- Why an assignment is refused that calls no setter. -/
def Heap.RefusesSet (h : Heap) (r : ObjectRef) (key : PropertyKey) (found : Option Property) : Prop :=
  (∃ p, found = some p ∧ p.Blocks) ∨ h.Locks r key

/-! ### Assigning -/

namespace Eval

theorem define_of_some {s : State} {r : ObjectRef} {key : PropertyKey} {d : Descriptor}
    {data : ObjectData} (h : (s.heap.get r).define key d = some data) :
    define r key d s = .ok true { s with heap := s.heap.modify r fun _ => data } := by
  simp [define, tryObject, h]

end Eval

namespace Engine

variable {eng : Engine} {s : State} {o r : ObjectRef} {key : PropertyKey} {v : Value}

/-- Storing in a receiver is refused where that is locked. -/
theorem store_locked (h : s.heap.Locks r key) : store r key v s = .ok false s := by
  rw [store, Eval.heap_bind]
  cases h with
  | accessor own => rw [own]; rfl
  | readOnly own => rw [own]; rfl
  | closed missing closed =>
    rw [missing]
    have hnone : (s.heap.get r).define key (.plain v) = none := by
      rw [Heap.getOwn?] at missing
      simp [ObjectData.define, missing, closed]
    simp [Eval.define, Eval.tryObject, hnone]

/-- A receiver that is not locked takes the value. -/
theorem store_stores (hr : r.index < s.heap.objects.size) (h : ¬s.heap.Locks r key) :
    ∃ h', store r key v s = .ok true { s with heap := h' } ∧ s.heap.Stores r key v h' := by
  rw [store, Eval.heap_bind]
  cases hown : s.heap.getOwn? r key with
  | none =>
    have hext : (s.heap.get r).extensible = true :=
      Bool.not_eq_false _ ▸ fun hfalse => h (.closed hown hfalse)
    obtain ⟨data, hdata, hp⟩ := ObjectData.define_new (d := .plain v) hown hext
    refine ⟨_, Eval.define_of_some hdata, Heap.sameBut_modify hdata, fun _ _ _ _ hp' => ?_, fun _ => ?_⟩
    · rw [hown] at hp'; cases hp'
    · rw [Heap.getOwn?, Heap.get_modify_self hr, hp]
      rfl
  | some p =>
    cases p with
    | accessor => exact absurd (.accessor hown) h
    | data old w e c =>
      cases w with
      | false => exact absurd (.readOnly hown) h
      | true =>
        obtain ⟨data, hdata, hp⟩ := ObjectData.define_value (v := v) hown
        refine ⟨_, Eval.define_of_some hdata, Heap.sameBut_modify hdata, fun _ _ _ _ hp' => ?_,
          fun hnone => ?_⟩
        · cases hown.symm.trans hp'
          rw [Heap.getOwn?, Heap.get_modify_self hr, hp]
        · rw [hown] at hnone; cases hnone

theorem setFor_called {f : ObjectRef} (hf : (s.heap.find? o key).bind Property.setter? = some f) :
    eng.setFor o key v (.object r) s = (do let _ ← eng.call f (.object r) [v]; return true) s := by
  obtain ⟨p, hp, hf⟩ := Option.bind_eq_some_iff.mp hf
  rw [setFor, Eval.heap_bind, hp]
  unfold Property.setter? at hf
  split at hf
  · cases hf
    rfl
  · cases hf

theorem setFor_blocked {p : Property} (hp : s.heap.find? o key = some p) (hblocks : p.Blocks) :
    eng.setFor o key v (.object r) s = .ok false s := by
  rw [setFor, Eval.heap_bind, hp]
  cases hblocks with
  | readOnly => rfl
  | @noSetter get set e c hset =>
    cases set with
    | object f => exact absurd rfl (hset f)
    | primitive x => rfl

/-- Where neither a setter is found nor anything that stops the assignment, the receiver decides. -/
theorem setFor_store (hsetter : (s.heap.find? o key).bind Property.setter? = none)
    (hblocks : ∀ p, s.heap.find? o key = some p → ¬p.Blocks) :
    eng.setFor o key v (.object r) s = store r key v s := by
  rw [setFor, Eval.heap_bind]
  cases hp : s.heap.find? o key with
  | none => rfl
  | some p =>
    rw [hp] at hsetter
    cases p with
    | data old w e c =>
      cases w with
      | false => exact absurd .readOnly (hblocks _ hp)
      | true => rfl
    | accessor get set e c =>
      cases set with
      | object f => cases hsetter
      | primitive x => exact absurd (.noSetter fun f hf => by cases hf) (hblocks _ hp)

/-- Only functions can be called. -/
theorem callObject_throws {f : ObjectRef} (hf : s.heap.isCallable f = false) (this : Value)
    (args : List Value) : (eng.callObject f this args).ThrowsError .type s := by
  have hrun : eng.callObject f this args s =
      (Eval.raise (.notFunction "object") : Eval Value) s := by
    rw [callObject, Eval.heap_bind]
    unfold Heap.isCallable at hf
    cases hkind : (s.heap.get f).kind <;> first | rfl | simp [hkind, ObjectKind.isCallable] at hf
  rw [Eval.ThrowsError, hrun]
  exact Eval.throwsError_raise (.notFunction "object") s

/-- What an assignment does, by what is found on the chain of an object and by the receiver. -/
structure Assigns (eng : Engine) (o r : ObjectRef) (key : PropertyKey) (v : Value) (s : State)
    (found : Option Property) : Prop where
  called : ∀ f, found.bind Property.setter? = some f →
    eng.setFor o key v (.object r) s = (do let _ ← eng.call f (.object r) [v]; return true) s
  refused : found.bind Property.setter? = none → s.heap.RefusesSet r key found →
    eng.setFor o key v (.object r) s = .ok false s
  stored : found.bind Property.setter? = none → ¬s.heap.RefusesSet r key found →
    ∃ h', eng.setFor o key v (.object r) s = .ok true { s with heap := h' } ∧
      s.heap.Stores r key v h'

theorem assigns_find? (hr : r.index < s.heap.objects.size) :
    eng.Assigns o r key v s (s.heap.find? o key) where
  called f := setFor_called
  refused hsetter hrefuses := by
    by_cases hblocks : ∃ p, s.heap.find? o key = some p ∧ p.Blocks
    · obtain ⟨p, hp, hblocks⟩ := hblocks
      exact setFor_blocked hp hblocks
    · rw [setFor_store hsetter fun p hp h => hblocks ⟨p, hp, h⟩]
      exact store_locked (hrefuses.resolve_left hblocks)
  stored hsetter hrefuses := by
    rw [setFor_store hsetter fun p hp h => hrefuses (.inl ⟨p, hp, h⟩)]
    exact store_stores hr fun hlocks => hrefuses (.inr hlocks)

/-- What an assignment to a property of an object makes of the outcome: a refusal, which has changed
nothing, is a TypeError in strict code. -/
structure Sets (eng : Engine) (o : ObjectRef) (key : PropertyKey) (v : Value) (s : State) : Prop where
  done : ∀ s', eng.setFor o key v (.object o) s = .ok true s' →
    ∀ strict, eng.set o key v strict s = .ok () s'
  refused : ∀ s', eng.setFor o key v (.object o) s = .ok false s' →
    s' = s ∧ eng.set o key v false s = .ok () s ∧ (eng.set o key v true).ThrowsError .type s
  failed : ∀ e s', eng.setFor o key v (.object o) s = .error e s' →
    ∀ strict, eng.set o key v strict s = .error e s'

theorem set_eq (strict : Bool) : eng.set o key v strict s =
    (do if !(← eng.setFor o key v (.object o)) then refuseSet strict key (.object o)) s :=
  rfl

/-- Only what is there decides that an assignment is refused. -/
theorem eq_of_refused (hr : r.index < s.heap.objects.size) {s' : State}
    (h : eng.setFor o key v (.object r) s = .ok false s') : s' = s := by
  have hassigns : eng.Assigns o r key v s (s.heap.find? o key) := assigns_find? hr
  cases hsetter : (s.heap.find? o key).bind Property.setter? with
  | some f =>
    rw [hassigns.called f hsetter] at h
    simp only [bind, EStateM.bind, pure, EStateM.pure] at h
    split at h <;> cases h
  | none =>
    by_cases hrefuses : s.heap.RefusesSet r key (s.heap.find? o key)
    · cases h.symm.trans (hassigns.refused hsetter hrefuses)
      rfl
    · obtain ⟨h', hrun, -⟩ := hassigns.stored hsetter hrefuses
      cases h.symm.trans hrun

theorem sets (ho : o.index < s.heap.objects.size) : eng.Sets o key v s where
  done s' h strict := by
    simp only [set_eq, bind, EStateM.bind, h]
    rfl
  failed e s' h strict := by
    simp only [set_eq, bind, EStateM.bind, h]
  refused s' h := by
    obtain rfl := eq_of_refused ho h
    have hset (strict : Bool) : eng.set o key v strict s' =
        refuseSet strict key (.object o) s' := by
      simp only [set_eq, bind, EStateM.bind, h]
      rfl
    refine ⟨rfl, hset false, ?_⟩
    rw [Eval.ThrowsError, hset true]
    exact Eval.throwsError_raise _ s'

theorem setFor_uncallable {f : ObjectRef}
    (hf : (s.heap.find? o key).bind Property.setter? = some f) (huncallable : s.heap.isCallable f = false)
    (n : Nat) : ((ofFuel (n + 1)).setFor o key v (.object r)).ThrowsError .type s := by
  obtain ⟨s', hcall, hs'⟩ := (ofFuel n).callObject_throws huncallable (.object r) [v]
  refine ⟨s', ?_, hs'⟩
  have hcall' : (ofFuel (n + 1)).call f (.object r) [v] s = _ := hcall
  rw [setFor_called hf]
  simp only [bind, EStateM.bind, hcall']

/-- Assigning to a property, where no object inherits from itself: what is found on the chain of `o`
decides whether a setter is called, once; else the value goes to the receiver, of which only the one
property changes, or the assignment is refused and nothing does. -/
theorem assignment (eng : Engine) (hlinked : s.heap.Linked)
    (hacyclic : ∀ p, ¬Relation.TransGen s.heap.Parent p p) (ho : o.index < s.heap.objects.size)
    (hr : r.index < s.heap.objects.size) (key : PropertyKey) (v : Value) :
    (∃ found, s.heap.Finds key (some o) found ∧ eng.Assigns o r key v s found ∧
      ∀ f, found.bind Property.setter? = some f → s.heap.isCallable f = false → ∀ n,
        ((ofFuel (n + 1)).setFor o key v (.object r)).ThrowsError .type s) ∧
    eng.Sets o key v s :=
  ⟨⟨s.heap.find? o key, Heap.finds_find? hlinked hacyclic ho key, assigns_find? hr,
    fun _ => setFor_uncallable⟩, sets ho⟩

/-- A receiver that is not the object takes the value. -/
theorem assignment_receiver :
    ∃ h', full.setFor ⟨1⟩ "k" .null (.object ⟨0⟩)
        { (default : State) with heap := ⟨#[{}, { prototype := some ⟨0⟩ }]⟩ } =
          .ok true { (default : State) with heap := h' } ∧
      h'.getOwn? ⟨0⟩ "k" = some (.data .null true true true) := by
  let h : Heap := ⟨#[{}, { prototype := some ⟨0⟩ }]⟩
  have hparent (o p : ObjectRef) (hp : h.Parent o p) : o = ⟨1⟩ ∧ p = ⟨0⟩ := by
    obtain ⟨_ | _ | n⟩ := o
    · cases hp
    · cases hp
      exact ⟨rfl, rfl⟩
    · cases hp
  have hlinked : h.Linked := fun o p hp => by
    obtain ⟨-, rfl⟩ := hparent o p hp
    exact Nat.two_pos
  have hgrounded : h.Grounded := Heap.grounded_of_lt fun o p hp => by
    obtain ⟨rfl, rfl⟩ := hparent o p hp
    exact Nat.one_pos
  obtain ⟨⟨found, hfinds, hassigns, -⟩, -⟩ :=
    assignment full (s := { (default : State) with heap := h }) (o := ⟨1⟩) (r := ⟨0⟩) hlinked
      hgrounded.acyclic Nat.one_lt_two Nat.two_pos "k" .null
  obtain rfl : found = none := by
    cases hfinds with
    | own own => cases own
    | inherited _ rest =>
      cases rest with
      | own own => cases own
      | inherited _ rest => cases rest; rfl
  have hfree : ¬h.RefusesSet ⟨0⟩ "k" none := by
    rintro (⟨p, hp, -⟩ | hlocks)
    · cases hp
    · cases hlocks with
      | accessor own => cases own
      | readOnly own => cases own
      | closed _ closed => cases closed
  obtain ⟨h', hrun, hstores⟩ := hassigns.stored rfl hfree
  exact ⟨h', hrun, hstores.new rfl⟩

/-- A setter that cannot be called is called nevertheless. -/
theorem uncallable_setter_throws :
    ¬∀ (s : State) (o r : ObjectRef) (key : PropertyKey) (v get set : Value) (e c : Bool),
      s.heap.Linked → (∀ p, ¬Relation.TransGen s.heap.Parent p p) →
      o.index < s.heap.objects.size → r.index < s.heap.objects.size →
      s.heap.Finds key (some o) (some (.accessor get set e c)) →
      (∀ f, set = .object f → s.heap.isCallable f = false) →
      full.setFor o key v (.object r) s = .ok false s := by
  intro hall
  let data : ObjectData := { properties := [("k", .accessor .undefined (.object ⟨0⟩) true true)] }
  let s : State := { (default : State) with heap := ⟨#[data]⟩ }
  have hparent (o p : ObjectRef) : ¬s.heap.Parent o p := by
    obtain ⟨_ | n⟩ := o <;> exact nofun
  have hown : s.heap.getOwn? ⟨0⟩ "k" = some (.accessor .undefined (.object ⟨0⟩) true true) := rfl
  have hgrounded : s.heap.Grounded :=
    Heap.grounded_of_lt fun o p hp => absurd hp (hparent o p)
  have hfalse := hall s ⟨0⟩ ⟨0⟩ "k" .null _ _ _ _ (fun o p hp => absurd hp (hparent o p))
    hgrounded.acyclic Nat.one_pos Nat.one_pos (.own hown) fun f hf => by cases hf; rfl
  have hfind : (s.heap.find? ⟨0⟩ "k").bind Property.setter? = some ⟨0⟩ := rfl
  obtain ⟨s', hthrows, -⟩ := setFor_uncallable (r := ⟨0⟩) (v := .null) hfind rfl 0xfffffffffffffff
  cases hfalse.symm.trans hthrows

end Engine

end Ecma
