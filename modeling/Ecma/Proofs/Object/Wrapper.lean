import Ecma.Proofs.Object.Acyclic
import Ecma.Proofs.Object.Assignment

/-! Properties of primitives, which are read and assigned without the object that stands for the
primitive. On that object the same would be found: what the primitive has itself under a key is its
own property, and the rest of its chain is that of its prototype. -/

namespace Ecma

/-! ### What a primitive has itself -/

namespace Primitive

/-- The length of a string is not one of its code units. -/
theorem arrayIndex?_length : ("length" : PropertyKey).arrayIndex? = none := by
  decide +kernel

/-- The properties that the object for a primitive has by its kind are what the primitive has
itself, and none can be written. -/
theorem exoticProperty?_wrapping (p : Primitive) (prototype : Option ObjectRef) (key : PropertyKey) :
    ObjectData.exoticProperty? { prototype, kind := .wrapping p } key =
      (p.ownValue? key).map fun v => .data (.primitive v) false (key != ("length" : PropertyKey)) false := by
  cases p with
  | string s =>
    by_cases hkey : key = ("length" : PropertyKey)
    · subst hkey
      simp [ObjectData.exoticProperty?, ObjectKind.wrapping, Units.property?, ownValue?,
        arrayIndex?_length]
    · cases hunit : key.arrayIndex?.bind s.at? <;>
        simp [ObjectData.exoticProperty?, ObjectKind.wrapping, Units.property?, ownValue?, hunit, hkey]
  | _ => rfl

end Primitive

/-- The object that stands for a primitive. -/
def ObjectData.wrapper (p : Primitive) : ObjectData :=
  { prototype := some (Intrinsic.wrapperPrototype p), kind := .wrapping p }

theorem ObjectData.getOwn?_wrapper (p : Primitive) (key : PropertyKey) :
    (wrapper p).getOwn? key =
      (p.ownValue? key).map fun v => .data (.primitive v) false (key != ("length" : PropertyKey)) false := by
  simp [getOwn?, wrapper, p.exoticProperty?_wrapping]

/-! ### Searches -/

namespace Heap

variable {h : Heap} {data : ObjectData} {start : Option ObjectRef} {l : List ObjectRef}

/-- A walk among old objects stays the same when an object is added. -/
theorem Walk.push (hl : h.Walk start l) (hlinked : h.Linked)
    (hstart : ∀ o ∈ start, o.index < h.objects.size) : (h.push data).Walk start l :=
  hl.congr fun q hq => by rw [get_push_of_lt (hl.lt hlinked hstart q hq)]

theorem findSome?_push (hl : ∀ o ∈ l, o.index < h.objects.size) (key : PropertyKey) :
    l.findSome? ((h.push data).getOwn? · key) = l.findSome? (h.getOwn? · key) := by
  induction l with
  | nil => rfl
  | cons o l ih =>
    have ho : (h.push data).getOwn? o key = h.getOwn? o key := by
      rw [getOwn?, get_push_of_lt (hl o (by simp)), getOwn?]
    rw [List.findSome?_cons, List.findSome?_cons, ho, ih fun q hq => hl q (by simp [hq])]

/-- A search from an old object does not come to a new one. -/
theorem find?_push_of_lt (hlinked : h.Linked) (hgrounded : h.Grounded) {o : ObjectRef}
    (ho : o.index < h.objects.size) (key : PropertyKey) :
    (h.push data).find? o key = h.find? o key := by
  have hstart : ∀ q ∈ some o, q.index < h.objects.size := fun q hq => by cases hq; exact ho
  have hwalk := walk_chain hlinked hgrounded hstart
  have hlength : (h.chain (some o)).length ≤ (h.push data).objects.size := by
    rw [size_push]
    exact (hwalk.length_le hlinked hstart).trans (Nat.le_succ _)
  rw [find?, chain, chainFrom_eq (hwalk.push hlinked hstart) hlength,
    findSome?_push (hwalk.lt hlinked hstart), find?]

/-- A search from a new object is one of its own properties, then one from its prototype. -/
theorem find?_push_next (hlinked : h.Linked) (hgrounded : h.Grounded) {o : ObjectRef}
    (hdata : data.prototype = some o) (ho : o.index < h.objects.size) (key : PropertyKey) :
    (h.push data).find? h.next key = (data.getOwn? key <|> h.find? o key) := by
  have hstart : ∀ q ∈ some o, q.index < h.objects.size := fun q hq => by cases hq; exact ho
  have hwalk := walk_chain hlinked hgrounded hstart
  have hnext : (h.push data).Walk (some h.next) (h.next :: h.chain (some o)) := by
    refine .step ?_
    rw [get_push_next, hdata]
    exact hwalk.push hlinked hstart
  have hlength : (h.next :: h.chain (some o)).length ≤ (h.push data).objects.size := by
    rw [size_push, List.length_cons]
    exact Nat.succ_le_succ (hwalk.length_le hlinked hstart)
  rw [find?, chain, chainFrom_eq hnext hlength, List.findSome?_cons,
    findSome?_push (hwalk.lt hlinked hstart), getOwn?, get_push_next]
  cases data.getOwn? key <;> rfl

end Heap

/-! ### Reading and assigning -/

/-- A state to which the object for a primitive is added. -/
def State.withWrapper (s : State) (p : Primitive) : State :=
  { s with heap := s.heap.push (.wrapper p) }

/-- What is found for a primitive under a key: what it has itself, or a property from the prototype of
its object on. -/
def Heap.findFor? (h : Heap) (p : Primitive) (key : PropertyKey) : Option Property :=
  (ObjectData.wrapper p).getOwn? key <|> h.find? (Intrinsic.wrapperPrototype p) key

namespace Engine

variable (eng : Engine)

/-- Reads a property that was found: a getter sees `receiver` as `this`. -/
def readFound (found : Option Property) (receiver : Value) : Eval Value :=
  match found with
  | some (.data value _ _ _) => return value
  | some (.accessor (.object getter) _ _ _) => eng.call getter receiver []
  | some (.accessor _ _ _ _) => return .undefined
  | none => return .undefined

/-- Assigns to a property that was found for a primitive: only a setter, which sees the primitive as
`this`, can take the value. -/
def writeFound (found : Option Property) (p : Primitive) (key : PropertyKey) (value : Value)
    (strict : Bool) : Eval Unit :=
  match found with
  | some (.accessor _ (.object setter) _ _) => do let _ ← eng.call setter (.primitive p) [value]
  | _ => refuseSet strict key (.primitive p)

/-- Reading a property of the object for a primitive, with the primitive as the receiver. -/
def getOnWrapper (p : Primitive) (key : PropertyKey) : Eval Value := do
  let o ← toObject (.primitive p)
  eng.getFor o key (.primitive p)

/-- Assigning to a property of the object for a primitive, with the primitive as the receiver; a
refusal is an error in strict code. -/
def setOnWrapper (p : Primitive) (key : PropertyKey) (value : Value) (strict : Bool) : Eval Unit := do
  let o ← toObject (.primitive p)
  if !(← eng.setFor o key value (.primitive p)) then refuseSet strict key (.primitive p)

variable {eng} {st : State} {p : Primitive} {key : PropertyKey} {value : Value} {strict : Bool}

theorem toObject_primitive (hp : p.isNullish = false) :
    toObject (.primitive p) st = .ok st.heap.next (st.withWrapper p) := by
  simp only [toObject, hp]
  rfl

/-! ### The two ways to find a property -/

section

variable (hlinked : st.heap.Linked) (hgrounded : st.heap.Grounded)
  (hp : (Intrinsic.wrapperPrototype p).index < st.heap.objects.size)
include hlinked hgrounded hp

theorem find?_withWrapper (key : PropertyKey) :
    (st.withWrapper p).heap.find? st.heap.next key = st.heap.findFor? p key :=
  Heap.find?_push_next hlinked hgrounded rfl hp key

theorem findFor?_withWrapper (key : PropertyKey) :
    (st.withWrapper p).heap.findFor? p key = st.heap.findFor? p key := by
  rw [Heap.findFor?, State.withWrapper, Heap.find?_push_of_lt hlinked hgrounded hp, Heap.findFor?]

end

theorem getFor_eq (o : ObjectRef) (receiver : Value) :
    eng.getFor o key receiver st = eng.readFound (st.heap.find? o key) receiver st := by
  rw [getFor, Eval.heap_bind]
  rfl

/-- Assigning with a primitive as the receiver: nothing but a setter takes the value. -/
theorem setFor_primitive (o : ObjectRef) :
    (do if !(← eng.setFor o key value (.primitive p)) then refuseSet strict key (.primitive p)) st =
      eng.writeFound (st.heap.find? o key) p key value strict st := by
  simp only [setFor, bind_assoc]
  rw [Eval.heap_bind]
  cases st.heap.find? o key with
  | none => rfl
  | some q =>
    cases q with
    | data old w e c => cases w <;> rfl
    | accessor get set e c =>
      cases set with
      | primitive x => rfl
      | object f => simp [writeFound]

theorem getOfPrimitive_eq (hp : p.isNullish = false) :
    eng.getOfPrimitive p key st = eng.readFound (st.heap.findFor? p key) (.primitive p) st := by
  rw [Heap.findFor?, ObjectData.getOwn?_wrapper]
  simp only [getOfPrimitive, hp]
  cases p.ownValue? key with
  | some v => rfl
  | none => exact getFor_eq _ _

theorem getOnWrapper_eq (hp : p.isNullish = false) :
    eng.getOnWrapper p key st =
      eng.readFound ((st.withWrapper p).heap.find? st.heap.next key) (.primitive p)
        (st.withWrapper p) := by
  simp only [getOnWrapper, bind, EStateM.bind, toObject_primitive hp]
  exact getFor_eq _ _

theorem setOnWrapper_eq (hp : p.isNullish = false) :
    eng.setOnWrapper p key value strict st =
      eng.writeFound ((st.withWrapper p).heap.find? st.heap.next key) p key value strict
        (st.withWrapper p) := by
  rw [← setFor_primitive]
  simp only [setOnWrapper, bind, EStateM.bind, toObject_primitive hp]

/-- Only for a property that the primitive has itself the object for it is not made. -/
theorem setOf_primitive :
    eng.setOf (.primitive p) key value strict st =
      if (p.ownValue? key).isSome then refuseSet strict key (.primitive p) st
      else eng.setOnWrapper p key value strict st := by
  by_cases hown : (p.ownValue? key).isSome
  · simp only [setOf, setOfPrimitive, hown]
    rfl
  · simp [setOf, setOfPrimitive, hown, setOnWrapper]

/-- A property of a string is the same with and without the object that stands for it: both ways find
the same property, whose value is given, whose accessor is called with the string as `this`, or which
refuses the assignment. The states in which that is done differ by the object at most. -/
theorem string_property (eng : Engine) (hlinked : st.heap.Linked)
    (hacyclic : ∀ o, ¬Relation.TransGen st.heap.Parent o o)
    (hprototype : Intrinsic.stringPrototype.index < st.heap.objects.size) (s : Units)
    (key : PropertyKey) :
    let p : Primitive := .string s
    let found := st.heap.findFor? p key
    (eng.getOfPrimitive p key st = eng.readFound found (.primitive p) st ∧
      eng.getOnWrapper p key st = eng.readFound found (.primitive p) (st.withWrapper p) ∧
      eng.getOnWrapper p key st = eng.getOfPrimitive p key (st.withWrapper p)) ∧
    ∀ value strict,
      eng.setOf (.primitive p) key value strict st =
        eng.writeFound found p key value strict
          (if (p.ownValue? key).isSome then st else st.withWrapper p) ∧
      eng.setOnWrapper p key value strict st =
        eng.writeFound found p key value strict (st.withWrapper p) := by
  intro p found
  have hp : p.isNullish = false := rfl
  have hgrounded := Heap.grounded_of_acyclic hlinked hacyclic
  have hfind : (st.withWrapper p).heap.find? st.heap.next key = found :=
    find?_withWrapper (p := p) hlinked hgrounded hprototype key
  have hfound : (st.withWrapper p).heap.findFor? p key = found :=
    findFor?_withWrapper (p := p) hlinked hgrounded hprototype key
  have hget : eng.getOnWrapper p key st =
      eng.readFound found (.primitive p) (st.withWrapper p) := by
    rw [getOnWrapper_eq hp, hfind]
  have hset (value : Value) (strict : Bool) : eng.setOnWrapper p key value strict st =
      eng.writeFound found p key value strict (st.withWrapper p) := by
    rw [setOnWrapper_eq hp, hfind]
  refine ⟨⟨getOfPrimitive_eq hp, hget, ?_⟩, fun value strict => ⟨?_, hset value strict⟩⟩
  · rw [hget, getOfPrimitive_eq hp, hfound]
  · rw [setOf_primitive]
    cases hown : p.ownValue? key with
    | none => simpa using hset value strict
    | some v =>
      have : found = some (.data (.primitive v) false (key != ("length" : PropertyKey)) false) := by
        simp only [found, Heap.findFor?, ObjectData.getOwn?_wrapper, hown]
        rfl
      rw [this]
      rfl

/-- The length of a string, and an assignment to it in sloppy code. -/
theorem string_property_length :
    full.getOfPrimitive (.string (Units.ofString "ab")) "length" State.initial =
        .ok (.number (Number.ofInt 2)) State.initial ∧
      full.getOnWrapper (.string (Units.ofString "ab")) "length" State.initial =
        .ok (.number (Number.ofInt 2)) (State.initial.withWrapper (.string (Units.ofString "ab"))) ∧
      full.setOf (.string (Units.ofString "ab")) "length" .null false State.initial =
        .ok () State.initial := by
  have hclosed := State.closed_initial
  have hprototype : Intrinsic.stringPrototype.index < State.initial.heap.objects.size :=
    lt_of_lt_of_le (by decide) hclosed.intrinsics
  obtain ⟨⟨hget, hwrapper, -⟩, hset⟩ := string_property full hclosed.linked
    hclosed.grounded.acyclic hprototype (Units.ofString "ab") "length"
  refine ⟨hget, hwrapper, ?_⟩
  rw [(hset .null false).1]
  rfl

end Engine

end Ecma
