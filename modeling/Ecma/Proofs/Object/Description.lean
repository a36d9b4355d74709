import Ecma.Proofs.Expression.Shorthand
import Ecma.Proofs.Object.Definition
import Ecma.Proofs.Object.Wrapper
import Ecma.Proofs.Run.Guard

/-! Descriptions as objects. The object that writes a description is read back as that description,
if no prototype of it writes another field, and if the halves of its accessor are undefined or
functions. Stored accessors are always so, whatever scripts do. -/

namespace Ecma

/-! ### The object of a description -/

namespace ObjectData

/-- An ordinary object with plain properties. -/
def ofFields (fields : List (String × Value)) : ObjectData where
  prototype := some Intrinsic.objectPrototype
  properties := fields.map fun (name, v) => ((name : PropertyKey), .data v true true true)

theorem getOwn?_ofFields (fields : List (String × Value)) (name : String) :
    (ofFields fields).getOwn? name = (fields.lookup name).map (.data · true true true) := by
  change (ofFields fields).properties.lookup (name : PropertyKey) = _
  rw [ofFields]
  induction fields with
  | nil => rfl
  | cons field fields ih =>
    obtain ⟨n, v⟩ := field
    by_cases h : name = n
    · subst h
      simp
    · have hkey : ((name : PropertyKey) == n) = false := beq_false_of_ne fun hkey => h (key_inj.mp hkey)
      have hname : (name == n) = false := beq_false_of_ne h
      simp [List.lookup, hkey, hname, ih]

/-- A field with a new name comes last. -/
theorem define_ofFields {fields : List (String × Value)} {name : String}
    (hname : name ∉ fields.map Prod.fst) (v : Value) :
    (ofFields fields).define name (.plain v) = some (ofFields (fields ++ [(name, v)])) := by
  have hnone : fields.lookup name = none := by
    rw [List.lookup_eq_none_iff]
    intro field hfield
    exact bne_iff_ne.mpr fun h => hname (List.mem_map.mpr ⟨field, hfield, h.symm⟩)
  simp only [define, getOwn?_ofFields, hnone, Option.map_none]
  rw [if_pos (by rfl)]
  simp [ofFields, Descriptor.plain]
  rfl

end ObjectData

namespace Descriptor

/-- The names of all fields. -/
def fieldNames : List String :=
  ["value", "writable", "get", "set", "enumerable", "configurable"]

/-- All fields, with the values of those that are present. -/
def parts (d : Descriptor) : List (String × Option Value) :=
  [("value", d.value), ("writable", d.writable.map .boolean), ("get", d.get), ("set", d.set),
    ("enumerable", d.enumerable.map .boolean), ("configurable", d.configurable.map .boolean)]

theorem map_fst_parts (d : Descriptor) : d.parts.map Prod.fst = fieldNames :=
  rfl

theorem nodup_fieldNames : fieldNames.Nodup := by
  decide

/-- The fields that are present. -/
def present (parts : List (String × Option Value)) : List (String × Value) :=
  parts.filterMap fun (name, v) => v.map (name, ·)

theorem map_fst_present_sublist (parts : List (String × Option Value)) :
    ((present parts).map Prod.fst).Sublist (parts.map Prod.fst) := by
  induction parts with
  | nil => exact .slnil
  | cons part parts ih =>
    obtain ⟨name, v⟩ := part
    cases v with
    | none => exact ih.cons name
    | some v => exact ih.cons_cons name

theorem nodup_fields (d : Descriptor) : (d.fields.map Prod.fst).Nodup :=
  (map_fst_present_sublist d.parts).nodup nodup_fieldNames

theorem lookup_present (parts : List (String × Option Value)) (hnodup : (parts.map Prod.fst).Nodup)
    {name : String} {v : Option Value} (h : (name, v) ∈ parts) :
    (present parts).lookup name = v := by
  induction parts with
  | nil => cases h
  | cons part parts ih =>
    obtain ⟨n, u⟩ := part
    obtain ⟨hn, hrest⟩ := List.nodup_cons.mp hnodup
    rcases List.mem_cons.mp h with heq | hmem
    · cases heq
      cases v with
      | some v => simp [present]
      | none =>
        refine List.lookup_eq_none_iff.mpr fun field hfield => bne_iff_ne.mpr ?_
        rintro rfl
        exact hn ((map_fst_present_sublist parts).subset (List.mem_map_of_mem hfield))
    · have hne : (name == n) = false :=
        beq_false_of_ne fun heq => hn (List.mem_map.mpr ⟨_, hmem, heq⟩)
      cases u with
      | none => exact ih hrest hmem
      | some u =>
        change List.lookup name ((n, u) :: present parts) = v
        rw [List.lookup_cons, hne]
        exact ih hrest hmem

/-- The field of a name has the value of the part. -/
theorem lookup_fields (d : Descriptor) {name : String} {v : Option Value} (h : (name, v) ∈ d.parts) :
    d.fields.lookup name = v :=
  lookup_present d.parts nodup_fieldNames h

end Descriptor

/-! ### Writing and reading -/

namespace Engine

variable {s : State} {name : String} {d : Descriptor}

theorem put_fields (done fields : List (String × Value))
    (hnodup : ((done ++ fields).map Prod.fst).Nodup) :
    (fields.forM fun (name, value) => Eval.put s.heap.next name (.plain value) : Eval Unit)
        (withObject s (.ofFields done)) =
      .ok () (withObject s (.ofFields (done ++ fields))) := by
  induction fields generalizing done with
  | nil =>
    rw [List.append_nil]
    rfl
  | cons field fields ih =>
    obtain ⟨name, v⟩ := field
    have hname : name ∉ done.map Prod.fst := by
      simp only [List.map_append, List.map_cons, List.nodup_append] at hnodup
      exact fun h => hnodup.2.2 name h name (by simp) rfl
    have hput : Eval.put s.heap.next name (.plain v) (withObject s (.ofFields done)) =
        .ok () (withObject s (.ofFields (done ++ [(name, v)]))) :=
      Eval.put_push (ObjectData.define_ofFields hname v)
    have hrest := ih (done ++ [(name, v)]) (by simpa using hnodup)
    rw [List.append_assoc] at hrest
    change EStateM.bind _ _ _ = _
    simp only [EStateM.bind, hput]
    exact hrest

/-- The object that writes a description has a field for each part. -/
theorem descriptorObject_apply (d : Descriptor) (s : State) :
    Eval.descriptorObject (some d) s =
      .ok (.object s.heap.next) (withObject s (.ofFields d.fields)) := by
  have hnew : Eval.newOrdinary s = .ok s.heap.next (withObject s (.ofFields [])) := rfl
  have hput := put_fields (s := s) [] d.fields d.nodup_fields
  rw [List.nil_append] at hput
  simp only [Eval.descriptorObject, bind, EStateM.bind, hnew, hput, pure, EStateM.pure]

section

variable (hlinked : s.heap.Linked) (hgrounded : s.heap.Grounded)
  (hproto : Intrinsic.objectPrototype.index < s.heap.objects.size)
  (hname : s.heap.find? Intrinsic.objectPrototype name = none)
include hlinked hgrounded hproto hname

theorem find?_ofFields (fields : List (String × Value)) :
    (withObject s (.ofFields fields)).heap.find? s.heap.next name =
      (fields.lookup name).map (.data · true true true) := by
  have hdata : (ObjectData.ofFields fields).prototype = some Intrinsic.objectPrototype := rfl
  have hfind := Heap.find?_push_next hlinked hgrounded hdata hproto name
  rw [hname, ObjectData.getOwn?_ofFields] at hfind
  exact hfind.trans (by simp)

theorem getIfPresent_ofFields (eng : Engine) (fields : List (String × Value)) :
    eng.getIfPresent s.heap.next name (withObject s (.ofFields fields)) =
      .ok (fields.lookup name) (withObject s (.ofFields fields)) := by
  have hfind := find?_ofFields hlinked hgrounded hproto hname fields
  rw [getIfPresent, Eval.heap_bind, Heap.has, hfind]
  cases hlookup : fields.lookup name with
  | none => rfl
  | some v =>
    have hget : eng.get s.heap.next name (withObject s (.ofFields fields)) =
        .ok v (withObject s (.ofFields fields)) := by
      rw [get, getFor_eq, hfind, hlookup]
      rfl
    simp only [Option.map_some, Option.isSome_some, if_true, bind, EStateM.bind, hget, pure,
      EStateM.pure]

theorem accessorField_ofFields (eng : Engine) (fields : List (String × Value)) (half : String)
    (hhalf : ∀ v ∈ fields.lookup name, v.IsHalf (s.heap.isCallable · = true)) :
    eng.accessorField s.heap.next name half (withObject s (.ofFields fields)) =
      .ok (fields.lookup name) (withObject s (.ofFields fields)) := by
  have hread := getIfPresent_ofFields hlinked hgrounded hproto hname eng fields
  simp only [accessorField, bind, EStateM.bind, hread]
  cases hlookup : fields.lookup name with
  | none => rfl
  | some v =>
    obtain rfl | ⟨f, rfl, hf⟩ := hhalf v hlookup
    · rfl
    · have hcallable : (withObject s (.ofFields fields)).heap.isCallable f = true :=
        s.heap.keepsCallable_push _ f hf
      change EStateM.bind (Eval.heap (·.isCallable f)) _ _ = _
      simp only [EStateM.bind, Eval.heap, hcallable, if_true]
      rfl

end

/-- Reading the object that writes a description gives that description, and runs no code: the
functions that `eng` calls do not matter. -/
theorem toDescriptor_ofFields (eng : Engine) [hd : d.Coherent] (hhalves : d.Usable (s.heap.isCallable · = true))
    (hlinked : s.heap.Linked) (hgrounded : s.heap.Grounded)
    (hproto : Intrinsic.objectPrototype.index < s.heap.objects.size)
    (hnames : ∀ name ∈ Descriptor.fieldNames, s.heap.find? Intrinsic.objectPrototype name = none) :
    eng.toDescriptor (.object s.heap.next) (withObject s (.ofFields d.fields)) =
      .ok d (withObject s (.ofFields d.fields)) := by
  have hname {name : String} {v : Option Value} (h : (name, v) ∈ d.parts) :
      s.heap.find? Intrinsic.objectPrototype name = none :=
    hnames name (d.map_fst_parts ▸ List.mem_map_of_mem h)
  have hread (name : String) (v : Option Value) (h : (name, v) ∈ d.parts) :
      eng.getIfPresent s.heap.next name (withObject s (.ofFields d.fields)) =
        .ok v (withObject s (.ofFields d.fields)) :=
    d.lookup_fields h ▸ getIfPresent_ofFields hlinked hgrounded hproto (hname h) eng d.fields
  have hhalf (name half : String) (v : Option Value) (h : (name, v) ∈ d.parts)
      (hv : ∀ u ∈ v, u.IsHalf (s.heap.isCallable · = true)) :
      eng.accessorField s.heap.next name half (withObject s (.ofFields d.fields)) =
        .ok v (withObject s (.ofFields d.fields)) := by
    obtain rfl := d.lookup_fields h
    exact accessorField_ofFields hlinked hgrounded hproto (hname h) eng d.fields half hv
  have henumerable := hread "enumerable" (d.enumerable.map .boolean) (by simp [Descriptor.parts])
  have hconfigurable :=
    hread "configurable" (d.configurable.map .boolean) (by simp [Descriptor.parts])
  have hvalue := hread "value" d.value (by simp [Descriptor.parts])
  have hwritable := hread "writable" (d.writable.map .boolean) (by simp [Descriptor.parts])
  have hget := hhalf "get" "Getter" d.get (by simp [Descriptor.parts]) hhalves.get
  have hset := hhalf "set" "Setter" d.set (by simp [Descriptor.parts]) hhalves.set
  have htruthy (flag : Option Bool) : (flag.map Value.boolean).map Value.isTruthy = flag := by
    cases flag <;> rfl
  have hmixed : (d.isAccessor && d.isData) = false := by
    cases hdata : d.isData with
    | false => simp
    | true => simp [hd.exclusive hdata]
  simp only [toDescriptor, bind, EStateM.bind, henumerable, hconfigurable, hvalue, hwritable, hget,
    hset, htruthy]
  rw [if_neg (by simp [hmixed])]
  rfl

end Engine

namespace Descriptor

instance (p : Property) : (ofProperty p).Coherent := by
  cases p <;> (unfold ofProperty; infer_instance)

theorem usable_ofProperty {calls : ObjectRef → Prop} {p : Property} (hp : p.Usable calls) :
    (ofProperty p).Usable calls := by
  cases p with
  | data v w e c => exact IsPlain.usable (d := .data v w e c)
  | accessor get set e c =>
    exact ⟨fun v hv => by cases hv; exact hp.1, fun v hv => by cases hv; exact hp.2⟩

end Descriptor

/-- The two halves of an accessor. -/
def Property.halves : Property → List Value
  | .data .. => []
  | .accessor get set _ _ => [get, set]

/-! ### States of runs -/

namespace Activity

/-- A lookout that ends the run when it comes to a state with a property. -/
def stop (p : State → Prop) [DecidablePred p] (_ : Entry) : Eval Unit := fun s =>
  if p s then .error .exhausted s else .ok () s

end Activity

/-- A state that a run of scripts comes to. A run may be ended wherever it comes to an expression, a
statement or a call; its objects are then as they were at that moment. -/
inductive State.Visited : State → Prop
  | initial : Visited initial
  | run {s : State} (h : Visited s) (a : Activity) (ha : Within s.heap.objects.size a)
    (p : State → Prop) [DecidablePred p] (fuel : Nat) :
    Visited ((a.run (Engine.watched (Activity.stop p) fuel)).final s)

namespace State

variable {s : State}

/-- A run that is not ended is one of the evaluator. -/
theorem Visited.complete (hs : s.Visited) (a : Activity) (ha : Within s.heap.objects.size a)
    (fuel : Nat) : ((a.run (Engine.ofFuel fuel)).final s).Visited := by
  have hidle : Activity.stop (fun _ => False) = fun _ => pure () := rfl
  have hrun := hs.run a ha (fun _ => False) fuel
  rwa [hidle, Engine.watched_idle] at hrun

theorem Visited.closed (hs : s.Visited) : s.callDepth = 0 ∧ s.toStore.Closed := by
  induction hs with
  | initial => exact ⟨rfl, closed_initial⟩
  | @run s _ a ha p _ fuel ih =>
    have hstop (entry : Entry) (n : Nat) : (Activity.stop p entry).Keeps .tracking n := by
      refine ⟨fun t ht => ?_⟩
      unfold Activity.stop
      split
      · have hknown : Known Regime.tracking.tracked t.heap.objects.size Abrupt.exhausted :=
          inferInstance
        exact ⟨.refl t, fun htracked =>
          ⟨(ht.obeys htracked).kept rfl rfl, hknown.within htracked⟩⟩
      · exact ⟨.refl t, fun htracked => ⟨(ht.obeys htracked).kept rfl rfl, .of_unlinked⟩⟩
    have := Engine.keeps_watched hstop fuel
    have : Known Regime.tracking.tracked s.heap.objects.size a := ⟨fun _ => ha.full⟩
    have hstarts : Eval.Starts .tracking s.heap.objects.size s :=
      ⟨Nat.le_refl _, ih.1.trans_le (Nat.zero_le _), fun _ => ih.2.obeys⟩
    obtain ⟨hframe, hkept⟩ :=
      (a.keeps_run (Engine.watched (Activity.stop p) fuel)).final hstarts
    exact ⟨hframe.callDepth.trans ih.1, (hkept trivial).obeys.toClosed⟩

end State

namespace Heap

/-- What `Usable` says, as a test. -/
def isUsable (h : Heap) : Bool :=
  h.isCallable Intrinsic.throwTypeError &&
    h.objects.all fun data => data.properties.all fun (_, p) =>
      p.halves.all fun v => v.isUndefined || v.object?.any h.isCallable

theorem usable_of_isUsable {h : Heap} (hh : h.isUsable = true) : h.Usable := by
  simp only [isUsable, Bool.and_eq_true, Array.all_eq_true_iff_forall_mem, List.all_eq_true,
    Bool.or_eq_true] at hh
  have hhalf {p : Property} (hp : ∀ v ∈ p.halves, v.isUndefined = true ∨
      v.object?.any h.isCallable = true) : p.Usable (h.isCallable · = true) := by
    have hvalue (v : Value) (hv : v ∈ p.halves) : v.IsHalf (h.isCallable · = true) := by
      rcases hp v hv with hundefined | hcallable
      · refine .inl ?_
        unfold Value.isUndefined at hundefined
        split at hundefined
        · rfl
        · cases hundefined
      · obtain ⟨f, hf, hcall⟩ := (Option.any_eq_true _ _).mp hcallable
        cases v with
        | primitive => cases hf
        | object o => cases hf; exact .inr ⟨f, rfl, hcall⟩
    cases p with
    | data => trivial
    | accessor get set e c => exact ⟨hvalue get (by simp [Property.halves]), hvalue set (by simp [Property.halves])⟩
  refine ⟨fun o entry hentry => hhalf fun v hv => ?_, hh.1⟩
  by_cases ho : o.index < h.objects.size
  · have hget : h.get o = h.objects[o.index] := by
      simp [get, Array.getD_eq_getD_getElem?, ho]
    exact hh.2 (h.get o) (hget ▸ Array.getElem_mem ho) entry hentry v hv
  · rw [get_of_not_lt ho] at hentry
    cases hentry

end Heap

theorem Realm.isUsable_heap : Realm.heap.isUsable = true := by
  decide +kernel

namespace Eval

theorem Guarded.final {α : Type} {x : Eval α} {s : State} {Q : α → Heap → Prop}
    (hx : Guarded s.heap x Q) (hs : s.heap.Usable) : (x.final s).heap.Usable := by
  have hpost := hx s (.refl _) hs
  unfold Eval.final
  cases heq : x s with
  | ok a s' =>
    rw [heq] at hpost
    exact hpost.2.1
  | error e s' =>
    rw [heq] at hpost
    exact hpost.2

end Eval

instance (a : Activity) (eng : Engine) [eng.Abides .guarding] : (a.run eng).Obeys .guarding := by
  cases a <;> (unfold Activity.run; infer_instance)

namespace State

variable {s : State}

theorem usable_initial : State.initial.heap.Usable := by
  have hheap : State.initial.heap = Realm.heap := by simp only [initial]
  exact hheap ▸ Heap.usable_of_isUsable Realm.isUsable_heap

/-- No script stores an accessor that cannot be called. -/
theorem Visited.usable (hs : s.Visited) : s.heap.Usable := by
  induction hs with
  | initial => exact usable_initial
  | @run s _ a _ p _ fuel ih =>
    have hstop (entry : Entry) : (Activity.stop p entry).Obeys .guarding := by
      refine ⟨fun h t _ ht => ?_⟩
      unfold Activity.stop
      split
      · exact ⟨.refl _, ht⟩
      · exact ⟨.refl _, ht, trivial⟩
    have := Engine.abides_watched hstop fuel
    exact (Eval.guarded (x := a.run _)).final ih

/-- In every state that a run of scripts comes to, the halves of every accessor are undefined or
functions. The object that writes an own property of an object, as long as neither the general
prototype nor one behind it has a property named like a field, is read back as the description of
just that property: the only change to the state is the object itself, whatever is called. Where
there is no property under the key, an extensible object accepts that description, and then has the
same property. -/
theorem descriptions_round_trip (hs : s.Visited) {o : ObjectRef} {key : PropertyKey} {p : Property}
    (hp : s.heap.getOwn? o key = some p) :
    p.Usable (s.heap.isCallable · = true) ∧
    ((∀ name ∈ Descriptor.fieldNames, s.heap.has Intrinsic.objectPrototype name = false) →
      ∃ data, ∀ eng : Engine,
        (do eng.toDescriptor (← Eval.descriptorObject (some (.ofProperty p)))) s =
          .ok (.ofProperty p) { s with heap := s.heap.push data }) ∧
    ∀ (t : State) (fresh : ObjectRef), fresh.index < t.heap.objects.size →
      (t.heap.get fresh).extensible = true → t.heap.getOwn? fresh key = none →
      ∃ t', Eval.define fresh key (.ofProperty p) t = .ok true t' ∧
        t'.heap.getOwn? fresh key = some p := by
  have hclosed := hs.closed.2
  have husable : p.Usable (s.heap.isCallable · = true) := (hs.usable.accessors o).getOwn? hp
  refine ⟨husable, fun hnames => ⟨.ofFields (Descriptor.ofProperty p).fields, fun eng => ?_⟩,
    fun t fresh hlt hext hnone => ?_⟩
  · have hread := Engine.toDescriptor_ofFields eng (d := .ofProperty p)
      (Descriptor.usable_ofProperty husable) hclosed.linked hclosed.grounded
      (Nat.lt_of_le_of_lt (by decide) hclosed.intrinsics)
      fun name hname => Option.not_isSome_iff_eq_none.mp (Bool.eq_false_iff.mp (hnames name hname))
    simp only [bind, EStateM.bind, Engine.descriptorObject_apply, hread]
    rfl
  · obtain ⟨data, hdefine, hown⟩ :=
      ObjectData.define_new (d := .ofProperty p) (o := t.heap.get fresh) hnone hext
    refine ⟨{ t with heap := t.heap.modify fresh fun _ => data }, ?_, ?_⟩
    · simp [Eval.define, Eval.tryObject, hdefine]
    · rw [Heap.getOwn?, Heap.get_modify_self hlt, hown, Descriptor.complete_ofProperty]

/-- An accessor that a script has defined. -/
theorem descriptions_round_trip_getter :
    let run := Activity.source "Object.defineProperty(globalThis, 'x', { get: function f() {} })"
    let s := (run.run (Engine.ofFuel 20)).final State.initial
    ∃ p, s.heap.getOwn? Intrinsic.globalObject "x" = some p ∧ p.isAccessor = true ∧
      p.Usable (s.heap.isCallable · = true) ∧
      (∀ name ∈ Descriptor.fieldNames, s.heap.has Intrinsic.objectPrototype name = false) ∧
      ∃ data, ∀ eng : Engine,
        (do eng.toDescriptor (← Eval.descriptorObject (some (.ofProperty p)))) s =
          .ok (.ofProperty p) { s with heap := s.heap.push data } := by
  intro run s
  obtain ⟨hfound, hnames⟩ :
      (s.heap.getOwn? Intrinsic.globalObject "x").any Property.isAccessor = true ∧
        ∀ name ∈ Descriptor.fieldNames,
          s.heap.has Intrinsic.objectPrototype name = false := by
    decide +kernel
  obtain ⟨p, hp, haccessor⟩ := (Option.any_eq_true _ _).mp hfound
  have hs : s.Visited := Visited.initial.complete run (by intro _ h; exact h.elim) 20
  obtain ⟨husable, hround, -⟩ := descriptions_round_trip hs hp
  exact ⟨p, hp, haccessor, husable, hnames, hround hnames⟩

end State

end Ecma
