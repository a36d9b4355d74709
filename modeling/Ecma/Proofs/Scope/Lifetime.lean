import Ecma.Proofs.Run.Site
import Ecma.Proofs.Scope.Global

/-! The life of a scope. From the moment at which a run comes to a scope on, the scope only ages: a
binding that has a value keeps one, and a constant its own; a call gets its `this` value once; what
the scope stands in stays the same. A binding that has no value yet can be neither read nor
assigned. -/

namespace Ecma

/-! ### Moments of a run -/

namespace Activity

/-- A lookout with a memory is still waiting. The memory stands in front of the text that is
written: scripts add to the text at its end, and never read it. -/
def Waits (s : State) : Prop :=
  s.output.toList.head? = some '-'

instance : DecidablePred Waits :=
  fun _ => inferInstanceAs (Decidable (_ = _))

/-- A lookout that waits for a state with a property. From then on it leaves a call open each time
that the state is without another property. -/
def follow (P Q : State → Prop) [DecidablePred P] [DecidablePred Q] (s : State) : State :=
  if Waits s then if P s then { s with output := "+" ++ s.output } else s
  else if Q s then s else { s with callDepth := s.callDepth + 1 }

/-- Acts in the same way wherever the evaluator is entered. -/
def act (look : State → State) (_ : Entry) : Eval Unit := fun s =>
  .ok () (look s)

/-- Runs activities one after the other, however those before have ended, each with its own fuel. A
lookout acts before and after each of them, and each time that the evaluator is entered. -/
def performAll (look : State → State) : List (Activity × Nat) → State → State
  | [], s => look s
  | (a, fuel) :: rest, s =>
    performAll look rest ((a.run (Engine.watched (act look) fuel)).final (look s))

/-- In the run of activities one after the other, each moment that comes after one with a property
has another property: the lookout leaves no call open. -/
def Thereafter (activities : List (Activity × Nat)) (P Q : State → Prop) [DecidablePred P]
    [DecidablePred Q] (s : State) : Prop :=
  (performAll (follow P Q) activities { s with output := "-" ++ s.output }).callDepth = s.callDepth

instance (activities : List (Activity × Nat)) (P Q : State → Prop) [DecidablePred P]
    [DecidablePred Q] (s : State) : Decidable (Thereafter activities P Q s) :=
  inferInstanceAs (Decidable (_ = _))

/-- A variable that has got its value keeps one, but not this one. -/
example : let run := [(source "let x = 1; x; x = 2; x", 9)]
    let x (s : State) := ((s.scopes.get Intrinsic.globalScope).get "x").toOption.map Value.text
    Thereafter run (fun s => x s = some "1") (fun s => (x s).isSome) State.initial ∧
      ¬Thereafter run (fun s => x s = some "1") (fun s => x s = some "1") State.initial := by
  decide +kernel

variable [Vigil] {look : State → State}

/-- A lookout that is safe in every sound state is safe wherever the evaluator is entered. -/
theorem watches_act (hlook : ∀ s : State, s.Sound → s.Precedes (look s) ∧ (look s).Sound) :
    Engine.Watches (act look) := by
  have htame (entry : Entry) : (act look entry).Tame :=
    ⟨fun _ s _ hs => ⟨(hlook s hs).1, (hlook s hs).2, trivial⟩⟩
  exact ⟨fun _ => Eval.obeys_of_ok fun _ => ⟨_, _, rfl⟩, fun _ _ _ => htame _, fun _ _ _ => htame _,
    fun _ _ => (htame _).safe _, fun _ _ _ => (htame _).safe _⟩

/-- Such a lookout leaves no call open in any run. -/
theorem callDepth_performAll
    (hlook : ∀ s : State, s.Sound → s.Precedes (look s) ∧ (look s).Sound)
    {activities : List (Activity × Nat)} (h : ∀ a ∈ activities, a.1.Accepted) {s : State}
    (hs : s.Sound) : (performAll look activities s).callDepth = s.callDepth := by
  induction activities generalizing s with
  | nil => exact (hlook s hs).1.callDepth
  | cons first rest ih =>
    obtain ⟨a, fuel⟩ := first
    have hfirst := hlook s hs
    have := Engine.sound_watched (watches_act hlook) fuel
    have ha : a.Accepted := h (a, fuel) (by simp)
    have hrun := (safe_run ha (Engine.watched (act look) fuel)).final hfirst.2
    exact (ih (fun b hb => h b (by simp [hb])) hrun.2).trans
      (hrun.1.callDepth.trans hfirst.1.callDepth)

end Activity

/-! ### Scopes that have been seen -/

/-- Scopes that the lookout waits for, or that have aged since it saw them. -/
@[reducible]
def Scopes.vigil (before : Scopes) : Vigil where
  Holds scopes text := text.toList.head? = some '-' ∨ before.Ages scopes
  lasts more hages h := by
    rcases h with hwaits | hseen
    · refine .inl ?_
      rw [String.toList_append, List.head?_append, hwaits]
      rfl
    · exact .inr (hseen.trans hages)

namespace Activity

open Classical in
/-- The lookout marks the scopes when it sees them, and never finds that they have not aged. -/
theorem sound_follow {before : Scopes} {s : State} (hs : s.toStore.Sound)
    (h : Waits s ∨ before.Ages s.scopes) :
    let s' := follow (·.scopes = before) (before.Ages ·.scopes) s
    s.Precedes s' ∧ s'.toStore.Sound ∧ (Waits s' ∨ before.Ages s'.scopes) := by
  unfold follow
  split
  · split
    · next hseen =>
      have hfollows : s.Follows { s with output := "+" ++ s.output } := ⟨.of_eq rfl rfl, rfl, rfl, rfl⟩
      exact ⟨hfollows.still rfl (.of_eq rfl rfl (Nat.le_refl _)),
        hs.of_eq rfl rfl rfl (Nat.le_refl _), .inr (hseen ▸ .refl _)⟩
    · exact ⟨.refl _ s, hs, h⟩
  · next hseen =>
    have hages : before.Ages s.scopes := h.resolve_left hseen
    rw [if_pos hages]
    exact ⟨.refl _ s, hs, h⟩

open Classical in
theorem thereafter_ages {activities : List (Activity × Nat)} (h : ∀ a ∈ activities, a.1.Accepted)
    {s : State} (hs : s.toStore.Sound) (before : Scopes) :
    Thereafter activities (·.scopes = before) (before.Ages ·.scopes) s := by
  let _ := before.vigil
  refine callDepth_performAll (fun t ht => ?_) h ⟨?_, .inl ?_⟩
  · obtain ⟨hprecedes, hsound, hseen⟩ := sound_follow ht.toSound ht.vigil
    exact ⟨hprecedes, hsound, hseen⟩
  · exact hs.of_eq rfl rfl rfl (Nat.le_refl _)
  · simp

end Activity

/-! ### Bindings without values -/

namespace Eval

/-- The evaluation throws a new error object of a kind, and changes no scope. -/
def ThrowsError {α : Type} (x : Eval α) (kind : ErrorKind) (s : State) : Prop :=
  ∃ s', x s = .error (.thrown (.object s.heap.next)) s' ∧ s'.scopes = s.scopes ∧
    (s'.heap.get s.heap.next).kind = .error ∧
    (s'.heap.get s.heap.next).prototype = some (Intrinsic.errorPrototype kind)

variable {α : Type} {s : State} {q : ScopeRef} {name : String} {kind : BindingKind}

theorem throwsError_raise (cause : Cause) (s : State) :
    (raise cause : Eval α).ThrowsError cause.kind s := by
  let error : ObjectData :=
    { prototype := some (Intrinsic.errorPrototype cause.kind), kind := .error }
  have hget : (s.heap.push error).get s.heap.next = error := s.heap.get_push_next error
  have hfree : error.getOwn? "message" = none := rfl
  obtain ⟨data, hdefine, -⟩ :=
    ObjectData.define_new (d := .hidden (.ofText cause.message)) hfree rfl
  let after : State := { s with heap := (s.heap.push error).modify s.heap.next fun _ => data }
  have hput : put s.heap.next "message" (.hidden (.ofText cause.message))
      { s with heap := s.heap.push error } = .ok () after := by
    simp [put, define, tryObject, discard, Functor.discard, Functor.mapConst, EStateM.map, hget,
      hdefine, after]
  have hrun : (raise cause : Eval α) s = .error (.thrown (.object s.heap.next)) after := by
    have halloc : alloc error s = .ok s.heap.next { s with heap := s.heap.push error } := rfl
    simp only [raise, createError, newObject, bind, EStateM.bind, halloc, hput, pure, EStateM.pure,
      throwValue, throw, throwThe, MonadExceptOf.throw, EStateM.throw, error]
  have hsame : after.heap.get s.heap.next = data :=
    Heap.get_modify_self (by simp [Heap.next, Heap.push]) _
  refine ⟨after, hrun, rfl, ?_, ?_⟩
  · rw [hsame, ObjectData.kind_define hdefine]
  · rw [hsame, ObjectData.prototype_define hdefine]

theorem throwsError_readBinding (h : (s.scopes.get q).bindings.lookup name = some ⟨kind, none⟩) :
    (readBinding q name).ThrowsError .reference s := by
  have hget : (s.scopes.get q).get name = .error .uninitialised := by
    rw [Environment.get, h]
  have hrun : readBinding q name s = (raise (.uninitialised name) : Eval Value) s := by
    rw [readBinding, scopes_bind, hget]
    rfl
  rw [ThrowsError, hrun]
  exact throwsError_raise (.uninitialised name) s

theorem throwsError_assignBinding
    (h : (s.scopes.get q).bindings.lookup name = some ⟨kind, none⟩) (v : Value) (strict : Bool) :
    (assignBinding q name v strict).ThrowsError .reference s := by
  have hset : (s.scopes.get q).set name v strict = .error .uninitialised := by
    rw [Environment.set, h]
  have hrun : assignBinding q name v strict s = (raise (.uninitialised name) : Eval Unit) s := by
    rw [assignBinding, scopes_bind, hset]
    rfl
  rw [ThrowsError, hrun]
  exact throwsError_raise (.uninitialised name) s

end Eval

open Classical in
/-- Whatever scripts are run one after the other, and whatever is called: scopes that the run comes
to are there at every later moment and have aged since. So have those that requests of any other
kind find. A binding without a value can be neither read nor assigned: the access throws a reference
error and changes no scope. -/
theorem Activity.scopes_age (activities : List (Activity × Nat))
    (h : ∀ a ∈ activities, a.1.Accepted) {s : State} (hs : s.Reached) :
    (∀ before : Scopes,
        Thereafter activities (·.scopes = before) (before.Ages ·.scopes) s) ∧
      (∀ s', s.Proceeds s' → s.scopes.Ages s'.scopes) ∧
      ∀ (t : State) (q : ScopeRef) (name : String) (kind : BindingKind),
        (t.scopes.get q).bindings.lookup name = some ⟨kind, none⟩ → ∀ eng : Engine,
          (eng.getValue (.binding q name)).ThrowsError .reference t ∧
          ∀ v, (eng.putValue (.binding q name) v).ThrowsError .reference t := by
  refine ⟨thereafter_ages h hs.sound, fun s' hs' => ?_, fun t q name kind hlookup eng => ?_⟩
  · exact (hs'.precedes hs.sound).1.steady.ages
  · exact ⟨Eval.throwsError_readBinding hlookup, fun v =>
      Eval.throwsError_assignBinding hlookup v _⟩

open Classical in
/-- The first script leaves a variable without a value. The second one runs a closure over a
constant, and a constructor that gets `this` from its parent. -/
theorem Activity.scopes_age_classes :
    let first := "throw 0; let x"
    let second := "class A \x7b \x7d class B extends A \x7b constructor() \x7b super() \x7d \x7d" ++
      "const f = function g() \x7b return g \x7d; f(); new B()"
    let run := [(source first, 9), (source second, 30)]
    let t := (Request.script first).after 9 State.initial
    (∀ before : Scopes, Thereafter run (·.scopes = before) (before.Ages ·.scopes) State.initial) ∧
      State.initial.scopes.Ages t.scopes ∧
      (t.scopes.get Intrinsic.globalScope).bindings.lookup "x" = some ⟨.letVar, none⟩ ∧
      ((Engine.ofFuel 9).getValue (.binding Intrinsic.globalScope "x")).ThrowsError .reference t ∧
      ∀ v, ((Engine.ofFuel 9).putValue (.binding Intrinsic.globalScope "x") v).ThrowsError
        .reference t := by
  intro first second run t
  have hkind : ((t.scopes.get Intrinsic.globalScope).bindings.lookup "x").map
      (fun b => (b.kind, b.value.isNone)) = some (.letVar, true) := by
    decide +kernel
  obtain ⟨⟨kind, value⟩, hlookup, heq⟩ := Option.map_eq_some_iff.mp hkind
  obtain ⟨rfl, hnone⟩ := Prod.mk.inj heq
  obtain rfl := Option.isNone_iff_eq_none.mp hnone
  obtain ⟨hages, hproceeds, hthrows⟩ := scopes_age run (by simp [run, Accepted]) .initial
  exact ⟨hages, hproceeds t (.request .refl _ 9 trivial), hlookup,
    hthrows t _ "x" _ hlookup (.ofFuel 9)⟩

end Ecma
