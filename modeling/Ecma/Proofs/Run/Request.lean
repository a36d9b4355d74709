import Ecma.Proofs.Run.Call
import Ecma.Proofs.Run.Initial
import Ecma.Session

/-! Everything that can be asked of the interpreter from outside: scripts, lines of a session,
calls, and operations on objects. Every state that requests lead to is sound. An accepted script is
never left by a jump, nor is the body of a function that it calls, and no step meets a tree that it
has no meaning for. -/

namespace Ecma

namespace Eval

variable {α : Type} {x : Eval α} {s : State}

/-- The state that an evaluation leaves, however it ends. -/
def final (x : Eval α) (s : State) : State :=
  match x s with
  | .ok _ s' => s'
  | .error _ s' => s'

theorem SafeBut.final [Vigil] {but : Set (ScopeRef × String)} {Q : α → State → Prop}
    (h : x.SafeBut but s Q) (hs : s.Sound) :
    s.PrecedesBut but (x.final s) ∧ (x.final s).Sound := by
  have hx := h s (.refl _ s) hs
  unfold Eval.final
  cases heq : x s with
  | ok a s' =>
    rw [heq] at hx
    exact ⟨hx.1, hx.2.1⟩
  | error e s' =>
    rw [heq] at hx
    exact hx

/-- Where nothing is watched for, a sound store is all that is needed. -/
theorem SafeBut.idle {but : Set (ScopeRef × String)} {Q : α → State → Prop}
    (h : x.SafeBut but s Q) (hs : s.toStore.Sound) :
    s.PrecedesBut Set.univ (x.final s) ∧ (x.final s).toStore.Sound := by
  obtain ⟨hprecedes, hsound⟩ := h.final ⟨hs, trivial⟩
  exact ⟨hprecedes.mono (Set.subset_univ but), hsound.toSound⟩

theorem Tame.final [hx : x.Tame] (hs : s.toStore.Sound) :
    s.PrecedesBut Set.univ (x.final s) ∧ (x.final s).toStore.Sound :=
  (hx.safe s).idle hs

end Eval

/-- A request to the interpreter. An object that is made from outside is no script function: those
come from scripts. -/
inductive Request where
  | script (source : String)
  | line (mode : Mode) (input : String)
  | call (f : ObjectRef) (this : Value) (args : List Value)
  | construct (f : ObjectRef) (args : List Value) (target : ObjectRef)
  | create (prototype : Option ObjectRef) (kind : ObjectKind) (plain : ∀ f, kind ≠ .function f)
  | get (o : ObjectRef) (key : PropertyKey) (receiver : Value)
  | set (o : ObjectRef) (key : PropertyKey) (value receiver : Value)
  | define (o : ObjectRef) (key : PropertyKey) (d : Descriptor)
  | delete (o : ObjectRef) (key : PropertyKey)
  | setPrototype (o : ObjectRef) (prototype : Option ObjectRef)
  | preventExtensions (o : ObjectRef)

namespace Request

/-- The state after a request. Fuel bounds the code that it may run; a session has enough. -/
def after (q : Request) (fuel : Nat) (s : State) : State :=
  match q with
  | .script source => ((Engine.ofFuel fuel).runSource source).final s
  | .line mode input => (Session.feed mode input s).2
  | .call f this args => ((Engine.ofFuel fuel).call f this args).final s
  | .construct f args target => ((Engine.ofFuel fuel).construct f args target).final s
  | .create prototype kind _ => (Eval.newObject prototype kind).final s
  | .get o key receiver => ((Engine.ofFuel fuel).getFor o key receiver).final s
  | .set o key value receiver => ((Engine.ofFuel fuel).setFor o key value receiver).final s
  | .define o key d => (Eval.define o key d).final s
  | .delete o key => (Eval.delete o key).final s
  | .setPrototype o prototype => (Eval.setPrototype o prototype).final s
  | .preventExtensions o => (Eval.preventExtensions o).final s

/-- A request that describes no property as both a value and an accessor. -/
def Coherent : Request → Prop
  | .define _ _ d => d.Coherent
  | _ => True

end Request

namespace State

/-- A state that requests lead to, in any order and number. -/
inductive Reached : State → Prop
  | initial : Reached initial
  | request {s : State} (h : Reached s) (q : Request) (fuel : Nat) : Reached (q.after fuel s)

/-- A state that coherent requests lead to from another one. -/
inductive Proceeds (s : State) : State → Prop
  | refl : Proceeds s s
  | request {s' : State} (h : Proceeds s s') (q : Request) (fuel : Nat) (hq : q.Coherent) :
    Proceeds s (q.after fuel s')

end State

/-! ### Sessions -/

namespace Session

open Eval (Tame)

instance : Engine.full.Sound :=
  Engine.sound_ofFuel _

theorem safe_evaluation {p : Program} {s : State} (hp : p.Legal) :
    (evaluation p).SafeBut Set.univ s fun _ _ => True := by
  refine .seq (.attempt (Engine.safe_runScript Engine.full hp)) (fun ending s' _ _ => ?_)
    Set.Subset.rfl (Set.empty_subset _)
  cases ending <;> exact Tame.safe s'

theorem snd_reportProgram (p : Program) (s : State) :
    (reportProgram p s).2 = (evaluation p).final { s with output := "" } := by
  unfold reportProgram Eval.final
  split <;> next heq => rw [heq]

/-- A line leaves the state, or runs a script that is legal. -/
theorem precedes_feed {s : State} (hs : s.toStore.Sound) (mode : Mode) (input : String) :
    s.PrecedesBut Set.univ (feed mode input s).2 ∧ (feed mode input s).2.toStore.Sound := by
  have hsame : s.PrecedesBut Set.univ s ∧ s.toStore.Sound := ⟨.refl _ s, hs⟩
  unfold feed
  dsimp only
  split
  · exact hsame
  · cases mode with
    | tokens => exact hsame
    | tree => exact hsame
    | evaluate =>
      unfold execute
      dsimp only
      split
      · next p hparse =>
        have hclear : s.Follows { s with output := "" } := ⟨.of_eq rfl rfl, rfl, rfl, rfl⟩
        rw [snd_reportProgram]
        obtain ⟨hprecedes, hsound⟩ :=
          (safe_evaluation (s := { s with output := "" }) (Program.legal_of_parse hparse)).idle
            (hs.of_eq rfl rfl rfl (Nat.le_refl _))
        exact ⟨(hclear.still rfl (.of_eq rfl rfl (Nat.le_refl _))).trans hprecedes,
          hsound⟩
      · exact hsame

end Session

/-! ### Soundness -/

namespace Request

variable {s : State}

/-- What one coherent request does. -/
theorem precedes_after (hs : s.toStore.Sound) (q : Request) (fuel : Nat) (hq : q.Coherent) :
    s.PrecedesBut Set.univ (q.after fuel s) ∧ (q.after fuel s).toStore.Sound := by
  cases q with
  | script source => exact (Engine.safe_runSource (.ofFuel fuel) source).idle hs
  | line mode input =>
    simp only [after]
    exact Session.precedes_feed hs mode input
  | call f this args => exact Eval.Tame.final hs
  | construct f args target => exact Eval.Tame.final hs
  | create prototype kind plain =>
    have : (Eval.newObject prototype kind).Tame := .newObject plain
    exact Eval.Tame.final (x := Eval.newObject prototype kind) hs
  | get o key receiver => exact Eval.Tame.final hs
  | set o key value receiver => exact Eval.Tame.final hs
  | define o key d =>
    have : d.Coherent := hq
    exact Eval.Tame.final hs
  | delete o key => exact Eval.Tame.final hs
  | setPrototype o prototype => exact Eval.Tame.final hs
  | preventExtensions o => exact Eval.Tame.final (x := Eval.preventExtensions o) hs

/-- No description makes a store unsound. -/
theorem sound_define (hs : s.toStore.Sound) (o : ObjectRef) (key : PropertyKey) (d : Descriptor) :
    ((Eval.define o key d).final s).toStore.Sound := by
  unfold Eval.final Eval.define Eval.tryObject
  dsimp only
  cases hdefine : (s.heap.get o).define key d with
  | some data => exact hs.modifyObject (ObjectData.stays_define hdefine)
  | none => exact hs

theorem sound_after (hs : s.toStore.Sound) (q : Request) (fuel : Nat) :
    (q.after fuel s).toStore.Sound := by
  by_cases hq : q.Coherent
  · exact (precedes_after hs q fuel hq).2
  · cases q with
    | define o key d => exact sound_define hs o key d
    | _ => exact absurd trivial hq

end Request

namespace State

variable {s s' : State}

theorem Reached.sound (h : s.Reached) : s.toStore.Sound := by
  induction h with
  | initial => exact sound_initial
  | request _ q fuel ih => exact q.sound_after ih fuel

theorem Proceeds.precedes (h : s.Proceeds s') (hs : s.toStore.Sound) :
    s.PrecedesBut Set.univ s' ∧ s'.toStore.Sound := by
  induction h with
  | refl => exact ⟨.refl _ s, hs⟩
  | request _ q fuel hq ih =>
    obtain ⟨hprecedes, hsound⟩ := q.precedes_after ih.2 fuel hq
    exact ⟨ih.1.trans hprecedes, hsound⟩

theorem Proceeds.follows (h : s.Proceeds s') (hs : s.toStore.Sound) :
    s.Follows s' ∧ s'.toStore.Sound :=
  ⟨(h.precedes hs).1.follows, (h.precedes hs).2⟩

end State

/-! ### Scripts that are accepted -/

namespace Engine

theorem ends_runBody {eng : Engine} (heng : eng.Jumps) {d : FunctionDef} {l : Place}
    {superProperty superCall : Bool} (hd : l.Has (.function d superProperty superCall))
    (callee : ObjectRef) (scope : ScopeRef) (args : List Value) :
    (eng.runBody callee d scope args).Ends fun c => c.isJump = false := by
  obtain ⟨-, hbody⟩ := hd.legal
  refine .inContext (.after fun inner => .bind (ends_runList heng inner none hbody) fun c hc => ?_)
  have hjump := hc.not_isJump
  dsimp only
  rw [hjump, if_neg Bool.false_ne_true]
  exact .pure hjump

/-- Whatever the state, an accepted script that ends has ended normally or by an exception, and so
has every expression, call and construction: none of them ends by a `return`, `break` or `continue`.
In a state that requests lead to, the bodies of functions end so, or by a `return`: each function
that is there, and each that the script calls or constructs by. -/
theorem script_ends_normally {source : String} {p : Program}
    (hparse : Program.parse source = .ok p) (fuel : Nat) (s : State) :
    (∀ c s', (ofFuel fuel).runProgram p s = .ok c s' → ∃ v, c = .normal v) ∧
      (∀ c s', (ofFuel fuel).runProgram p s ≠ .error (.escaped c) s') ∧
      (∀ e scope c s', (ofFuel fuel).expr e scope s ≠ .error (.escaped c) s') ∧
      (∀ f this args c s', (ofFuel fuel).call f this args s ≠ .error (.escaped c) s') ∧
      (∀ f args target c s', (ofFuel fuel).construct f args target s ≠ .error (.escaped c) s') ∧
      (s.Reached →
        (∀ o f d, s.heap.scriptFunction? o = some f → f.code = .script d →
          ∀ scope args s₁ c s₂, (ofFuel fuel).runBody o d scope args s₁ = .ok c s₂ →
            c.isJump = false) ∧
        ∀ ending,
          Incident.strayJump ending ∉ (((ofFuel fuel).runProgram p).final s).incidents) := by
  have hp := Program.legal_of_parse hparse
  refine ⟨fun c s' => ends_runProgram hp fuel s c s', (Eval.Obeys.settled inferInstance).ne_escaped s,
    fun _ _ => (Eval.Obeys.settled inferInstance).ne_escaped s,
    fun _ _ _ => (Eval.Obeys.settled inferInstance).ne_escaped s,
    fun _ _ _ => (Eval.Obeys.settled inferInstance).ne_escaped s,
    fun hs => ⟨fun o f d hf hcode => ?_, ?_⟩⟩
  · have hd := (hs.sound.functions o f hf).stands d hcode
    exact fun scope args => ends_runBody (jumps_ofFuel fuel) hd o scope args
  · have hsound := ((safe_runProgram (ofFuel fuel) hp).idle hs.sound).2
    rw [hsound.incidents]
    exact fun _ => List.not_mem_nil

/-- A loop in a loop, with jumps out of both. -/
theorem script_ends_normally_loops :
    ∃ p, Program.parse "a: while (x) b: for (;;) if (y) break b; else continue a" = .ok p ∧
      (∀ c s', (ofFuel 9).runProgram p State.initial = .ok c s' → ∃ v, c = .normal v) ∧
      (∀ e scope c s', (ofFuel 9).expr e scope State.initial ≠ .error (.escaped c) s') ∧
      ∀ ending, Incident.strayJump ending ∉
        (((ofFuel 9).runProgram p).final State.initial).incidents := by
  have haccepted : (Program.parse
      "a: while (x) b: for (;;) if (y) break b; else continue a").isOk = true := by
    decide +kernel
  cases hparse : Program.parse "a: while (x) b: for (;;) if (y) break b; else continue a" with
  | error e =>
    rw [hparse] at haccepted
    cases haccepted
  | ok p =>
    obtain ⟨hends, -, hexpr, -, -, hreached⟩ := script_ends_normally hparse 9 State.initial
    exact ⟨p, rfl, hends, hexpr, (hreached .initial).2⟩

end Engine

/-- No step ever meets a tree that it has no meaning for, whatever is asked of the interpreter:
every place that is assigned to is one, every private name has been declared, `super` has its home
object and its target, every operator has an operation, and what a class extends and the names of
its elements have values or throw. -/
theorem State.fault_never_noted {s : State} (hs : s.Reached) (f : Fault) :
    Incident.fault f ∉ s.incidents := by
  rw [hs.sound.incidents]
  exact List.not_mem_nil

/-- A class whose method uses a private name. -/
theorem State.fault_never_noted_class :
    Incident.fault (.undeclaredPrivateName "m") ∉ ((Request.script
      "class A \x7b #m() \x7b return this.#m \x7d \x7d").after 9 State.initial).incidents :=
  State.fault_never_noted (.request .initial _ 9) _

end Ecma
