import Ecma.Proofs.Frame.Call
import Ecma.Proofs.Run.Request

/-! Entries and exits are balanced: every call, construction and script leaves the contexts and the
depth of calls as they were, whatever its outcome, and calls are never deeper than they may be. -/

namespace Ecma

/-- What the interpreter can be asked to run. -/
inductive Activity where
  | call (f this : Value) (args : List Value)
  | callObject (f : ObjectRef) (this : Value) (args : List Value)
  | construct (f : ObjectRef) (args : List Value) (target : ObjectRef)
  | program (p : Program)
  | source (text : String)

namespace Activity

/-- Runs what is asked for; its outcome is a value, an exception or a lack of fuel. -/
def run (a : Activity) (eng : Engine) : Eval Unit :=
  match a with
  | .call f this args => discard (eng.callValue f this args)
  | .callObject f this args => discard (eng.callObject f this args)
  | .construct f args target => discard (eng.constructObject f args target)
  | .program p => discard (eng.runProgram p)
  | .source text => discard (eng.runSource text)

/-- A lookout that leaves a call open each time that the evaluator is entered in a state with a
property. -/
def mark (p : State → Prop) [DecidablePred p] (_ : Entry) : Eval Unit := fun s =>
  .ok () (if p s then { s with callDepth := s.callDepth + 1 } else s)

/-- The run comes to a state with a property at some expression, statement, call or construction:
calls that the lookout leaves open are still open after the run. -/
def Meets (a : Activity) (p : State → Prop) [DecidablePred p] (fuel : Nat) (s : State) : Prop :=
  ((a.run (Engine.watched (mark p) fuel)).final s).callDepth ≠ s.callDepth

instance (a : Activity) (p : State → Prop) [DecidablePred p] (fuel : Nat) (s : State) :
    Decidable (a.Meets p fuel s) :=
  inferInstanceAs (Decidable (_ ≠ _))

example :
    (program ⟨[.expression (.literal .null)], false, []⟩).Meets (·.callDepth = 0) 2 default := by
  decide

end Activity

/-! ### Frames -/

/-- Held to a depth of calls, with no regard to references. -/
def Regime.ofDepth (depth : Nat) (h : Eval.maxCallDepth ≤ depth) : Regime :=
  ⟨.off, depth, h⟩

instance {depth n : Nat} {h : Eval.maxCallDepth ≤ depth} {α : Type} [Mentions α] {a : α} :
    Known (Regime.ofDepth depth h).tracked n a :=
  ⟨False.elim⟩

/-- Every state may be started from, if calls may get as deep as they are. -/
theorem Eval.Starts.ofDepth {s : State} {depth : Nat} (h : Eval.maxCallDepth ≤ depth)
    (hs : s.callDepth ≤ depth) : Starts (.ofDepth depth h) 0 s :=
  ⟨Nat.zero_le _, hs, False.elim⟩

theorem Eval.Keeps.final {ρ : Regime} {n : Nat} {α : Type} [Mentions α] {x : Eval α} {s : State}
    (hx : x.Keeps ρ n) (hs : Starts ρ n s) :
    s.Frame (x.final s) ∧ (ρ.tracked.on → ρ.tracked.Kept s.toStore (x.final s).toStore) := by
  have h := hx.frames s hs
  unfold Eval.final
  cases heq : x s with
  | ok a s' =>
    rw [heq] at h
    exact ⟨h.1, fun ht => (h.2 ht).1⟩
  | error e s' =>
    rw [heq] at h
    exact ⟨h.1, fun ht => (h.2 ht).1⟩

namespace Activity

variable {ρ : Regime} {n : Nat}

instance : Mentions Activity :=
  ⟨fun a o => match a with
    | .call f this args => Mentions.mentions (f, this, args) o
    | .callObject f this args => Mentions.mentions (f, this, args) o
    | .construct f args target => Mentions.mentions (f, args, target) o
    | .program _ => False
    | .source _ => False⟩

theorem keeps_run (a : Activity) (eng : Engine) [eng.Keeps ρ] [ha : Known ρ.tracked n a] :
    (a.run eng).Keeps ρ n := by
  unfold run
  cases a with
  | call f this args =>
    have hparts : Known ρ.tracked n (f, this, args) := ⟨ha.within⟩
    have := hparts.fst
    have := hparts.snd.fst
    have := hparts.snd.snd
    infer_instance
  | callObject f this args =>
    have hparts : Known ρ.tracked n (f, this, args) := ⟨ha.within⟩
    have := hparts.fst
    have := hparts.snd.fst
    have := hparts.snd.snd
    infer_instance
  | construct f args target =>
    have hparts : Known ρ.tracked n (f, args, target) := ⟨ha.within⟩
    have := hparts.fst
    have := hparts.snd.fst
    have := hparts.snd.snd
    infer_instance
  | program p => infer_instance
  | source text => infer_instance

/-- A lookout that waits for what does not happen leaves no call open. -/
theorem not_meets (a : Activity) [Known ρ.tracked n a] {p : State → Prop} [DecidablePred p]
    (hp : ∀ {s n}, Eval.Starts ρ n s → ¬p s) (fuel : Nat) {s : State} (hs : Eval.Starts ρ n s) :
    ¬a.Meets p fuel s := by
  have hmark (entry : Entry) (n : Nat) : (mark p entry).Keeps ρ n := by
    refine ⟨fun s hs => ?_⟩
    simp only [mark, hp hs, if_false]
    exact ⟨.refl s, fun ht => ⟨(hs.obeys ht).kept rfl rfl, .of_unlinked⟩⟩
  have := Engine.keeps_watched hmark fuel
  have hrun : (a.run (Engine.watched (mark p) fuel)).Keeps ρ n := a.keeps_run _
  have hkept := hrun.final hs
  exact fun hmeets => hmeets hkept.1.callDepth

/-- Whatever is run keeps its frame, from every state. -/
theorem frame_final (a : Activity) (fuel : Nat) (s : State) :
    s.Frame ((a.run (Engine.ofFuel fuel)).final s) := by
  obtain ⟨depth, hlimit, hs⟩ : ∃ depth, Eval.maxCallDepth ≤ depth ∧ s.callDepth ≤ depth :=
    ⟨_, Nat.le_max_left .., Nat.le_max_right ..⟩
  have hrun : (a.run (Engine.ofFuel fuel)).Keeps (.ofDepth depth hlimit) 0 := a.keeps_run _
  have hstarts : Eval.Starts (.ofDepth depth hlimit) 0 s := .ofDepth hlimit hs
  have hkept := hrun.final hstarts
  exact hkept.1

theorem not_meets_deep (a : Activity) (fuel : Nat) {s : State}
    (hs : s.callDepth ≤ Eval.maxCallDepth) : ¬a.Meets (Eval.maxCallDepth < ·.callDepth) fuel s := by
  have hstarts := Eval.Starts.ofDepth (Nat.le_refl _) hs
  refine a.not_meets (fun {t n} ht => ?_) fuel hstarts
  have hdepth : t.callDepth ≤ Eval.maxCallDepth := ht.depth
  exact Nat.not_lt.mpr hdepth

end Activity

/-- The code of a call is only ever run within the greatest depth. -/
theorem Eval.inCall_congr {α : Type} {x y : Eval α}
    (h : ∀ s : State, s.callDepth ≤ maxCallDepth → x s = y s) : inCall x = inCall y := by
  funext s
  unfold inCall
  split
  · rfl
  · next hlimit => rw [h { s with callDepth := s.callDepth + 1 } (Nat.lt_of_not_le hlimit)]

/-! ### Requests -/

namespace Session

instance {ρ : Regime} {n : Nat} {p : Program} : (evaluation p).Keeps ρ n := by
  refine .bind fun m _ ending hending => ?_
  cases ending with
  | ok v =>
    have := hending.ok
    infer_instance
  | error v =>
    have := hending.error
    infer_instance

/-- A line leaves the state, or runs a script from it with the output cleared. -/
theorem snd_feed (mode : Mode) (input : String) (s : State) :
    (feed mode input s).2 = s ∨
      ∃ p, (feed mode input s).2 = (evaluation p).final { s with output := "" } := by
  unfold feed
  dsimp only
  split
  · exact .inl rfl
  · cases mode with
    | tokens => exact .inl rfl
    | tree => exact .inl rfl
    | evaluate =>
      unfold execute
      dsimp only
      split
      · exact .inr ⟨_, snd_reportProgram _ _⟩
      · exact .inl rfl

end Session

namespace Request

variable {ρ : Regime} {n : Nat}

instance : Mentions Request :=
  ⟨fun q o => match q with
    | .script _ => False
    | .line _ _ => False
    | .call f this args => Mentions.mentions (f, this, args) o
    | .construct f args target => Mentions.mentions (f, args, target) o
    | .create prototype kind _ => Mentions.mentions (prototype, kind) o
    | .get o' _ receiver => Mentions.mentions (o', receiver) o
    | .set o' _ value receiver => Mentions.mentions (o', value, receiver) o
    | .define o' _ d => Mentions.mentions (o', d) o
    | .delete o' _ => o' = o
    | .setPrototype o' prototype => Mentions.mentions (o', prototype) o
    | .preventExtensions o' => o' = o⟩

/-- Every request keeps its frame. -/
theorem keeps_after (q : Request) [hq : Known ρ.tracked n q] (fuel : Nat) {s : State}
    (hs : Eval.Starts ρ n s) :
    s.Frame (q.after fuel s) ∧
      (ρ.tracked.on → ρ.tracked.Kept s.toStore (q.after fuel s).toStore) := by
  cases q with
  | script source =>
    exact Eval.Keeps.final (x := (Engine.ofFuel fuel).runSource source) inferInstance hs
  | line mode input =>
    simp only [after]
    obtain heq | ⟨p, heq⟩ := Session.snd_feed mode input s <;> rw [heq]
    · exact ⟨.refl s, fun ht => (hs.obeys ht).kept rfl rfl⟩
    · let cleared : State := { s with output := "" }
      have hfirst ht : ρ.tracked.Kept s.toStore cleared.toStore := (hs.obeys ht).kept rfl rfl
      have hcleared : Eval.Starts ρ n cleared := ⟨hs.size, hs.depth, fun ht => (hfirst ht).obeys⟩
      have hrun : (Session.evaluation p).Keeps ρ n := inferInstance
      obtain ⟨hframe, hkept⟩ := hrun.final hcleared
      exact ⟨⟨hframe.contexts, hframe.callDepth, hframe.size⟩, fun ht =>
        (hfirst ht).trans (hkept ht)⟩
  | call f receiver args =>
    have hparts : Known ρ.tracked n (f, receiver, args) := ⟨hq.within⟩
    have := hparts.fst
    have := hparts.snd.fst
    have := hparts.snd.snd
    exact Eval.Keeps.final (x := (Engine.ofFuel fuel).call f receiver args) inferInstance hs
  | construct f args target =>
    have hparts : Known ρ.tracked n (f, args, target) := ⟨hq.within⟩
    have := hparts.fst
    have := hparts.snd.fst
    have := hparts.snd.snd
    exact Eval.Keeps.final (x := (Engine.ofFuel fuel).construct f args target) inferInstance hs
  | create prototype kind plain =>
    have hparts : Known ρ.tracked n (prototype, kind) := ⟨hq.within⟩
    have := hparts.fst
    have := hparts.snd
    exact Eval.Keeps.final (x := Eval.newObject prototype kind) inferInstance hs
  | get o key receiver =>
    have hparts : Known ρ.tracked n (o, receiver) := ⟨hq.within⟩
    have := hparts.fst
    have := hparts.snd
    exact Eval.Keeps.final (x := (Engine.ofFuel fuel).getFor o key receiver) inferInstance hs
  | set o key value receiver =>
    have hparts : Known ρ.tracked n (o, value, receiver) := ⟨hq.within⟩
    have := hparts.fst
    have := hparts.snd.fst
    have := hparts.snd.snd
    exact Eval.Keeps.final (x := (Engine.ofFuel fuel).setFor o key value receiver) inferInstance hs
  | define o key d =>
    have hparts : Known ρ.tracked n (o, d) := ⟨hq.within⟩
    have := hparts.fst
    have := hparts.snd
    exact Eval.Keeps.final (x := Eval.define o key d) inferInstance hs
  | delete o key =>
    have : Known ρ.tracked n o := ⟨hq.within⟩
    exact Eval.Keeps.final (x := Eval.delete o key) inferInstance hs
  | setPrototype o prototype =>
    have hparts : Known ρ.tracked n (o, prototype) := ⟨hq.within⟩
    have := hparts.fst
    have := hparts.snd
    exact Eval.Keeps.final (x := Eval.setPrototype o prototype) inferInstance hs
  | preventExtensions o =>
    have : Known ρ.tracked n o := ⟨hq.within⟩
    exact Eval.Keeps.final (x := Eval.preventExtensions o) inferInstance hs

end Request

/-- No request leaves a context or a call behind. -/
theorem State.Reached.idle {s : State} (hs : s.Reached) : s.contexts = [] ∧ s.callDepth = 0 := by
  induction hs with
  | initial => exact ⟨rfl, rfl⟩
  | @request s _ q fuel ih =>
    have hstarts := Eval.Starts.ofDepth (Nat.le_refl _) (ih.2 ▸ Nat.zero_le _)
    have hframe := (q.keeps_after fuel hstarts).1
    exact ⟨hframe.contexts.trans ih.1, hframe.callDepth.trans ih.2⟩

/-! ### Balance -/

/-- However a call, a construction or a script ends, it leaves the contexts and the depth of calls
as they were. In a run that starts outside of calls every state is within the greatest depth: those
in which the evaluator is entered, and those in which the code of a call is run, which is the only
step that goes deeper. After any requests no context is left, and no call. -/
theorem Activity.entries_balanced (a : Activity) (fuel : Nat) (s : State) :
    ((a.run (Engine.ofFuel fuel)).final s).contexts = s.contexts ∧
    ((a.run (Engine.ofFuel fuel)).final s).callDepth = s.callDepth ∧
    (s.callDepth = 0 → ¬a.Meets (400 < ·.callDepth) fuel s) ∧
    (∀ {α : Type} {x y : Eval α}, (∀ t : State, t.callDepth ≤ 400 → x t = y t) →
      Eval.inCall x = Eval.inCall y) ∧
    (s.Reached → s.contexts = [] ∧ s.callDepth = 0) := by
  have hframe := a.frame_final fuel s
  refine ⟨hframe.contexts, hframe.callDepth, fun hs => ?_, Eval.inCall_congr, State.Reached.idle⟩
  exact a.not_meets_deep fuel (hs.trans_le (Nat.zero_le _))

/-- A function that calls itself without end. -/
theorem Activity.entries_balanced_recursion :
    let run := source "function f() { f() } f()"
    ((run.run (Engine.ofFuel 9)).final State.initial).contexts = [] ∧
      ((run.run (Engine.ofFuel 9)).final State.initial).callDepth = 0 ∧
      ¬run.Meets (400 < ·.callDepth) 9 State.initial := by
  obtain ⟨hcontexts, hdepth, hdeep, -⟩ :=
    entries_balanced (source "function f() { f() } f()") 9 State.initial
  exact ⟨hcontexts, hdepth, hdeep rfl⟩

end Ecma
