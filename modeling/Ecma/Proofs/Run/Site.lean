import Ecma.Proofs.Frame.Balance

/-! Code is evaluated where it stands. Each time that a run comes to an expression, that stands at the
site that is being run, and the scopes from its own outwards are those of the functions and classes
around the site. From that follows which code runs as strict code and what private names stand for.
Both are as the text of the script tells, but for code directly in a class: its `extends` clause and
its computed names run in the context of the code around the class, and the `extends` clause sees
the private names that the class declares. -/

namespace Ecma

namespace Activity

/-- A script that is run is one that is accepted. -/
def Accepted : Activity → Prop
  | .program p => ∃ source, Program.parse source = .ok p
  | _ => True

/-- A lookout that leaves a call open each time that the evaluator is entered by an expression
without a property. -/
def inspect (P : Expr → ScopeRef → State → Prop) [∀ e q s, Decidable (P e q s)] :
    Entry → Eval Unit
  | .expr e q => fun s => .ok () (if P e q s then s else { s with callDepth := s.callDepth + 1 })
  | _ => pure ()

/-- Each time that the run comes to an expression, the expression, its scope and the state have a
property: the lookout leaves no call open. -/
def Always (a : Activity) (P : Expr → ScopeRef → State → Prop) [∀ e q s, Decidable (P e q s)]
    (fuel : Nat) (s : State) : Prop :=
  ((a.run (Engine.watched (inspect P) fuel)).final s).callDepth = s.callDepth

instance (a : Activity) (P : Expr → ScopeRef → State → Prop) [∀ e q s, Decidable (P e q s)]
    (fuel : Nat) (s : State) : Decidable (a.Always P fuel s) :=
  inferInstanceAs (Decidable (_ = _))

example : ¬(program ⟨[.expression (.literal .null)], false, []⟩).Always
    (fun _ _ s => s.callDepth ≠ 0) 2 default := by
  decide

variable {a : Activity} {s : State}

theorem safe_run [Vigil] (ha : a.Accepted) (eng : Engine) [eng.Sound] :
    (a.run eng).SafeBut Set.univ s fun _ _ => True := by
  unfold run
  cases a with
  | program p =>
    obtain ⟨source, hparse⟩ := ha
    exact .map ((eng.safe_runProgram (Program.legal_of_parse hparse)).widen (Set.subset_univ _))
  | source text => exact .map (eng.safe_runSource text)
  | _ => exact .widened (Eval.Tame.safe s)

/-- What is true of an expression wherever it stands is true each time that a run comes to one. -/
theorem always_of_runs {P : Expr → ScopeRef → State → Prop} [∀ e q s, Decidable (P e q s)]
    (hP : ∀ {e q t}, t.toStore.Sound → t.Runs q t.site → t.site.place.Has (.expr e) → P e q t)
    (ha : a.Accepted) (hs : s.toStore.Sound) (fuel : Nat) : a.Always P fuel s := by
  have hexpr {e : Expr} {q : ScopeRef} {t : State} {l : Site} (hq : t.Runs q l)
      (he : l.place.Has (.expr e)) : (inspect P (.expr e q)).Safe t fun _ _ => True := by
    intro t' ht hsound
    have hq' := hq.mono ht
    have hgood : P e q t' := hP hsound.toSound (hq'.site ▸ hq') (hq'.site ▸ he)
    have heq : inspect P (.expr e q) t' = .ok () t' :=
      congrArg (EStateM.Result.ok ()) (if_pos hgood)
    rw [heq]
    exact ⟨.refl _ t', hsound, trivial⟩
  have hother : (pure () : Eval Unit).Tame := inferInstance
  have hsettled (entry : Entry) : (inspect P entry).Obeys .settled := by
    cases entry <;> exact Eval.obeys_of_ok fun _ => ⟨_, _, rfl⟩
  have hwatch : Engine.Watches (inspect P) :=
    ⟨hsettled, fun _ _ _ => hother, fun _ _ _ => hother, hexpr, fun _ _ _ => hother.safe _⟩
  have := Engine.sound_watched hwatch fuel
  have hfinal := (safe_run ha (Engine.watched (inspect P) fuel)).idle hs
  exact hfinal.1.callDepth

end Activity

/-! ### Strictness -/

/-- Evaluating an expression leaves the contexts as they were. -/
theorem Engine.contexts_expr (fuel : Nat) (e : Expr) (q : ScopeRef) (s : State) :
    (((ofFuel fuel).expr e q).final s).contexts = s.contexts := by
  obtain ⟨depth, hlimit, hs⟩ : ∃ depth, Eval.maxCallDepth ≤ depth ∧ s.callDepth ≤ depth :=
    ⟨_, Nat.le_max_left .., Nat.le_max_right ..⟩
  have hrun : ((ofFuel fuel).expr e q).Keeps (.ofDepth depth hlimit) 0 := inferInstance
  have hkept := hrun.final (.ofDepth hlimit hs)
  exact hkept.1.contexts

theorem State.Runs.isStrict {s : State} {q : ScopeRef} {l : Site} (h : s.Runs q l) :
    Eval.isStrict s = .ok l.place.runsStrict s := by
  unfold Eval.isStrict
  rw [h.strict, Option.getD_some]

/-- How strictness at run time stands to that of the text, for the code that is being run. -/
structure State.StrictAsWritten (t : State) : Prop where
  /-- Assignments and deletions go by the function or script that the code is in. -/
  flag : Eval.isStrict t = .ok t.site.place.runsStrict t
  /-- Operands that are evaluated in between make no difference. -/
  kept : ∀ n e q, (((Engine.ofFuel n).expr e q).final t).contexts = t.contexts
  /-- Directly in a class, in its `extends` clause or a computed name, the text is strict code, but
  it runs as the code around the class does. -/
  asWritten : t.site.place.runsStrict = t.site.place.isStrict ↔
    (t.site.place.inClass = true → t.site.place.runsStrict = true)

open Classical in
/-- Each time that a run comes to an expression, the code is as strict as the function or script
that it is in. That is the strictness of the text everywhere but directly in a class in sloppy
code. -/
theorem Activity.strictness_of_code (a : Activity) (ha : a.Accepted) {s : State} (hs : s.Reached)
    (fuel : Nat) :
    a.Always (fun e q t => t.site.place.Has (.expr e) ∧ t.Hosts q t.site ∧ t.StrictAsWritten)
      fuel s := by
  refine always_of_runs (fun {e q t} _ hq he => ?_) ha hs.sound fuel
  have hstrict : t.StrictAsWritten :=
    ⟨hq.isStrict, fun n e' q' => Engine.contexts_expr n e' q' t, he.runsStrict_eq_iff⟩
  exact ⟨he, hq.hosts, hstrict⟩

open Classical in
/-- An assignment in a method, which is strict code. -/
theorem Activity.strictness_of_code_method :
    (source "class A \x7b m() \x7b x = 1 \x7d \x7d new A().m()").Always
      (fun e q t => t.site.place.Has (.expr e) ∧ t.Hosts q t.site ∧ t.StrictAsWritten) 30
      State.initial :=
  strictness_of_code (source _) trivial .initial 30

/-- An assignment in a computed name of a class, which runs as sloppy code in a sloppy script. -/
theorem Activity.strictness_of_code_computed_name :
    ¬(source "class A \x7b [undeclared = 'm']() \x7b \x7d \x7d").Always
      (fun e _ t => e matches .assign .. → t.contexts.head?.any Context.strict = true) 12
      State.initial := by
  decide +kernel

/-! ### Private names -/

namespace Store

variable {st st' : Store} {q : ScopeRef} {l : Site} {name : String} {frame : Frame}

/-- A private name that is declared stays what it is. -/
theorem Grows.lookup_privateNames (h : st.Grows st') {n : PrivateName}
    (hn : (st.scopes.get q).privateNames.lookup name = some n) :
    (st'.scopes.get q).privateNames.lookup name = some n := by
  by_cases hq : q.index < st.scopes.environments.size
  · rw [(h.environments q hq).privateNames, hn]
  · rw [Scopes.get_of_not_lt hq] at hn
    cases hn

/-- In every later store a private name stands for what it stood for. -/
theorem Hosts.findPrivateName?_later (hq : st.Hosts q l)
    (hpos : 0 < st.scopes.environments.size) (hname : l.place.Has (.key (.privateName name)))
    (hframe : l.frames.find? (·.around.declares name) = some frame) {n : PrivateName}
    (hn : (st.scopes.get frame.scope).privateNames.lookup name = some n) (h : st.Grows st') :
    st'.scopes.findPrivateName? name q = some n := by
  have hpos' : 0 < st'.scopes.environments.size := Nat.lt_of_lt_of_le hpos h.size
  obtain ⟨frame', n', hframe', hn', hfound⟩ := (hq.mono h).findPrivateName? hpos' hname
  cases hframe.symm.trans hframe'
  cases (h.lookup_privateNames hn).symm.trans hn'
  exact hfound

end Store

/-- The innermost class around code that declares a name is the one whose body grants it just where
the code is not in its `extends` clause. -/
theorem Site.find?_grants_iff {l : Site} {name : String} {frame : Frame}
    (hframe : l.frames.find? (·.around.declares name) = some frame) :
    l.frames.find? (·.around.grants name) = some frame ↔ frame.around.grants name = true := by
  refine ⟨fun h => ?_, fun hgrants => ?_⟩
  · have hfound := List.find?_some h
    exact hfound
  obtain ⟨-, before, after, heq, hbefore⟩ := List.find?_eq_some_iff_append.mp hframe
  refine List.find?_eq_some_iff_append.mpr ⟨hgrants, before, after, heq, fun f hf => ?_⟩
  have hnot := hbefore f hf
  rw [Bool.not_eq_true'] at hnot ⊢
  exact Bool.eq_false_iff.mpr fun h =>
    Bool.eq_false_iff.mp hnot (Around.declares_of_grants h)

/-- What a private name stands for, in a scope, for the code that is being run. -/
structure State.Resolves (t : State) (q : ScopeRef) (name : String) (frame : Ecma.Frame)
    (n : PrivateName) : Prop where
  /-- The innermost class around the code that declares the name, with the scope that this evaluation
  of the class has made. -/
  innermost : t.site.frames.find? (·.around.declares name) = some frame
  declared : (t.scopes.get frame.scope).privateNames.lookup name = some n
  /-- No other evaluation of a class has made the name. -/
  unique : ∀ q' name', (name', n) ∈ (t.scopes.get q').privateNames →
    q' = frame.scope ∧ name' = name
  found : ∀ st : Store, t.Grows st → st.scopes.findPrivateName? name q = some n
  /-- An `extends` clause sees the names that its own class declares, which the text does not let
  it use. -/
  asWritten : t.site.frames.find? (·.around.grants name) = some frame ↔
    frame.around.grants name = true

theorem State.Runs.resolves {t : State} {q : ScopeRef} {name : String} (h : t.Runs q t.site)
    (hsound : t.toStore.Sound) (hname : t.site.place.Has (.key (.privateName name))) :
    ∃ frame n, t.Resolves q name frame n := by
  obtain ⟨frame, n, hframe, hn, -⟩ := h.hosts.findPrivateName? hsound.scopes hname
  refine ⟨frame, n, hframe, hn, fun q' name' hmem => ?_, fun st hst => ?_,
    Site.find?_grants_iff hframe⟩
  · obtain ⟨before, after, heq, -⟩ := List.lookup_eq_some_iff.mp hn
    exact hsound.names.unique frame.scope q' name name' n (by simp [heq]) hmem
  · exact h.hosts.findPrivateName?_later hsound.scopes hname hframe hn hst

open Classical in
/-- Each time that a run comes to an expression, every private name that may be used where it stands
stands for the one that the innermost class around it that declares the name has made, in that
evaluation of the class and no other, and goes on to do so. It is the class whose body the text
resolves the name to, unless the code is in the `extends` clause of a class that declares the name
itself. -/
theorem Activity.private_names_resolve (a : Activity) (ha : a.Accepted) {s : State}
    (hs : s.Reached) (fuel : Nat) :
    a.Always (fun e q t => t.site.place.Has (.expr e) ∧ t.Hosts q t.site ∧
      ∀ name, t.site.place.Has (.key (.privateName name)) → ∃ frame n, t.Resolves q name frame n)
      fuel s :=
  always_of_runs (fun hsound hq he => ⟨he, hq.hosts, fun _ => hq.resolves hsound⟩) ha hs.sound fuel

open Classical in
/-- A private method that is called in the body of its class. -/
theorem Activity.private_names_resolve_method :
    (source "class A \x7b static #x() \x7b \x7d static m() \x7b this.#x() \x7d \x7d A.m()").Always
      (fun e q t => t.site.place.Has (.expr e) ∧ t.Hosts q t.site ∧
        ∀ name, t.site.place.Has (.key (.privateName name)) → ∃ frame n, t.Resolves q name frame n)
      30 State.initial :=
  private_names_resolve (source _) trivial .initial 30

/-- A private name in an `extends` clause that both the class and one around it declare. The first
name that is made is that of the outer class, and the text means that one; the run finds the
second. -/
theorem Activity.private_names_resolve_heritage :
    let run := source ("class Outer \x7b static #x() \x7b return null; \x7d static m() \x7b " ++
      "class Inner extends (this.#x()) \x7b static #x() \x7b \x7d \x7d return 'resolved'; \x7d \x7d " ++
      "Outer.m()")
    let finds (id : Nat) : Expr → ScopeRef → State → Prop := fun e q t =>
      e matches .call (.member _ (.privateName _)) _ →
        (t.scopes.findPrivateName? "x" q).map PrivateName.id = some id
    ¬run.Always (finds 0) 20 State.initial ∧ run.Always (finds 1) 20 State.initial := by
  decide +kernel

end Ecma
