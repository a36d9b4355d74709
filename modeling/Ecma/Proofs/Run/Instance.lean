import Ecma.Proofs.Run.Site

/-! Private elements during a run. In every state that a run comes to, each object has all private
elements of a constructor or none of them, and one that has them already keeps what it has when they
are refused. The elements of a constructor are those that its class has declared for instances. -/

namespace Ecma

/-! ### What holds in a state -/

/-- Constructors have different private names for their instances. Every object has all names of a
constructor, each once, or none, and it gets them together or stays as it is. -/
structure State.PrivatesTogether (s : State) : Prop where
  distinct : ∀ c, (s.heap.get c).instanceNames.Nodup
  apart : ∀ c c' n, n ∈ (s.heap.get c).instanceNames → n ∈ (s.heap.get c').instanceNames → c' = c
  together : ∀ c o, (∀ n ∈ (s.heap.get c).instanceNames, n ∉ (s.heap.get o).privateNames) ∨
    ∀ n ∈ (s.heap.get c).instanceNames, (s.heap.get o).privateNames.count n = 1
  given : ∀ c o s', Engine.initialiseInstance o c s = .ok () s' → o.index < s.heap.objects.size →
    (s'.heap.get o).privateElements =
      (s.heap.get o).privateElements ++ (s.heap.get c).instanceElements
  refused : ∀ c o e s', Engine.initialiseInstance o c s = .error e s' →
    (∃ n ∈ (s.heap.get c).instanceNames, n ∈ (s.heap.get o).privateNames) ∧
      ∀ p, (s'.heap.get p).privateElements = (s.heap.get p).privateElements

namespace State

variable {s t : State} {q : ScopeRef} {l : Site}

theorem privatesTogether (hs : s.heap.Whole) : s.PrivatesTogether where
  distinct := hs.instances
  apart := hs.apart
  together c o := (hs.all_or_none c o).imp_right fun hall n hn =>
    List.count_eq_one_of_mem (hs.own o) (hall n hn)
  given c o s' h ho := by
    rcases Engine.initialiseInstance_cases hs o c with ⟨-, hok⟩ | ⟨-, hraise⟩
    · cases h.symm.trans hok
      rw [Heap.get_modify_self ho]
    · rw [hraise, Eval.raise_apply] at h
      cases h
  refused c o e s' h := by
    refine ⟨?_, Engine.initialiseInstance_error hs h⟩
    rcases Engine.initialiseInstance_cases hs o c with ⟨-, hok⟩ | ⟨hsome, -⟩
    · cases h.symm.trans hok
    · exact hsome

/-- The private elements are together now, and in every state that requests lead to. -/
def KeepsTogether (s : State) : Prop :=
  ∀ s', s.Proceeds s' → s'.PrivatesTogether

theorem keepsTogether (hs : s.toStore.Sound) : s.KeepsTogether :=
  fun _ h => privatesTogether (h.follows hs).2.privates

end State

/-- Each class at a site that is evaluated in a scope, now or in a later state, gives its
constructor the names that it declares. -/
def Site.Equips (l : Site) (q : ScopeRef) (t : State) : Prop :=
  ∀ t', t.Proceeds t' → ∀ c, l.place.Has (.classDef c) → ∀ fuel name o t'',
    (Engine.ofFuel fuel).evaluateClass c q name t' = .ok o t'' → c.Equips q t' o t''

theorem State.Runs.equips {t : State} {q : ScopeRef} {l : Site} (h : t.Runs q l)
    (ht : t.toStore.Sound) : l.Equips q t := by
  intro t' ht' c hc fuel name o t'' hclass
  obtain ⟨hprecedes, hsound⟩ := ht'.precedes ht
  have hsafe : ((Engine.ofFuel fuel).evaluateClass c q name).Safe t' _ :=
    Engine.safe_evaluateClass (h.mono hprecedes) hc
  have hleads := hsafe t' (.refl _ t') ⟨hsound, trivial⟩
  rw [hclass] at hleads
  exact hleads.2.2

/-! ### Whatever a run comes to -/

/-- The code that the evaluator is entered by, with its scope. -/
def Entry.code? : Entry → Option (Part × ScopeRef)
  | .expr e q => some (.expr e, q)
  | .statement t q _ => some (.statement t, q)
  | .call .. | .construct .. => none

namespace Activity

/-- A lookout that leaves a call open each time that the evaluator is entered without a property. -/
def heed (P : Entry → State → Prop) [∀ entry s, Decidable (P entry s)] (entry : Entry) :
    Eval Unit := fun s =>
  .ok () (if P entry s then s else { s with callDepth := s.callDepth + 1 })

/-- Each time that the run comes to an expression, a statement, a call or a construction, that and
the state have a property: the lookout leaves no call open. -/
def Throughout (a : Activity) (P : Entry → State → Prop) [∀ entry s, Decidable (P entry s)]
    (fuel : Nat) (s : State) : Prop :=
  ((a.run (Engine.watched (heed P) fuel)).final s).callDepth = s.callDepth

instance (a : Activity) (P : Entry → State → Prop) [∀ entry s, Decidable (P entry s)]
    (fuel : Nat) (s : State) : Decidable (a.Throughout P fuel s) :=
  inferInstanceAs (Decidable (_ = _))

example : ¬(program ⟨[.expression (.literal .null)], false, []⟩).Throughout
    (fun entry _ => entry.code? = none) 2 default := by
  decide

/-- What is true of calls, and of code wherever it stands, is true throughout a run. -/
theorem throughout_of_runs {P : Entry → State → Prop} [∀ entry s, Decidable (P entry s)]
    {a : Activity} {s : State}
    (hP : ∀ {entry t}, t.toStore.Sound → (∀ part q, entry.code? = some (part, q) →
      t.Runs q t.site ∧ t.site.place.Has part) → P entry t)
    (ha : a.Accepted) (hs : s.toStore.Sound) (fuel : Nat) : a.Throughout P fuel s := by
  have hheed {entry : Entry} {st : State} (h : ∀ t, st.Precedes t → ∀ part q,
      entry.code? = some (part, q) → t.Runs q t.site ∧ t.site.place.Has part) :
      (heed P entry).Safe st fun _ _ => True := by
    intro t ht hsound
    have heq : heed P entry t = .ok () t :=
      congrArg (EStateM.Result.ok ()) (if_pos (hP hsound.toSound (h t ht)))
    rw [heq]
    exact ⟨.refl _ t, hsound, trivial⟩
  have hcode {part : Part} {q : ScopeRef} {st : State} {l : Site} (hq : st.Runs q l)
      (hpart : l.place.Has part) (t : State) (ht : st.Precedes t) (part' : Part) (q' : ScopeRef)
      (heq : some (part, q) = some (part', q')) :
      t.Runs q' t.site ∧ t.site.place.Has part' := by
    cases heq
    have hruns := hq.mono ht
    exact ⟨hruns.site ▸ hruns, hruns.site ▸ hpart⟩
  have hwatch : Engine.Watches (heed P) :=
    ⟨fun _ => Eval.obeys_of_ok fun _ => ⟨_, _, rfl⟩,
      fun _ _ _ => ⟨fun _ => hheed fun _ _ _ _ h => by cases h⟩,
      fun _ _ _ => ⟨fun _ => hheed fun _ _ _ _ h => by cases h⟩,
      fun hq he => hheed (hcode hq he), fun _ hq ht => hheed (hcode hq ht)⟩
  have := Engine.sound_watched hwatch fuel
  exact ((safe_run ha (Engine.watched (heed P) fuel)).idle hs).1.callDepth

end Activity

/-! ### Private elements -/

/-- What holds of private elements where the evaluator is entered: also after the arguments of
`super()`, when the parent constructor is called, and whenever a class is evaluated. -/
structure Entry.Orderly (entry : Entry) (t : State) : Prop where
  state : t.KeepsTogether
  arguments : ∀ args q, entry = .expr (.superCall args) q → ∀ fuel values t',
    (Engine.ofFuel fuel).arguments args q t = .ok values t' → t'.KeepsTogether
  classes : ∀ part q, entry.code? = some (part, q) →
    t.site.place.Has part ∧ t.Hosts q t.site ∧ t.site.Equips q t

theorem Entry.orderly {entry : Entry} {t : State} (ht : t.toStore.Sound)
    (hcode : ∀ part q, entry.code? = some (part, q) →
      t.Runs q t.site ∧ t.site.place.Has part) : entry.Orderly t where
  state := State.keepsTogether ht
  arguments args q hentry fuel values t' hargs := by
    subst hentry
    obtain ⟨hruns, hpart⟩ := hcode _ q rfl
    have hsafe : ((Engine.ofFuel fuel).arguments args q).Safe t _ := Engine.safe_arguments hruns
      fun e he => hpart.part (by simp [Part.parts, Expr.parts, he])
    have hleads := hsafe t (.refl _ t) ⟨ht, trivial⟩
    rw [hargs] at hleads
    exact State.keepsTogether hleads.2.1.toSound
  classes part q h := by
    obtain ⟨hruns, hpart⟩ := hcode part q h
    exact ⟨hpart, hruns.hosts, hruns.equips ht⟩

open Classical in
/-- Throughout every run that starts in a state that requests lead to, and in every state that
requests lead to afterwards, each object has all private names that a class declares for instances,
each once, or none of them, and when they are refused to an object its private elements stay as
they are. -/
theorem Activity.private_elements_together (a : Activity) (ha : a.Accepted) {s : State}
    (hs : s.Reached) (fuel : Nat) :
    s.KeepsTogether ∧ a.Throughout Entry.Orderly fuel s ∧
      ((a.run (Engine.ofFuel fuel)).final s).KeepsTogether := by
  have hfinal := ((safe_run ha (Engine.ofFuel fuel)).idle hs.sound).2
  exact ⟨State.keepsTogether hs.sound, throughout_of_runs Entry.orderly ha hs.sound fuel,
    State.keepsTogether hfinal⟩

open Classical in
/-- A base constructor that returns the object that it is given, so that the second instance is
refused: the object has the method and the accessor, and nothing else has private elements. -/
theorem Activity.private_elements_together_returned :
    let a := source ("class Base { constructor(o) { return o; } } " ++
      "class A extends Base { #x() { } get #y() { } set #y(v) { } } " ++
      "let o = new Object(); new A(o); new A(o)")
    let final := (a.run (Engine.ofFuel 20)).final State.initial
    (State.initial.KeepsTogether ∧ a.Throughout Entry.Orderly 20 State.initial ∧
        final.KeepsTogether) ∧
      (final.heap.objects.toList.map fun o => o.privateElements.length).filter (· ≠ 0) = [2] :=
  ⟨private_elements_together (source _) trivial .initial 20, by decide +kernel⟩

end Ecma
