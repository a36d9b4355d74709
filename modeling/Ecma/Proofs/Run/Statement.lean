import Ecma.Proofs.Run.Expression

/-! Statements are safe in a scope for the place that they stand at. -/

namespace Ecma

namespace State

variable {st st' : State} {fresh : Bool} {outer q : ScopeRef} {l : Site}
  {but : Set (ScopeRef × String)}

/-- The scope of a turn of a `for` loop. If each turn has its own, it is a copy of the one before,
so it stands inside the scope around the loop as well. -/
structure RunsTurn (st : State) (fresh : Bool) (outer q : ScopeRef) (l : Site) : Prop where
  runs : st.Runs q l
  inside : fresh = true → st.Inside outer q []

theorem RunsTurn.mono (h : st.RunsTurn fresh outer q l) (hst : st.PrecedesBut but st') :
    st'.RunsTurn fresh outer q l :=
  ⟨h.runs.mono hst, fun hfresh => (h.inside hfresh).mono hst.toGrows⟩

end State

/-- How an evaluation ends does not depend on where it is safe. -/
theorem Eval.SafeBut.ends [Vigil] {α : Type} {x : Eval α} {st : State} {Q : α → State → Prop}
    {P : α → Prop} {but : Set (ScopeRef × String)} (h : x.SafeBut but st Q) (hP : x.Ends P) :
    x.SafeBut but st fun a st' => Q a st' ∧ P a := by
  intro s hs hsound
  have hx := h s hs hsound
  cases heq : x s with
  | ok a s' =>
    rw [heq] at hx
    exact ⟨hx.1, hx.2.1, hx.2.2, hP s a s' heq⟩
  | error e s' =>
    rw [heq] at hx
    exact hx

namespace Engine

open Eval (Tame Safe)

variable [Vigil] {eng : Engine} [heng : eng.Sound] {st : State} {scope : ScopeRef} {l : Site}
  {body : List Stmt}

/-! ### Lists and blocks -/

/-- Each statement gives the names that it declares their first values. -/
theorem safe_runList {last : Option Value} (hscope : st.Runs scope l)
    (h : ∀ t ∈ body, l.place.Has (.statement t))
    (hpending : st.scopes.Pending scope (Stmt.lexicalNamesOf body)) :
    (eng.runList scope last body).SafeBut (scope.names {name | name ∈ Stmt.lexicalNamesOf body})
      st fun _ _ => True := by
  induction body generalizing last st with
  | nil => exact .pure fun _ _ => trivial
  | cons t rest ih =>
    have hsplit : st.scopes.Pending scope (t.lexicalNames ++ Stmt.lexicalNamesOf rest) := hpending
    have hrest : scope.names {name | name ∈ Stmt.lexicalNamesOf rest} ⊆
        scope.names {name | name ∈ Stmt.lexicalNamesOf (t :: rest)} :=
      ScopeRef.names_mono fun name hname => List.mem_append_right _ hname
    refine .seq (heng.statement [] hscope (h t (by simp))
      (hsplit.sublist (List.sublist_append_left _ _))) (fun c st' hst _ => ?_)
      (ScopeRef.names_mono fun name hname => List.mem_append_left _ hname) hrest
    split
    · exact ih (hscope.mono hst) (fun u hu => h u (by simp [hu])) (hsplit.rest hst.steady)
    · exact .widened (Tame.safe st')

theorem safe_runBlock (hscope : st.Runs scope l) (h : ∀ t ∈ body, l.place.Has (.statement t))
    (hnodup : (Stmt.declaredNames body).Nodup) :
    (eng.runBlock body scope).Safe st fun _ _ => True := by
  refine .bindNew (fun s hs => Eval.safe_blockScope (hscope.mono hs) h hnodup)
    (fun s inner s' _ _ ⟨hruns, hpending, _⟩ => .within hruns.site
      (safe_runList (hruns.enter rfl) h hpending))
    fun s inner s' ⟨_, _, hnew⟩ p hp => .inr ?_
  rcases hnew with hlacks | hempty
  · exact hp.1 ▸ hlacks
  · exact absurd (hempty ▸ hp.2) List.not_mem_nil

/-- A statement that is no item of a list gives no name its first value. -/
theorem safe_single {t : Stmt} (hscope : st.Runs scope l) (ht : l.place.Has (.statement t))
    (hd : t.boundNames = []) (labels : List String) :
    (eng.statement t scope labels).Safe st fun _ _ => True := by
  have hnone : t.lexicalNames = [] := List.sublist_nil.mp (hd ▸ t.lexicalNames_sublist)
  refine (heng.statement labels hscope ht (hnone ▸ .nil)).widen fun p hp => ?_
  exact absurd (hnone ▸ hp.2) List.not_mem_nil

/-! ### Declarations -/

theorem safe_runVars {declarators : List Declarator} (hscope : st.Runs scope l)
    (h : ∀ d ∈ declarators, l.place.Has (.declarator d)) :
    (eng.runVars declarators scope).Safe st fun _ _ => True := by
  refine .each fun d hd => ?_
  split
  · exact Tame.safe st
  · next e heq =>
    have he : l.place.Has (.expr e) := (h d hd).part (by simp [heq])
    exact .skip fun place => .after (safe_named hscope he) fun _ => Tame.safe st

theorem safe_runLexical {declarators : List Declarator} (hscope : st.Runs scope l)
    (h : ∀ d ∈ declarators, l.place.Has (.declarator d))
    (hpending : st.scopes.Pending scope (Stmt.declaratorNames declarators)) :
    (eng.runLexical declarators scope).SafeBut
      (scope.names {name | name ∈ Stmt.declaratorNames declarators}) st fun _ _ => True := by
  induction declarators generalizing st with
  | nil => exact .pure fun _ _ => trivial
  | cons d rest ih =>
    have hsplit : st.scopes.Pending scope ([d.name] ++ Stmt.declaratorNames rest) := hpending
    obtain ⟨kind, hfinds⟩ := hpending.finds d.name List.mem_cons_self
    have hfirst : scope.names {name | name ∈ [d.name]} ⊆
        scope.names {name | name ∈ Stmt.declaratorNames (d :: rest)} :=
      ScopeRef.names_mono fun name hname => List.mem_append_left _ hname
    refine .seq (P := fun _ _ => True) ?_ (fun _ st' hst _ => ih (hscope.mono hst)
      (fun d hd => h d (by simp [hd])) (hsplit.rest hst.steady)) hfirst
      (ScopeRef.names_mono fun name hname => List.mem_cons_of_mem _ hname)
    have hinit {st' : State} (hst : st.Precedes st') (v : Value) :
        (Eval.initialise scope d.name v).SafeBut (scope.names {name | name ∈ [d.name]}) st'
          fun _ _ => True :=
      (Eval.safe_initialise (hfinds.keep hst.steady) v).widen
        (ScopeRef.names_mono (by simp))
    dsimp only
    cases heq : d.init with
    | none => exact .bind (Tame.safe st) fun v _ hst _ => hinit hst v
    | some e =>
      have he : l.place.Has (.expr e) := (h d (by simp)).part (by simp [heq])
      exact .bind (safe_named hscope he) fun v _ hst _ => hinit hst v

theorem safe_runVariables {kind : VarKind} {declarators : List Declarator}
    (hscope : st.Runs scope l) (h : ∀ d ∈ declarators, l.place.Has (.declarator d))
    (hpending : st.scopes.Pending scope (Stmt.variables kind declarators).lexicalNames) :
    (eng.runVariables kind declarators scope).SafeBut
      (scope.names {name | name ∈ (Stmt.variables kind declarators).lexicalNames}) st
      fun _ _ => True := by
  unfold runVariables
  split
  · exact (safe_runVars hscope h).widened
  · next hkind =>
    have hnames : (Stmt.variables kind declarators).lexicalNames =
        Stmt.declaratorNames declarators := if_neg hkind
    rw [hnames] at hpending ⊢
    exact safe_runLexical hscope h hpending

theorem safe_runClass {c : ClassDef} (hscope : st.Runs scope l) (hc : l.place.Has (.classDef c))
    (hname : c.name.isSome = true) (hpending : st.scopes.Pending scope c.name.toList) :
    (eng.runClass c scope).SafeBut (scope.names {name | name ∈ c.name.toList}) st
      fun _ _ => True := by
  obtain ⟨name, hname⟩ := Option.isSome_iff_exists.mp hname
  unfold runClass
  rw [hname] at hpending ⊢
  obtain ⟨kind, hfinds⟩ := hpending.finds name List.mem_cons_self
  refine .bind (safe_evaluateClass hscope hc) fun o st' hst _ => ?_
  refine (Eval.safe_initialise (hfinds.keep hst.steady) _).widen ?_
  exact ScopeRef.names_mono (by simp)

/-! ### Conditions and loops -/

theorem safe_holds {test : Expr} (hscope : st.Runs scope l) (ht : l.place.Has (.expr test)) :
    (eng.holds test scope).Safe st fun _ _ => True :=
  .map (heng.expr hscope ht)

theorem safe_runIf {test : Expr} {yes : Stmt} (no : Option Stmt) (hscope : st.Runs scope l)
    (ht : l.place.Has (.expr test))
    (hyes : l.place.Has (.statement yes) ∧ yes.boundNames = [])
    (hno : ∀ t ∈ no, l.place.Has (.statement t) ∧ t.boundNames = []) :
    (eng.runIf test yes no scope).Safe st fun _ _ => True := by
  refine .after (safe_holds hscope ht) fun b => ?_
  split
  · exact .after (safe_single hscope hyes.1 hyes.2 []) fun _ => Tame.safe st
  · cases no with
    | none => exact Tame.safe st
    | some no =>
      obtain ⟨hno, hd⟩ := hno no rfl
      exact .after (safe_single hscope hno hd []) fun _ => Tame.safe st

theorem safe_whileTurn {test : Expr} {t : Stmt} {labels : List String} (hscope : st.Runs scope l)
    (htest : l.place.Has (.expr test)) (ht : l.place.Has (.statement t))
    (hd : t.boundNames = []) (v : Value) :
    (eng.whileTurn test t scope labels v).Safe st fun _ _ => True := by
  refine .after (safe_holds hscope htest) fun b => ?_
  split
  · exact .after (safe_single hscope ht hd []) fun _ => Tame.safe st
  · exact Tame.safe st

theorem safe_doTurn {test : Expr} {t : Stmt} {labels : List String} (hscope : st.Runs scope l)
    (htest : l.place.Has (.expr test)) (ht : l.place.Has (.statement t))
    (hd : t.boundNames = []) (v : Value) :
    (eng.doTurn t test scope labels v).Safe st fun _ _ => True := by
  refine .after (safe_single hscope ht hd []) fun c => ?_
  split
  · exact Tame.safe st
  · exact .after (safe_holds hscope htest) fun _ => Tame.safe st

/-- A loop whose turns need nothing but what holds before the loop. -/
theorem safe_loop {α β : Type} {turn : α → Eval (Turn α β)} {fuel : Nat} {a : α}
    (h : ∀ a, (turn a).Safe st fun _ _ => True) : (Eval.loop turn fuel a).Safe st fun _ _ => True :=
  Safe.loop (I := fun _ _ => True)
    (fun a _ hst _ => ((h a).mono hst).conseq fun _ _ _ _ _ _ => trivial) fuel trivial

theorem safe_nextScope {fresh : Bool} {outer : ScopeRef} (houter : st.Runs outer l)
    (hscope : st.RunsTurn fresh outer scope l) :
    (nextScope fresh scope).Safe st fun next st' => st'.RunsTurn fresh outer next l := by
  unfold nextScope
  split
  · next hfresh =>
    refine .scopes fun st' hst _ => ?_
    have houter' := houter.mono hst
    have hparent := ((hscope.inside hfresh).mono hst.toGrows).parent
    refine Eval.SafeBut.conseq (Eval.safe_newScope_inside houter'.hosts hparent rfl rfl)
      fun next st'' hst' h => ?_
    exact ⟨(houter'.mono hst').inner h, fun _ => h⟩
  · exact .pure fun _ hst => hscope.mono hst

theorem safe_forUpdate (init : ForInit) {update : Option Expr} {fresh : Bool} {outer : ScopeRef}
    (houter : st.Runs outer l) (hscope : st.RunsTurn fresh outer scope l)
    (hu : ∀ e ∈ update, l.place.Has (.expr e)) :
    (eng.forUpdate init update fresh scope).Safe st fun next st' =>
      st'.RunsTurn fresh outer next l := by
  refine .bind (safe_nextScope houter hscope) fun next st' _ hnext => ?_
  cases update with
  | none => exact .pure fun _ hst => hnext.mono hst
  | some e =>
    have hexpr : (Eval.within (.loop init) next (eng.expr e next)).Safe st' fun _ _ => True :=
      .within hnext.runs.site (heng.expr (hnext.runs.enter rfl) (hu e rfl))
    refine .after (Eval.SafeBut.map (Q := fun _ _ => True) hexpr) fun _ => ?_
    exact .pure fun _ hst => hnext.mono hst

theorem safe_forTurn (init : ForInit) {test update : Option Expr} {t : Stmt} {fresh : Bool}
    {labels : List String} {outer : ScopeRef} (houter : st.Runs outer l)
    (hscope : st.RunsTurn fresh outer scope l)
    (htest : ∀ e ∈ test, l.place.Has (.expr e)) (hu : ∀ e ∈ update, l.place.Has (.expr e))
    (ht : l.place.Has (.statement t)) (hd : t.boundNames = []) (v : Value) :
    (eng.forTurn init test update t fresh labels (scope, v)).Safe st fun turn st' =>
      ∀ a, turn = .again a → st'.RunsTurn fresh outer a.1 l := by
  have hinside {α : Type} {x : Eval α}
      (hx : x.Safe { st with site := l.enter (.loop init) scope } fun _ _ => True) :
      (Eval.within (.loop init) scope x).Safe st fun _ _ => True :=
    .within hscope.runs.site hx
  have hruns := hscope.runs.enter (a := .loop init) rfl
  unfold forTurn
  cases test
  case' none => refine .skip fun again => ?_
  case' some test => refine .after (hinside (safe_holds hruns (htest test rfl))) fun again => ?_
  -- Whether there is a test makes no difference to what follows.
  all_goals
    dsimp only
    split
    · refine .after (hinside (safe_single hruns ht hd [])) fun c => ?_
      split
      · exact .pure fun _ _ _ heq => by cases heq
      · refine .bind (safe_forUpdate init houter hscope hu) fun next st' _ hnext => ?_
        refine .pure fun _ hst a heq => ?_
        cases heq
        exact hnext.mono hst
    · exact .pure fun _ _ _ heq => by cases heq

/-- The names of a lexical declaration in the head get their values in a scope of their own. -/
theorem safe_forHead {init : ForInit} (hscope : st.Runs scope l)
    (hi : l.place.Has (.forInit init)) :
    (eng.forHead init scope).Safe st fun head st' => st'.RunsTurn head.2 scope head.1 l := by
  have hsame : (pure (scope, false) : Eval (ScopeRef × Bool)).Safe st
      fun head st' => st'.RunsTurn head.2 scope head.1 l :=
    .pure fun _ hst => ⟨hscope.mono hst, fun hfresh => by cases hfresh⟩
  have hlexical {kind : VarKind} {declarators : List Declarator} (hkind : kind ≠ .var)
      (h : ∀ d ∈ declarators, l.place.Has (.declarator d))
      (hnodup : (Stmt.declaratorNames declarators).Nodup) : (do
        let inner ← Eval.innerScope scope
        Eval.modifyScope inner (·.declareLexical (declarators.map fun d => (d.name, kind)))
        Eval.within (.loop (.variables kind declarators)) inner (eng.runLexical declarators inner)
        return (inner, kind == .letVar) : Eval (ScopeRef × Bool)).Safe st
        fun head st' => st'.RunsTurn head.2 scope head.1 l := by
    refine Safe.bindScope (fun s hs => Eval.safe_innerScope (hscope.mono hs).hosts)
      fun inner st₁ hst₁ h => ?_
    obtain ⟨hinner, hblank⟩ := h
    have hruns := (hscope.mono hst₁).inner hinner
    have hnames : (declarators.map fun d => (d.name, kind)).map Prod.fst =
        Stmt.declaratorNames declarators := by
      simp [Stmt.declaratorNames, Function.comp_def]
    have hdeclare := Eval.safe_declareLexical (hnames ▸ hnodup)
      (fun b hb => by obtain ⟨d, -, rfl⟩ := List.mem_map.mp hb; exact hkind)
      fun name _ => hblank name
    refine .seq hdeclare (fun _ st₂ hst₂ hpending => ?_) ScopeRef.names_subset_all Set.Subset.rfl
    have hruns₂ := hruns.mono hst₂
    have hinitial : (Eval.within (.loop (.variables kind declarators)) inner
        (eng.runLexical declarators inner)).SafeBut
          (inner.names {name | name ∈ Stmt.declaratorNames declarators}) st₂ fun _ _ => True :=
      .within hruns₂.site (safe_runLexical (hruns₂.enter rfl) h (hnames ▸ hpending))
    refine .seq hinitial (fun _ st₃ hst₃ _ => ?_)
      ScopeRef.names_subset_all Set.Subset.rfl
    refine .pure fun st₄ hst₄ => ⟨((hruns.mono hst₂).mono hst₃).mono hst₄, fun _ => ?_⟩
    exact ((hinner.mono hst₂.toGrows).mono hst₃.toGrows).mono hst₄.toGrows
  unfold forHead
  cases init with
  | absent => exact hsame
  | expression e => exact .after (heng.expr hscope (hi.part (by simp))) fun _ => hsame
  | «variables» kind declarators =>
    have h : ∀ d ∈ declarators, l.place.Has (.declarator d) := fun d hd => hi.part (by simp [hd])
    have hlegal : (ForInit.variables kind declarators).Legal l.place.rights := hi.legal
    cases hlegal with
    | «variables» _ hd =>
      cases kind with
      | var => exact .after (safe_runVars hscope h) fun _ => hsame
      | letVar => exact hlexical (by decide) h (hd (by decide))
      | const => exact hlexical (by decide) h (hd (by decide))

theorem safe_runFor {init : ForInit} {test update : Option Expr} {t : Stmt} {labels : List String}
    (hscope : st.Runs scope l) (hi : l.place.Has (.forInit init))
    (htest : ∀ e ∈ test, l.place.Has (.expr e)) (hu : ∀ e ∈ update, l.place.Has (.expr e))
    (ht : l.place.Has (.statement t)) (hd : t.boundNames = []) :
    (eng.runFor init test update t scope labels).Safe st fun _ _ => True := by
  refine .bind (safe_forHead hscope hi) fun (head, fresh) st₁ hst₁ hhead => ?_
  have houter₁ := hscope.mono hst₁
  refine .bind (safe_nextScope houter₁ hhead) fun first st₂ hst₂ hfirst => ?_
  have houter₂ := houter₁.mono hst₂
  exact Safe.loop (I := fun a st' => st'.RunsTurn fresh scope a.1 l)
    (fun (q, v) st' hst hq => safe_forTurn init (houter₂.mono hst) hq htest hu ht hd v) _ hfirst

/-! ### Exceptions -/

theorem safe_runHandler {param : Option String} (hscope : st.Runs scope l)
    (h : ∀ t ∈ body, l.place.Has (.statement t)) (hnodup : (Stmt.declaredNames body).Nodup)
    (v : Value) : (eng.runHandler param body scope v).Safe st fun _ _ => True := by
  refine Safe.bindScope (fun s hs => Eval.safe_innerScope (hscope.mono hs).hosts)
    fun inner st₁ hst₁ ⟨hinner, hblank⟩ => ?_
  have hruns := (hscope.mono hst₁).inner hinner
  have hparam : (param.forM fun name => Eval.modifyScope inner fun e =>
      (e.declare name .letVar).initialise name v).SafeBut (inner.all) st₁
        fun _ _ => True := by
    cases param with
    | none => exact .pure fun _ _ => trivial
    | some name =>
      exact (Eval.safe_bindName (hblank name) .letVar v).widen
        ScopeRef.names_subset_all
  refine .seq hparam (fun _ st₂ hst₂ _ => ?_) Set.Subset.rfl (Set.empty_subset _)
  have hruns₂ := hruns.mono hst₂
  exact .within hruns₂.site (safe_runBlock (hruns₂.enter rfl) h hnodup)

theorem safe_runCatch {param : Option String} {handler : List Stmt} (hscope : st.Runs scope l)
    (hb : ∀ t ∈ body, l.place.Has (.statement t)) (hd : (Stmt.declaredNames body).Nodup)
    (hh : ∀ t ∈ handler, l.place.Has (.statement t)) (hd' : (Stmt.declaredNames handler).Nodup) :
    (eng.runCatch body param handler scope).Safe st fun _ _ => True :=
  .catching (safe_runBlock hscope hb hd) fun v => safe_runHandler hscope hh hd' v

theorem safe_withFinalizer {code finalizer : Eval Completion}
    (hc : code.Safe st fun _ _ => True) (hf : finalizer.Safe st fun _ _ => True) :
    (withFinalizer code finalizer).Safe st fun _ _ => True := by
  have hattempt : (Eval.attempt code).Safe st fun _ _ => True :=
    .catching (.map hc) fun _ => Tame.safe st
  refine .after hattempt fun ending => .after hf fun c => ?_
  split <;> exact Tame.safe st

theorem safe_finishTry {code : Eval Completion} (hc : code.Safe st fun _ _ => True) :
    (finishTry code).Safe st fun _ _ => True :=
  .after hc fun _ => Tame.safe st

/-! ### Switches -/

theorem safe_matchCases {subject : Value} {cases : List SwitchCase} (hscope : st.Runs scope l)
    (h : ∀ k ∈ cases, l.place.Has (.clause k)) :
    (eng.matchCases subject scope cases).Safe st fun _ _ => True := by
  induction cases with
  | nil => exact .pure fun _ _ => trivial
  | cons k rest ih =>
    have hrest := ih fun k hk => h k (by simp [hk])
    have hk := h k (by simp)
    obtain ⟨test, body⟩ := k
    cases test with
    | none => exact hrest
    | some test =>
      refine .after (heng.expr hscope (hk.part (by simp))) fun v => ?_
      split
      · exact Tame.safe st
      · exact hrest

/-- The names that the clauses of a `switch` declare, in one scope. -/
theorem safe_declareClauses {cases : List SwitchCase} (hscope : st.Stands scope l)
    (h : ∀ k ∈ cases, l.place.Has (.clause k))
    (hnodup : (Stmt.declaredNames (cases.flatMap SwitchCase.body)).Nodup)
    (hnew : ∀ name ∈ Stmt.declaredNames (cases.flatMap SwitchCase.body),
      st.scopes.Finds scope name none) :
    (cases.forM fun k => Eval.declareBlock k.body scope).SafeBut
      (scope.names {name | name ∈ Stmt.declaredNames (cases.flatMap SwitchCase.body)}) st
      fun _ st' => st'.scopes.Pending scope
        (Stmt.lexicalNamesOf (cases.flatMap SwitchCase.body)) := by
  induction cases generalizing st with
  | nil => exact .pure fun _ _ => .nil
  | cons k rest ih =>
    have hbody (t : Stmt) (ht : t ∈ k.body) : l.place.Has (.statement t) :=
      (h k (by simp)).part (by simp [ht])
    rw [List.flatMap_cons, Stmt.declaredNames_append] at hnodup hnew ⊢
    rw [Stmt.lexicalNamesOf_append]
    obtain ⟨hfirst, hrest, hdisjoint⟩ := List.nodup_append.mp hnodup
    have hlexical {body : List Stmt} := (Stmt.lexicalNamesOf_sublist body).subset
    refine .seq (Eval.safe_declareBlock hscope hbody hfirst fun name hname =>
      hnew name (List.mem_append_left _ hname)) (fun _ st' hst hpending =>
        (ih (hscope.mono hst) (fun k hk => h k (by simp [hk])) hrest
          fun name hname => ?_).conseq fun _ st'' hst' hpending' => ?_)
      (ScopeRef.names_mono fun name hname => List.mem_append_left _ hname)
      (ScopeRef.names_mono fun name hname => List.mem_append_right _ hname)
    · refine (hnew name (List.mem_append_right _ hname)).mono hst.steady fun hp => ?_
      exact hdisjoint name hp.2 name hname rfl
    · refine (hpending.mono hst'.steady fun name hname hp => ?_).append hpending'
        fun name hname hname' => ?_
      · exact hdisjoint name (hlexical hname) name hp.2 rfl
      · exact hdisjoint name (hlexical hname) name (hlexical hname') rfl

theorem safe_clausesScope {cases : List SwitchCase} (hscope : st.Runs scope l)
    (h : ∀ k ∈ cases, l.place.Has (.clause k))
    (hnodup : (Stmt.declaredNames (cases.flatMap SwitchCase.body)).Nodup) :
    (Eval.clausesScope cases scope).Safe st fun inner st' => st'.Runs inner l ∧
      st'.scopes.Pending inner (Stmt.lexicalNamesOf (cases.flatMap SwitchCase.body)) ∧
      st.Lacks inner := by
  refine Eval.SafeBut.bindScope (fun s hs => Eval.safe_innerScope (hscope.hosts.mono hs.toGrows))
    fun inner st₁ hst₁ hlacks ⟨hinner, hblank⟩ => ?_
  have hruns := (hscope.mono hst₁).inner hinner
  have hdeclare : (Eval.within (.clauses cases) inner
      (cases.forM fun k => Eval.declareBlock k.body inner)).SafeBut
        (inner.names {name | name ∈ Stmt.declaredNames (cases.flatMap SwitchCase.body)}) st₁
        fun _ st' => st'.scopes.Pending inner
          (Stmt.lexicalNamesOf (cases.flatMap SwitchCase.body)) :=
    .withinWhere hruns.site (safe_declareClauses (hruns.stands.enter rfl) h hnodup
      fun name _ => hblank name) fun _ _ _ => id
  refine .seq hdeclare
    (fun _ st₂ hst₂ hpending => .pure fun st₃ hst₃ => ⟨?_, ?_, hlacks⟩)
    (Set.subset_union_of_subset_right ScopeRef.names_subset_all _) (Set.empty_subset _)
  · exact (hruns.mono hst₂).mono hst₃
  · exact hpending.keep hst₃.steady

theorem safe_runCases {cases : List SwitchCase} {v : Value} (hscope : st.Runs scope l)
    (h : ∀ k ∈ cases, l.place.Has (.clause k))
    (hpending : st.scopes.Pending scope
      (Stmt.lexicalNamesOf (cases.flatMap SwitchCase.body))) :
    (eng.runCases scope v cases).SafeBut
      (scope.names {name | name ∈ Stmt.lexicalNamesOf (cases.flatMap SwitchCase.body)}) st
      fun _ _ => True := by
  induction cases generalizing v st with
  | nil => exact .pure fun _ _ => trivial
  | cons k rest ih =>
    have hbody (t : Stmt) (ht : t ∈ k.body) : l.place.Has (.statement t) :=
      (h k (by simp)).part (by simp [ht])
    rw [List.flatMap_cons, Stmt.lexicalNamesOf_append] at hpending ⊢
    have hrest : scope.names
          {name | name ∈ Stmt.lexicalNamesOf (rest.flatMap SwitchCase.body)} ⊆
        scope.names {name | name ∈ Stmt.lexicalNamesOf k.body ++
          Stmt.lexicalNamesOf (rest.flatMap SwitchCase.body)} :=
      ScopeRef.names_mono fun name hname => List.mem_append_right _ hname
    refine .seq (safe_runList hscope hbody (hpending.sublist (List.sublist_append_left _ _)))
      (fun c st' hst _ => ?_)
      (ScopeRef.names_mono fun name hname => List.mem_append_left _ hname) hrest
    split
    · exact ih (hscope.mono hst) (fun k hk => h k (by simp [hk])) (hpending.rest hst.steady)
    · exact .widened (Tame.safe st')

/-- The clauses from the one that is chosen on, or from the default one. -/
theorem safe_runChosen {cases : List SwitchCase} (hscope : st.Runs scope l)
    (h : ∀ k ∈ cases, l.place.Has (.clause k))
    (hpending : st.scopes.Pending scope (Stmt.lexicalNamesOf (cases.flatMap SwitchCase.body)))
    (v : Value) :
    (do
      let chosen ← eng.matchCases v scope cases
      eng.runCases scope .undefined (chosen.getD (defaultCases cases))).SafeBut
        (scope.names {name | name ∈ Stmt.lexicalNamesOf (cases.flatMap SwitchCase.body)}) st
        fun _ _ => True := by
  refine .bind (((safe_matchCases hscope h).ends (ends_matchCases v scope cases)).widen
    (Set.empty_subset _)) fun chosen st' hst ⟨_, hchosen⟩ => ?_
  have hsuffix := suffix_chosen hchosen
  have hsublist : (Stmt.lexicalNamesOf ((chosen.getD (defaultCases cases)).flatMap
      SwitchCase.body)).Sublist (Stmt.lexicalNamesOf (cases.flatMap SwitchCase.body)) :=
    ((hsuffix.flatMap _).flatMap _).sublist
  exact (safe_runCases (hscope.mono hst) (fun k hk => h k (hsuffix.subset hk))
    ((hpending.keep hst.steady).sublist hsublist)).widen
      (ScopeRef.names_mono fun name hname => hsublist.subset hname)

theorem safe_runSwitch {subject : Expr} {cases : List SwitchCase} (hscope : st.Runs scope l)
    (hs : l.place.Has (.expr subject)) (h : ∀ k ∈ cases, l.place.Has (.clause k))
    (hnodup : (Stmt.declaredNames (cases.flatMap SwitchCase.body)).Nodup) :
    (eng.runSwitch subject cases scope).Safe st fun _ _ => True := by
  refine .after (heng.expr hscope hs) fun v => ?_
  refine .bindNew (fun s hs => safe_clausesScope (hscope.mono hs) h hnodup)
    (fun s inner s' _ _ ⟨hruns, hpending, _⟩ => .within hruns.site
      (safe_runChosen (hruns.enter (a := .clauses cases) rfl) h hpending v))
    fun s inner s' ⟨_, _, hlacks⟩ p hp => .inr (hp.1 ▸ hlacks)

/-! ### All statements -/

/-- The step of the induction on fuel for statements, one case for each kind. -/
theorem safe_run {t : Stmt} {labels : List String} (hscope : st.Runs scope l)
    (ht : l.place.Has (.statement t)) (hpending : st.scopes.Pending scope t.lexicalNames) :
    (eng.run t scope labels).SafeBut (scope.names {name | name ∈ t.lexicalNames}) st
      fun _ _ => True := by
  have := heng.settled
  rw [run_eq]
  have part {p : Part} (h : p ∈ t.parts) : l.place.Has p := ht.part h
  obtain ⟨_, hlegal⟩ := ht.legal
  cases hlegal with
  | empty | debugger | function | breaks | breaksLabel | continues | continuesLabel =>
    exact .widened (Tame.safe (x := pure _) st)
  | expression | throws =>
    exact .after (heng.expr hscope (part (by simp))) fun _ => .widened (Tame.safe st)
  | block _ hd =>
    exact .widened (safe_runBlock hscope (fun t ht => part (by simp [ht])) hd.distinct)
  | «variables» =>
    exact .before (safe_runVariables hscope (fun d hd => part (by simp [hd])) hpending)
  | ifThen _ _ hd =>
    exact .widened (safe_runIf none hscope (part (by simp)) ⟨part (by simp), hd⟩ (by simp))
  | ifElse _ _ _ hd =>
    refine .widened (safe_runIf (some _) hscope (part (by simp)) ⟨part (by simp), hd.1⟩
      fun t ht => ?_)
    cases ht
    exact ⟨part (by simp), hd.2⟩
  | whileLoop _ _ hd =>
    exact .widened (safe_loop (safe_whileTurn hscope (part (by simp)) (part (by simp)) hd))
  | doLoop _ _ hd =>
    exact .widened (safe_loop (safe_doTurn hscope (part (by simp)) (part (by simp)) hd))
  | forLoop _ _ _ _ hd =>
    exact .widened (safe_runFor hscope (part (by simp)) (fun e he => part (by simp_all))
      (fun e he => part (by simp_all)) (part (by simp)) hd)
  | @returns _ _ e =>
    cases e with
    | none => exact .widened (Tame.safe (x := pure _) st)
    | some e => exact .after (heng.expr hscope (part (by simp))) fun _ => .widened (Tame.safe st)
  | tryCatch _ _ hd hd' =>
    exact .widened (safe_finishTry (safe_runCatch hscope (fun t ht => part (by simp [ht]))
      hd.distinct (fun t ht => part (by simp [ht])) hd'.distinct))
  | tryFinally _ _ hd hd' =>
    exact .widened (safe_finishTry (safe_withFinalizer
      (safe_runBlock hscope (fun t ht => part (by simp [ht])) hd.distinct)
      (safe_runBlock hscope (fun t ht => part (by simp [ht])) hd'.distinct)))
  | tryCatchFinally _ _ _ hd hd' hd'' =>
    exact .widened (safe_finishTry (safe_withFinalizer
      (safe_runCatch hscope (fun t ht => part (by simp [ht])) hd.distinct
        (fun t ht => part (by simp [ht])) hd'.distinct)
      (safe_runBlock hscope (fun t ht => part (by simp [ht])) hd''.distinct)))
  | switch _ _ hd =>
    exact .widened (safe_runSwitch hscope (part (by simp)) (fun k hk => part (by simp [hk]))
      hd.distinct)
  | labeled _ _ hd =>
    exact .after (safe_single hscope (part (by simp)) hd _) fun _ => .widened (Tame.safe st)
  | classDecl _ hd => exact .before (safe_runClass hscope (part (by simp)) hd hpending)

end Engine

end Ecma
