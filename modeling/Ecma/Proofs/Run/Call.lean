import Ecma.Eval.Script
import Ecma.Proofs.Run.Builtin
import Ecma.Proofs.Run.Statement

/-! Calls and constructions are tame: the scope of a call grants what the code of the function uses,
and the body of a function never ends in a jump. With that the whole evaluator is sound, and every
legal script is safe. -/

namespace Ecma

namespace Engine

open Eval (Tame Safe)

variable [Vigil] {eng : Engine} [heng : eng.Sound] {st : State} {p scope : ScopeRef} {l : Site}
  {callee : ObjectRef} {f : ScriptFunction} {args : List Value} {superProperty superCall : Bool}

/-! ### Calls -/

theorem safe_newCallScope {s : State} {this : Option Value} {target : Option ObjectRef}
    (superProperty superCall : Bool) (hs : st.Precedes s) (hscope : st.Hosts scope l)
    (hcallee : st.heap.scriptFunction? callee = some f)
    (hhome : superProperty = true → f.homeObject.isSome = true)
    (htarget : superCall = true → target.isSome = true) :
    (Eval.newScope { parent := some scope, function := some ⟨this, callee, target⟩ }).Safe s
      fun q s' => s.Lacks q ∧ s'.Calls scope q f.code superProperty superCall ∧
        s'.scopes.Blank q := by
  refine (Eval.safe_newScope (hscope.mono hs.toGrows) rfl).conseq
    fun q s' hs' ⟨hlacks, hlt, hrange, hq⟩ => ?_
  obtain ⟨f', hf', elements, rfl⟩ := (hs.trans hs').functions callee f hcallee
  exact ⟨hlacks, ⟨by rw [hq], hlt, by rw [hq], ⟨this, callee, target⟩, _, by rw [hq], hf', rfl,
    hhome, htarget⟩, .of_get hrange hq rfl⟩

/-- No body is left by a jump, so none is noted. What it binds is in the scope of the call or inside
it. -/
theorem safe_runBody {d : FunctionDef}
    (hcalls : st.Calls p scope (.script d) superProperty superCall) (hscope : st.Hosts p l)
    (hd : l.place.Has (.function d superProperty superCall)) (hblank : st.scopes.Blank scope) :
    (Eval.atSite (l.enter (.function d superProperty superCall) scope)
      (eng.runBody callee d scope args)).SafeBut (scope.all) st fun _ _ => True := by
  refine .atSite ?_
  let l' := l.enter (.function d superProperty superCall) scope
  have hruns : State.Runs
      { st with contexts := ⟨d.strict, some callee⟩ :: st.contexts, site := l' } scope l' :=
    ⟨⟨rfl, .call hcalls hscope⟩, rfl⟩
  obtain ⟨-, hlegal, hnames⟩ := hd.legal
  refine .inContext (.bindNew (fun s hs => Eval.safe_instantiateBody (hruns.mono hs)
    (fun t ht => hd.body ht) hnames.distinct fun name => ?_) (fun s inner st' hs _ h => ?_)
    fun s inner s' h p (hp : p ∈ inner.names {name | name ∈ Stmt.lexicalNamesOf d.body}) =>
      .inr (hp.1 ▸ h.isNew))
  · exact Scopes.Finds.keep (hblank name) hs.steady
  have hends := ends_runList heng.jumps inner none hlegal
  refine .seq ((safe_runList h.runs (fun t ht => hd.body ht) h.pending).ends hends)
    (fun ending st'' _ ⟨_, hending⟩ => ?_) Set.Subset.rfl (Set.empty_subset _)
  dsimp only
  rw [hending.not_isJump, if_neg Bool.false_ne_true]
  exact Tame.safe st''

/-- A function that is called serves its code: one that uses `super()` is a class constructor,
which cannot be called. -/
theorem safe_callScript {this : Value} (hcallee : st.heap.scriptFunction? callee = some f)
    (hf : f.Fits st.toStore) : (eng.callScript callee f this args).Safe st fun _ _ => True := by
  unfold callScript
  dsimp only
  by_cases hsource : f.classSource.isSome = true
  · rw [if_pos hsource]
    exact .skip fun name => .raise_bind
  · rw [if_neg hsource]
    cases hcode : f.code with
    | defaultConstructor => exact Tame.safe st
    | script d =>
      refine .skip fun this => ?_
      refine Safe.bindScope (fun s hs => safe_newCallScope f.homeObject.isSome
        (f.constructorKind == some .derived) hs hf.hosts hcallee id fun h =>
          absurd (hf.derived (eq_of_beq h)) hsource) fun q st' hst ⟨hq, hblank⟩ => ?_
      refine .seq (safe_runBody (hcode ▸ hq) (hf.hosts.mono hst.toGrows) (hf.stands d hcode) hblank)
        (fun ending st'' _ _ => ?_) Set.Subset.rfl (Set.empty_subset _)
      split <;> exact Tame.safe st''

instance (callee : ObjectRef) (this : Value) (args : List Value) :
    (eng.callObject callee this args).Tame := by
  refine ⟨fun st => .heap fun st' _ hsound => ?_⟩
  split
  · exact Tame.safe st'
  · next f hkind =>
    have hcallee := Store.scriptFunction?_eq_some_iff.mpr hkind
    exact .inCall (safe_callScript hcallee (hsound.functions callee f hcallee))
  · exact Tame.safe st'

/-! ### Construction -/

/-- The code of a constructor: the default one of a derived class calls its parent. -/
theorem safe_runConstructor {kind : ConstructorKind} (hf : f.Fits st.toStore)
    (hcalls : st.Calls f.scope scope f.code superProperty superCall)
    (hscript : ∀ d, f.code = .script d → superProperty = f.homeObject.isSome ∧
      superCall = (f.constructorKind == some .derived))
    (hdefault : f.code = .defaultConstructor → superCall = true)
    (hblank : st.scopes.Blank scope) :
    (eng.runConstructor callee f kind scope args).SafeBut (scope.all) st
      fun _ _ => True := by
  unfold runConstructor
  split
  · next d hcode =>
    obtain ⟨rfl, rfl⟩ := hscript d hcode
    exact safe_runBody (hcode ▸ hcalls) hf.hosts (hf.stands d hcode) hblank
  · next hcode =>
    obtain rfl := hdefault hcode
    obtain ⟨call, _, hfunction, -⟩ := hcalls.function
    have hhere : st.InCall scope scope := .here (by simp [hfunction])
    have hsuper : (eng.superCall scope args).Safe
        { st with contexts := ⟨true, some callee⟩ :: st.contexts } fun _ _ => True :=
      safe_superCall hhere hcalls
    exact .inContext (.after hsuper fun _ => .widened (Tame.safe _))
  · exact .widened (Tame.safe st)

instance (callee : ObjectRef) (kind : ConstructorKind) (target : ObjectRef) :
    (eng.startingObject callee kind target).Tame := by
  cases kind <;> (unfold startingObject; infer_instance)

/-- A function that constructs serves all code: there is a target of `new`. -/
theorem safe_constructScript {kind : ConstructorKind} {target : ObjectRef}
    (hcallee : st.heap.scriptFunction? callee = some f) (hf : f.Fits st.toStore) :
    (eng.constructScript callee f kind args target).Safe st fun _ _ => True := by
  obtain ⟨superCall, hscript, hdefault⟩ : ∃ superCall,
      (∀ d, f.code = .script d → superCall = (f.constructorKind == some .derived)) ∧
        (f.code = .defaultConstructor → superCall = true) := by
    cases f.code with
    | defaultConstructor => exact ⟨true, fun _ h => (by cases h), fun _ => rfl⟩
    | script d => exact ⟨_, fun _ _ => rfl, fun h => by cases h⟩
  refine .skip fun this => ?_
  refine Safe.bindScope (fun s hs => safe_newCallScope f.homeObject.isSome superCall hs hf.hosts
    hcallee id fun _ => rfl) fun q st' hst hnew => ?_
  obtain ⟨hq, hblank⟩ := hnew
  exact .before (safe_runConstructor (hf.mono hst.toGrows) hq
    (fun d hd => ⟨rfl, hscript d hd⟩) hdefault hblank)

instance (callee : ObjectRef) (args : List Value) (target : ObjectRef) :
    (eng.constructObject callee args target).Tame := by
  refine ⟨fun st => .heap fun st' _ hsound => ?_⟩
  split
  · exact Tame.safe st'
  · next f hkind =>
    have hcallee := Store.scriptFunction?_eq_some_iff.mpr hkind
    split
    · exact .inCall (safe_constructScript hcallee (hsound.functions callee f hcallee))
    · exact Tame.safe st'
  · exact Tame.safe st'

/-! ### The whole evaluator -/

/-- A lookout that is safe wherever the evaluator is entered. -/
structure Watches (watch : Entry → Eval Unit) : Prop where
  settled : ∀ entry, (watch entry).Obeys .settled
  call : ∀ f this args, (watch (.call f this args)).Tame
  construct : ∀ f args target, (watch (.construct f args target)).Tame
  expr : ∀ {st : State} {scope : ScopeRef} {l : Site} {e : Expr}, st.Runs scope l →
    l.place.Has (.expr e) → (watch (.expr e scope)).Safe st fun _ _ => True
  statement : ∀ {st : State} {scope : ScopeRef} {l : Site} {t : Stmt} (labels : List String),
    st.Runs scope l → l.place.Has (.statement t) →
    (watch (.statement t scope labels)).Safe st fun _ _ => True

theorem sound_watched {watch : Entry → Eval Unit} (h : Watches watch) (n : Nat) :
    (watched watch n).Sound := by
  induction n with
  | zero =>
    exact ⟨fun _ _ _ => inferInstanceAs (Tame (throw _)),
      fun _ _ _ => inferInstanceAs (Tame (throw _)), fun _ _ => .throw, fun _ _ _ _ => .throw,
      jumps_watched h.settled 0, Engine.abides_watched h.settled 0⟩
  | succ n ih =>
    exact {
      call := fun f receiver args =>
        have := h.call f receiver args
        .bind fun _ => inferInstanceAs ((watched watch n).callObject f receiver args).Tame
      construct := fun f args target =>
        have := h.construct f args target
        .bind fun _ => inferInstanceAs ((watched watch n).constructObject f args target).Tame
      expr := fun hscope he => .after (h.expr hscope he) fun _ => safe_evaluate hscope he
      statement := fun labels hscope ht hpending =>
        .after (h.statement labels hscope ht) fun _ => safe_run hscope ht hpending
      jumps := jumps_watched h.settled (n + 1)
      settled := abides_watched h.settled (n + 1) }

theorem sound_ofFuel (n : Nat) : (ofFuel n).Sound := by
  have hidle : Watches fun _ => pure () :=
    ⟨fun _ => inferInstance, fun _ _ _ => inferInstance, fun _ _ _ => inferInstance,
      fun _ _ => Tame.safe _, fun _ _ _ => Tame.safe _⟩
  rw [← watched_idle]
  exact sound_watched hidle n

instance (n : Nat) : (ofFuel n).Sound :=
  sound_ofFuel n

/-! ### Scripts -/

/-- A script that goes on binds lexical names that are new. -/
theorem safe_checkGlobalNames (p : Program) :
    (Eval.checkGlobalNames p).Safe st fun _ st' => ∀ name ∈ Stmt.lexicalNamesOf p.body,
      st'.scopes.Finds Intrinsic.globalScope name none := by
  have hname (name : String) : (do
      let bound ← Eval.scopes fun s => (s.get Intrinsic.globalScope).has name
      let fixed ← Eval.heap fun h =>
        (h.getOwn? Intrinsic.globalObject name).any (!·.isConfigurable)
      if bound || fixed then Eval.raise (.redeclared name) : Eval Unit).Safe st fun _ st' =>
        st'.scopes.Finds Intrinsic.globalScope name none := by
    refine .scopes fun st' _ hsound => .after (Tame.safe st') fun fixed => ?_
    split
    · exact .raise
    · next hfree =>
      rw [Bool.not_eq_true, Bool.or_eq_false_iff] at hfree
      have hfinds : st'.scopes.Finds Intrinsic.globalScope name none :=
        ⟨hsound.scopes, Option.not_isSome_iff_eq_none.mp (Bool.eq_false_iff.mp hfree.1)⟩
      exact .pure fun st'' hst => hfinds.keep hst.steady
  refine .bind (Safe.forM (fun name _ _ hst h => h.keep hst.steady)
    fun name _ => hname name) fun _ st' _ h => ?_
  refine (Tame.safe st').conseq fun _ st'' hst _ name hmem => ?_
  exact (h name hmem).keep hst.steady

theorem safe_declareGlobalFunction {p : Program} {d : FunctionDef} (hsite : st.site = ⟨p, []⟩)
    (hd : Place.Has ⟨p, []⟩ (.function d false false)) :
    (eng.declareGlobalFunction d).Safe st fun _ _ => True :=
  .after (Eval.safe_instantiateFunction ⟨hsite, .global⟩ hd) fun _ => Tame.safe st

instance (name : String) : (declareGlobalVar name).Tame := by
  unfold declareGlobalVar; infer_instance

omit [Vigil] in
theorem subset_lastFunctions (functions : List FunctionDef) :
    Eval.lastFunctions functions ⊆ functions := by
  induction functions with
  | nil => exact fun _ h => h
  | cons f rest ih =>
    intro g hg
    simp only [Eval.lastFunctions, List.foldr_cons] at hg
    split at hg
    · exact List.mem_cons_of_mem f (ih hg)
    · rcases List.mem_cons.mp hg with rfl | hg
      · exact List.mem_cons_self
      · exact List.mem_cons_of_mem f (ih hg)

theorem safe_declareGlobals {p : Program} (hp : p.Legal) (hsite : st.site = ⟨p, []⟩) :
    (eng.declareGlobals p).SafeBut
      (Intrinsic.globalScope.names {name | name ∈ Stmt.lexicalNamesOf p.body}) st fun _ st' =>
        st'.scopes.Pending Intrinsic.globalScope (Stmt.lexicalNamesOf p.body) := by
  refine .bind (safe_checkGlobalNames p) fun _ st₁ hst₁ hnew => ?_
  have hlexical : (Eval.modifyScope Intrinsic.globalScope
      (·.declareLexical (Stmt.lexicalBindingsOf p.body))).SafeBut
        (Intrinsic.globalScope.names {name | name ∈ Stmt.lexicalNamesOf p.body}) st₁ fun _ st' =>
          st'.scopes.Pending Intrinsic.globalScope (Stmt.lexicalNamesOf p.body) := by
    have hnodup : (Stmt.lexicalNamesOf p.body).Nodup := hp.names.distinct
    rw [← Stmt.map_fst_lexicalBindingsOf] at hnodup hnew ⊢
    exact Eval.safe_declareLexical hnodup (fun b => Stmt.ne_var_of_mem_lexicalBindingsOf) hnew
  refine .skip fun _ => .skip fun _ => .seq hlexical (fun _ st₂ hst₂ hpending => ?_) Set.Subset.rfl
    (Set.empty_subset _)
  have hsite₂ : st₂.site = ⟨p, []⟩ := hst₂.site.trans (hst₁.site.trans hsite)
  refine .bind (.each fun d hd => safe_declareGlobalFunction hsite₂ ?_) fun _ st₃ hst₃ _ => ?_
  · exact Place.Has.functionsOf (fun _ => .script hp.accepted) d (subset_lastFunctions _ hd)
  refine (Tame.safe st₃).conseq fun _ st₄ hst₄ _ => ?_
  exact hpending.keep (hst₃.trans hst₄).steady

/-- A script binds names in the global scope. -/
theorem safe_runProgram (eng : Engine) [eng.Sound] {p : Program} (hp : p.Legal) :
    (eng.runProgram p).SafeBut
      (Intrinsic.globalScope.names {name | name ∈ Stmt.lexicalNamesOf p.body}) st
      fun _ _ => True := by
  have hruns : State.Runs
      { st with contexts := ⟨p.strict, none⟩ :: st.contexts, site := ⟨p, []⟩ }
      Intrinsic.globalScope ⟨p, []⟩ := ⟨⟨rfl, .global⟩, rfl⟩
  refine .inContext (.atSite ?_)
  exact .seq (safe_declareGlobals hp rfl) (fun _ st' hst hpending =>
    safe_runList (hruns.mono hst) (fun _ => .script hp.accepted) hpending) Set.Subset.rfl
      Set.Subset.rfl

theorem safe_runScript (eng : Engine) [eng.Sound] {p : Program} (hp : p.Legal) :
    (eng.runScript p).SafeBut Set.univ st fun _ _ => True := by
  refine .seq (safe_runProgram eng hp) (fun c st' _ _ => ?_) (Set.subset_univ _)
    (Set.empty_subset _)
  split <;> exact Tame.safe st'

theorem safe_runSource (eng : Engine) [eng.Sound] (source : String) :
    (eng.runSource source).SafeBut Set.univ st fun _ _ => True := by
  unfold runSource
  split
  · next p hparse => exact safe_runScript eng (Program.legal_of_parse hparse)
  · exact .raise

instance (v : Value) : (eng.format v).Tame := by
  unfold format
  split
  · infer_instance
  · refine .bind fun kind => ?_
    split <;> infer_instance

end Engine

end Ecma
