import Ecma.Proofs.Scope.Standing

/-! Code that is run in a scope comes by itself, and not in the functions that it calls, only to its
own parts, in scopes inside that one; and the scopes in between bind the names that are bound
between the parts in the text, and no others. -/

namespace Ecma

/-- Code stays in its scopes: calls retain what is there, and so does code that is run where it
stands, or in a call. -/
class Engine.Stays (a : Outset) (eng : Engine) : Prop extends eng.Obeys (.retaining a.depth) where
  expr : ∀ e q, Eval.Rests (a.standsAt q (.expr e)) (eng.expr e q)
  statement : ∀ t q labels, Eval.Rests (a.standsAt q (.statement t)) (eng.statement t q labels)

namespace Eval

variable {a : Outset} {α β : Type} {x : Eval α} {own : Bool} {p q : ScopeRef} {whole part' : Part}
  {names : List String} {around : Around}

/-- What is done for a part is done for the one that it is a part of. -/
theorem Rests.part (h : Rests (a.standsAt q part') x) (hpart : ([], part') ∈ whole.inner) :
    Rests (a.standsAt q whole) x :=
  h.mono fun _ => Outset.standsAt_inner hpart

theorem Rests.inside (h : Rests (a.standsAt q part') x) (hpart : ([around], part') ∈ whole.inner) :
    Rests (a.standsIn q around whole) x :=
  h.mono fun _ => Outset.standsAt_of_standsIn hpart

theorem Rests.ofPart (part' : Part) [h : Rests (a.standsAt q part') x]
    (hpart : ([], part') ∈ whole.inner) : Rests (a.standsAt q whole) x :=
  h.part hpart

theorem Rests.ofInner (part' : Part) [h : Rests (a.standsAt q part') x]
    (hpart : ([around], part') ∈ whole.inner) : Rests (a.standsIn q around whole) x :=
  h.inside hpart

theorem Opens.leaves {x : Eval ScopeRef} (h : Opens a.depth own p names x) :
    Leaves (a.standsAt p whole) x fun q s => (a.opens own p q names whole).Holds s := by
  refine fun s hs => (h s hs.1).imp (fun _ h => h) fun q s' hs' hq =>
    ⟨hs'.callDepth ▸ hs.1, fun hdepth => ?_⟩
  obtain ⟨frames, hp⟩ := hs.2 (hs'.callDepth ▸ hdepth)
  exact ⟨frames, hp.lasts hs', hq hp.leads.lt⟩

/-- A scope is opened, and code is run in it. -/
theorem Rests.open {x : Eval ScopeRef} {f : ScopeRef → Eval β} (h : Opens a.depth own p names x)
    (hf : ∀ q, Rests (a.opens own p q names whole) (f q)) :
    Rests (a.standsAt p whole) (x >>= f) :=
  ⟨.bind h.leaves fun q => (hf q).leaves⟩

end Eval

namespace Engine

open Eval (Rests)

variable {a : Outset} {eng : Engine} [heng : eng.Stays a] {q : ScopeRef} {part : Part}
  {I : Standing a.depth}

instance (e : Expr) : Rests (a.standsAt q (.expr e)) (eng.expr e q) := heng.expr e q

instance (t : Stmt) (labels : List String) :
    Rests (a.standsAt q (.statement t)) (eng.statement t q labels) :=
  heng.statement t q labels

theorem rests_expr {e : Expr} (h : ([], .expr e) ∈ part.inner) :
    Rests (a.standsAt q part) (eng.expr e q) :=
  (heng.expr e q).part h

/-! ### Keys and references -/

instance (e : Expr) [Rests I (eng.expr e q)] : Rests I (eng.computedKey e q) := by
  unfold computedKey; infer_instance

instance (name : PropertyName) : Rests (a.standsAt q (.name name)) (eng.propertyKey name q) := by
  unfold propertyKey
  split
  · infer_instance
  · infer_instance
  · infer_instance
  · next e =>
    have he : Rests (a.standsAt q (.name (.computed e))) (eng.expr e q) := rests_expr (by simp)
    infer_instance

instance (key : MemberKey) : Rests (a.standsAt q (.key key)) (eng.memberKey key q) := by
  unfold memberKey
  split
  · infer_instance
  · next e =>
    have he : Rests (a.standsAt q (.key (.computed e))) (eng.expr e q) := rests_expr (by simp)
    infer_instance
  · infer_instance

instance (object : Expr) (name : String) [Rests I (eng.expr object q)] :
    Rests I (eng.privateReference object name q) := by
  refine .bind fun base => .bind fun found => ?_
  split <;> infer_instance

instance (object : Expr) (key : MemberKey) [Rests I (eng.expr object q)]
    [Rests I (eng.memberKey key q)] : Rests I (eng.memberReference object key q) := by
  refine .bind fun base => ?_
  dsimp only
  split
  · split <;> infer_instance
  · infer_instance

instance (key : MemberKey) [Rests I (eng.memberKey key q)] :
    Rests I (eng.superReference key q) := by
  refine .bind fun this => .bind fun key => .bind fun home => ?_
  split <;> infer_instance

instance (e : Expr) : Rests (a.standsAt q (.expr e)) (eng.reference e q) := by
  have hkey (whole : Expr) (key : MemberKey) (h : .key key ∈ whole.parts) :
      Rests (a.standsAt q (.expr whole)) (eng.memberKey key q) :=
    Rests.ofPart (.key key) (by simpa using h)
  unfold reference
  split
  · infer_instance
  · next object name =>
    have ho : Rests (a.standsAt q (.expr (.member object (.privateName name))))
        (eng.expr object q) := rests_expr (by simp)
    infer_instance
  · next object key _ =>
    have ho : Rests (a.standsAt q (.expr (.member object key))) (eng.expr object q) :=
      rests_expr (by simp)
    have hk := hkey (.member object key) key (by simp)
    infer_instance
  · next key =>
    have hk := hkey (.superMember key) key (by simp)
    infer_instance
  · infer_instance

/-! ### Classes -/

theorem rests_heritage {c : ClassDef} (he : ∀ e ∈ c.heritage, Rests I (eng.expr e q)) :
    Rests I (eng.heritage c q) := by
  unfold heritage
  split
  · infer_instance
  · next e heq =>
    have hexpr := he e heq
    refine .bind fun v => ?_
    split
    · infer_instance
    · infer_instance
    · refine .bind fun isConstructor => ?_
      split
      · refine .bind fun prototype => ?_
        split <;> infer_instance
      · infer_instance

instance (constructor prototype : ObjectRef) (privates : ClassPrivates) (m : ClassElement) :
    Rests (a.standsAt q (.element m)) (eng.defineElement q constructor prototype privates m) := by
  cases m with
  | publicElement name kind f isStatic =>
    have hkey : Rests (a.standsAt q (.element (.publicElement name kind f isStatic)))
        (eng.propertyKey name q) := Rests.ofPart (.name name) (by simp)
    unfold defineElement
    dsimp only
    infer_instance
  | privateElement spelling kind f isStatic =>
    refine .bind fun o => .bind fun found => ?_
    split <;> infer_instance

instance (c : ClassDef) (name : String) :
    Rests (a.standsAt q (.classDef c)) (eng.evaluateClass c q name) := by
  refine .open (Eval.opens_classScope c q) fun inner => ?_
  have hheritage : Rests (a.standsIn inner (.heritage c) (.classDef c)) (eng.heritage c inner) :=
    rests_heritage fun e he => (heng.expr e inner).inside (by simp [Option.mem_def.mp he])
  have hentered : Rests (a.opens false q inner c.name.toList (.classDef c))
      (Eval.within (.heritage c) inner (eng.heritage c inner)) := hheritage.within _
  refine .bind fun parents => Rests.within (.classBody c) ?_
  refine .bind fun prototype => .bind fun o => ?_
  have helements : Rests (a.standsIn inner (.classBody c) (.classDef c))
      (c.elements.foldlM (eng.defineElement inner o prototype) {}) :=
    .foldlM (fun m hm privates => Rests.ofInner (.element m) (by simp [hm])) _
  infer_instance

/-! ### Expressions -/

instance (e : Expr) (name : Units) : Rests (a.standsAt q (.expr e)) (eng.named e q name) := by
  unfold named
  split
  · split
    · infer_instance
    · next c _ =>
      have hclass : Rests (a.standsAt q (.expr (.classExpr c)))
          (eng.evaluateClass c q name.text) :=
        Rests.ofPart (.classDef c) (by simp)
      infer_instance
    · infer_instance
  · infer_instance

theorem rests_arguments {args : List Expr} (h : ∀ e ∈ args, ([], .expr e) ∈ part.inner) :
    Rests (a.standsAt q part) (eng.arguments args q) :=
  .mapM fun e he => rests_expr (h e he)

instance (o : ObjectRef) (name : PropertyName) (kind : MethodKind) (f : FunctionDef)
    [Rests I (eng.propertyKey name q)] : Rests I (eng.defineMethod o name kind f q) := by
  unfold defineMethod; infer_instance

instance (o : ObjectRef) (p : PropertyDef) :
    Rests (a.standsAt q (.property p)) (eng.defineProperty o q p) := by
  have hkey (name : PropertyName) (h : .name name ∈ (Part.property p).parts) :
      Rests (a.standsAt q (.property p)) (eng.propertyKey name q) :=
    Rests.ofPart (.name name) (by simpa using h)
  cases p with
  | init name e =>
    have hname := hkey name (by simp)
    have he : Rests (a.standsAt q (.property (.init name e))) (eng.expr e q) :=
      rests_expr (by simp)
    have hnamed (s : Units) : Rests (a.standsAt q (.property (.init name e)))
        (eng.named e q s) := Rests.ofPart (.expr e) (by simp)
    unfold defineProperty
    infer_instance
  | method name f | getter name f | setter name f =>
    have hname := hkey name (by simp)
    unfold defineProperty
    infer_instance

instance (properties : List PropertyDef) :
    Rests (a.standsAt q (.expr (.object properties))) (eng.objectLiteral properties q) := by
  have hproperties (o : ObjectRef) : Rests (a.standsAt q (.expr (.object properties)))
      (properties.forM (eng.defineProperty o q)) :=
    .forM fun p hp => Rests.ofPart (.property p) (by simp [hp])
  unfold objectLiteral
  infer_instance

instance (e : Expr) : Rests (a.standsAt q (.expr e)) (eng.callee e q) := by
  unfold callee; infer_instance

instance (e : Expr) (args : List Expr) :
    Rests (a.standsAt q (.expr (.call e args))) (eng.callExpression e args q) := by
  have he : Rests (a.standsAt q (.expr (.call e args))) (eng.callee e q) :=
    Rests.ofPart (.expr e) (by simp)
  have hargs : Rests (a.standsAt q (.expr (.call e args))) (eng.arguments args q) :=
    rests_arguments fun e he => by simp [he]
  refine .bind fun (f, this) => .bind fun args => ?_
  cases f <;> infer_instance

instance (e : Expr) (args : List Expr) :
    Rests (a.standsAt q (.expr (.construct e args))) (eng.newExpression e args q) := by
  have he : Rests (a.standsAt q (.expr (.construct e args))) (eng.expr e q) :=
    rests_expr (by simp)
  have hargs : Rests (a.standsAt q (.expr (.construct e args))) (eng.arguments args q) :=
    rests_arguments fun e he => by simp [he]
  refine .bind fun v => .bind fun args => ?_
  split <;> infer_instance

instance (args : List Expr) :
    Rests (a.standsAt q (.expr (.superCall args))) (eng.superExpression args q) := by
  have hargs : Rests (a.standsAt q (.expr (.superCall args))) (eng.arguments args q) :=
    rests_arguments fun e he => by simp [he]
  unfold superExpression
  infer_instance

instance (op : UpdateOp) (first : Bool) (target : Expr) [Rests I (eng.reference target q)] :
    Rests I (eng.updateExpression op first target q) := by
  refine .bind fun r => .bind fun v => .bind fun old => ?_
  split <;> infer_instance

instance (r : Reference) (target value : Expr) [∀ name, Rests I (eng.named value q name)] :
    Rests I (eng.assignTo r target value q) := by
  unfold assignTo; infer_instance

instance (op : AssignOp) (target value : Expr) [Rests I (eng.reference target q)]
    [Rests I (eng.expr value q)] [∀ name, Rests I (eng.named value q name)] :
    Rests I (eng.assignExpression op target value q) := by
  refine .bind fun r => ?_
  split
  · infer_instance
  · infer_instance
  · refine .bind fun current => .bind fun operand => ?_
    split <;> infer_instance

instance (op : BinaryOp) (left right : Expr) [Rests I (eng.expr left q)]
    [Rests I (eng.expr right q)] : Rests I (eng.binaryExpression op left right q) := by
  unfold binaryExpression; infer_instance

instance (e : Expr) [Rests I (eng.expr e q)] : Rests I (eng.typeOf e q) := by
  unfold typeOf
  split
  · refine .bind fun r => ?_
    split <;> infer_instance
  · infer_instance

instance (e : Expr) [Rests I (eng.reference e q)] : Rests I (eng.deleteMember e q) := by
  refine .bind fun r => ?_
  split <;> infer_instance

instance (e : Expr) : Rests (a.standsAt q (.expr e)) (eng.deleteExpression e q) := by
  unfold deleteExpression
  split <;> infer_instance

instance (e : Expr) : Rests (a.standsAt q (.expr e)) (eng.readExpression e q) := by
  unfold readExpression; infer_instance

/-- Whatever an expression evaluates by itself is one of its parts. -/
instance (e : Expr) : Rests (a.standsAt q (.expr e)) (eng.evaluate e q) := by
  have hexpr (part : Expr) (h : .expr part ∈ e.parts) :
      Rests (a.standsAt q (.expr e)) (eng.expr part q) := rests_expr (by simpa using h)
  have hreference (part : Expr) (h : .expr part ∈ e.parts) :
      Rests (a.standsAt q (.expr e)) (eng.reference part q) :=
    Rests.ofPart (.expr part) (by simpa using h)
  have hnamed (part : Expr) (h : .expr part ∈ e.parts) (name : Units) :
      Rests (a.standsAt q (.expr e)) (eng.named part q name) :=
    Rests.ofPart (.expr part) (by simpa using h)
  cases e with
  | literal l | identifier name | thisValue | member object key | superMember key
  | object properties | function f | call callee args | superCall args | construct callee args =>
    unfold evaluate
    infer_instance
  | classExpr c =>
    have hclass : Rests (a.standsAt q (.expr (.classExpr c)))
        (eng.evaluateClass c q (c.name.getD "")) :=
      Rests.ofPart (.classDef c) (by simp)
    unfold evaluate
    infer_instance
  | unary op e =>
    have he := hexpr e (by simp)
    unfold evaluate
    infer_instance
  | update op first target =>
    have htarget := hreference target (by simp)
    unfold evaluate
    infer_instance
  | binary op left right | logical op left right =>
    have hleft := hexpr left (by simp)
    have hright := hexpr right (by simp)
    unfold evaluate
    infer_instance
  | assign op target value =>
    have htarget := hreference target (by simp)
    have hvalue := hexpr value (by simp)
    have hnamed := hnamed value (by simp)
    unfold evaluate
    infer_instance
  | conditional test yes no =>
    have htest := hexpr test (by simp)
    have hyes := hexpr yes (by simp)
    have hno := hexpr no (by simp)
    unfold evaluate
    infer_instance
  | typeOf e | voidOf e =>
    have he := hexpr e (by simp)
    unfold evaluate
    infer_instance
  | delete e =>
    have hdelete : Rests (a.standsAt q (.expr (.delete e))) (eng.deleteExpression e q) :=
      Rests.ofPart (.expr e) (by simp)
    unfold evaluate
    infer_instance

/-! ### Lists and declarations -/

omit heng in
theorem rests_runList {last : Option Value} {body : List Stmt}
    (h : ∀ t ∈ body, Rests I (eng.statement t q [])) : Rests I (eng.runList q last body) := by
  induction body generalizing last with
  | nil => exact inferInstanceAs (Rests I (pure _))
  | cons t rest ih =>
    have ht := h t (by simp)
    refine .bind fun c => ?_
    split
    · exact ih fun u hu => h u (by simp [hu])
    · infer_instance

instance (body : List Stmt) :
    Rests (a.standsAt q (.statement (.block body))) (eng.runBlock body q) :=
  .open (Eval.opens_blockScope body q) fun inner => .within (.block body)
    (rests_runList fun t ht => (heng.statement t inner []).inside (by simp [ht]))

theorem rests_initial {d : Declarator} (hd : ([], .declarator d) ∈ part.inner) :
    ∀ e ∈ d.init, ∀ name, Rests (a.standsAt q part) (eng.named e q name) := by
  intro e he name
  have hnamed : Rests (a.standsAt q (.declarator d)) (eng.named e q name) :=
    Rests.ofPart (.expr e) (by simp [Option.mem_def.mp he])
  exact hnamed.part hd

theorem rests_runVars {declarators : List Declarator}
    (h : ∀ d ∈ declarators, ([], .declarator d) ∈ part.inner) :
    Rests (a.standsAt q part) (eng.runVars declarators q) := by
  refine .forM fun d hd => ?_
  split
  · infer_instance
  · next e heq =>
    have hnamed : Rests (a.standsAt q part) (eng.named e q d.name) :=
      rests_initial (h d hd) e heq d.name
    infer_instance

theorem rests_runLexical {declarators : List Declarator}
    (h : ∀ d ∈ declarators, ([], .declarator d) ∈ part.inner) :
    Rests (a.standsAt q part) (eng.runLexical declarators q) := by
  refine .forM fun d hd => ?_
  dsimp only
  split
  · next e heq =>
    have hnamed : Rests (a.standsAt q part) (eng.named e q d.name) :=
      rests_initial (h d hd) e heq d.name
    infer_instance
  · infer_instance

instance (c : ClassDef) : Rests (a.standsAt q (.classDef c)) (eng.runClass c q) := by
  unfold runClass; infer_instance

/-! ### Conditions and loops -/

omit heng in
instance {depth : Nat} {I : Standing depth} (test : Expr) [Rests I (eng.expr test q)] :
    Rests I (eng.holds test q) := by
  unfold holds; infer_instance

omit heng in
theorem rests_runIf {test : Expr} {yes : Stmt} (no : Option Stmt) [Rests I (eng.expr test q)]
    [Rests I (eng.statement yes q [])] (hno : ∀ t ∈ no, Rests I (eng.statement t q [])) :
    Rests I (eng.runIf test yes no q) := by
  refine .bind fun holds => ?_
  cases no with
  | none => infer_instance
  | some t =>
    have ht := hno t rfl
    infer_instance

instance (test : Expr) (body : Stmt) (labels : List String) (value : Value)
    [Rests I (eng.expr test q)] [Rests I (eng.statement body q [])] :
    Rests I (eng.whileTurn test body q labels value) := by
  unfold whileTurn; infer_instance

instance (test : Expr) (body : Stmt) (labels : List String) (value : Value)
    [Rests I (eng.expr test q)] [Rests I (eng.statement body q [])] :
    Rests I (eng.doTurn body test q labels value) := by
  refine .bind fun c => ?_
  split <;> infer_instance

omit heng in
/-- The copy of a scope stands where the scope stands, and binds the same names. -/
theorem leaves_nextScope {p : ScopeRef} {own : Bool} {names : List String} :
    Eval.Leaves (a.opens own p q names part) (nextScope own q)
      fun next s => (a.opens own p next names part).Holds s := by
  intro s hs
  cases own with
  | false => exact ⟨.refl _ s, hs⟩
  | true =>
    let copied : State := { s with scopes := s.scopes.push (s.scopes.get q).copy }
    have hretains : s.Retains copied := ⟨rfl, rfl, s.scopes.keepsBut_push _⟩
    refine ⟨hretains, hs.1, fun hdepth => ?_⟩
    obtain ⟨frames, hp, hq | ⟨hown, -⟩⟩ := hs.2 hdepth
    · exact ⟨frames, hp.lasts hretains, .inl hq.copy⟩
    · cases hown

section

variable {p : ScopeRef} {own : Bool} {init : ForInit} {test update : Option Expr} {body : Stmt}
  {labels : List String}

/-- What stands in the scope of a turn of a loop. -/
theorem leaves_forUpdate (h : ∀ e ∈ update, ([.loop init], .expr e) ∈ part.inner) :
    Eval.Leaves (a.opens own p q init.scopedNames part) (eng.forUpdate init update own q)
      fun next s => (a.opens own p next init.scopedNames part).Holds s := by
  refine .bind leaves_nextScope fun next => ?_
  have hupdate : Rests (a.opens own p next init.scopedNames part)
      (update.forM fun e => discard (Eval.within (.loop init) next (eng.expr e next))) := by
    cases update with
    | none => exact inferInstanceAs (Rests _ (pure PUnit.unit))
    | some e =>
      have he : Rests (a.opens own p next init.scopedNames part)
          (Eval.within (.loop init) next (eng.expr e next)) :=
        .within _ ((heng.expr e next).inside (h e rfl))
      exact inferInstanceAs (Rests _ (discard (Eval.within (.loop init) next (eng.expr e next))))
  exact .bind hupdate.keeps fun _ s hs => ⟨.refl _ s, hs⟩

/-- What a turn of a `for` loop does behind its body. -/
def nextTurn (eng : Engine) (init : ForInit) (update : Option Expr) (own : Bool) (q : ScopeRef) :
    Turn Value Completion → Eval (Turn (ScopeRef × Value) Completion)
  | .done c => return .done c
  | .again v => return .again (← eng.forUpdate init update own q, v)

theorem leaves_forTurn {v : Value} (htest : ∀ e ∈ test, ([.loop init], .expr e) ∈ part.inner)
    (hupdate : ∀ e ∈ update, ([.loop init], .expr e) ∈ part.inner)
    (hbody : ([.loop init], .statement body) ∈ part.inner) :
    Eval.Leaves (a.opens own p q init.scopedNames part)
      (eng.forTurn init test update body own labels (q, v))
      fun t s => ∀ next w, t = .again (next, w) →
        (a.opens own p next init.scopedNames part).Holds s := by
  let J := a.opens own p q init.scopedNames part
  have hturn : Eval.Leaves J
      (Eval.within (.loop init) q (eng.statement body q []) >>= fun c =>
        eng.nextTurn init update own q (c.afterBody labels v))
      fun t s => ∀ next w, t = .again (next, w) →
        (a.opens own p next init.scopedNames part).Holds s := by
    have hrun : Rests J (Eval.within (.loop init) q (eng.statement body q [])) :=
      .within _ ((heng.statement body q []).inside hbody)
    refine .bind hrun.keeps fun c => ?_
    cases c.afterBody labels v with
    | done c => exact fun s _ => ⟨.refl _ s, fun _ _ heq => by cases heq⟩
    | again v =>
      refine .bind (leaves_forUpdate hupdate) fun next s hs => ⟨.refl _ s, fun next' w heq => ?_⟩
      cases heq
      exact hs
  cases test with
  | none => exact hturn
  | some test =>
    have he : Rests (a.standsIn q (.loop init) part) (eng.expr test q) :=
      (heng.expr test q).inside (htest test rfl)
    have hholds : Rests (a.standsIn q (.loop init) part) (eng.holds test q) := inferInstance
    have hentered : Rests J (Eval.within (.loop init) q (eng.holds test q)) := hholds.within _
    refine .bind hentered.keeps fun again => ?_
    dsimp only
    split
    · exact hturn
    · exact fun s _ => ⟨.refl _ s, fun _ _ heq => by cases heq⟩

end

omit heng in
/-- The scope of a head is one of its own if each turn has a copy of it. -/
theorem opens_headScope (own : Bool) (kind : VarKind) (declarators : List Declarator) :
    Eval.Opens a.depth own q (Stmt.declaratorNames declarators) (do
      let inner ← Eval.innerScope q
      Eval.modifyScope inner (·.declareLexical (declarators.map fun d => (d.name, kind)))
      return inner) :=
  Eval.opens_innerScope fun inner => Eval.retains_modifyScope fun e =>
    Environment.keepsBut_declareLexical fun name hname =>
      ⟨rfl, by simpa [Stmt.declaratorNames] using hname⟩

theorem leaves_forHead {init : ForInit} (hinit : (init.around, .forInit init) ∈ part.inner) :
    Eval.Leaves (a.standsAt q part) (eng.forHead init q) fun found s =>
      (a.opens found.2 q found.1 init.scopedNames part).Holds s := by
  -- A head that binds no names of its own runs in the scope around it.
  have hbare {α : Type} {x : Eval α} (hnone : init.scopedNames = [])
      (hx : Rests (a.standsAt q part) x) : Eval.Leaves (a.standsAt q part)
        (do let _ ← x; return (q, false)) fun found s =>
          (a.opens found.2 q found.1 init.scopedNames part).Holds s :=
    .bind hx.keeps fun _ s hs =>
      ⟨.refl _ s, hnone ▸ Outset.opens_of_standsAt hs⟩
  cases init with
  | absent => exact fun s hs => ⟨.refl _ s, Outset.opens_of_standsAt hs⟩
  | expression e =>
    have he : Rests (a.standsAt q (.forInit (.expression e))) (eng.expr e q) :=
      rests_expr (by simp)
    exact hbare rfl (he.part hinit)
  | «variables» kind declarators =>
    have hvar : Rests (a.standsAt q (.forInit (.variables kind declarators)))
        (eng.runVars declarators q) := rests_runVars fun d hd => by simp [hd]
    let around : Around := .loop (.variables kind declarators)
    have hnames (hkind : kind ≠ .var) : around.names = Stmt.declaratorNames declarators :=
      if_neg hkind
    have hlexical (own : Bool) (inner : ScopeRef) (hkind : kind ≠ .var) :
        Rests (a.opens own q inner (Stmt.declaratorNames declarators) part)
          (Eval.within around inner (eng.runLexical declarators inner)) := by
      have hhere : Rests (a.standsAt inner (.forInit (.variables kind declarators)))
          (eng.runLexical declarators inner) := rests_runLexical fun d hd => by simp [hd]
      have haround : ForInit.around (.variables kind declarators) = [around] := if_neg hkind
      exact hnames hkind ▸ .within around (hhere.inside (haround ▸ hinit))
    have hown (own : Bool) (hkind : kind ≠ .var) : Eval.Leaves (a.standsAt q part)
        ((do
          let inner ← Eval.innerScope q
          Eval.modifyScope inner (·.declareLexical (declarators.map fun d => (d.name, kind)))
          return inner) >>= fun inner =>
            Eval.within around inner (eng.runLexical declarators inner) >>= fun _ =>
              pure (inner, own))
        fun found s =>
          (a.opens found.2 q found.1 (Stmt.declaratorNames declarators) part).Holds s :=
      .bind (opens_headScope own kind declarators).leaves fun inner =>
        .bind (hlexical own inner hkind).keeps fun _ s hs => ⟨.refl _ s, hs⟩
    cases kind with
    | var => exact hbare rfl (hvar.part hinit)
    | letVar =>
      have hhead := hown true VarKind.noConfusion
      simp only [bind_assoc, pure_bind] at hhead
      exact hhead
    | const =>
      have hhead := hown false VarKind.noConfusion
      simp only [bind_assoc, pure_bind] at hhead
      exact hhead

instance (init : ForInit) (test update : Option Expr) (body : Stmt) (labels : List String) :
    Rests (a.standsAt q (.statement (.forLoop init test update body)))
      (eng.runFor init test update body q labels) := by
  have hloop (own : Bool) (fuel : Nat) (next : ScopeRef) (v : Value) :
      Rests (a.opens own q next init.scopedNames (.statement (.forLoop init test update body)))
        (Eval.loop (eng.forTurn init test update body own labels) fuel (next, v)) := by
    induction fuel generalizing next v with
    | zero => exact inferInstanceAs (Rests _ (throw Abrupt.exhausted))
    | succ fuel ih =>
      refine ⟨.bindWhere (leaves_forTurn (by simp +contextual) (by simp +contextual) (by simp))
        fun t => ?_⟩
      cases t with
      | again found => exact fun s hs => (ih found.1 found.2).leaves s (hs found.1 found.2 rfl)
      | done c => exact fun s _ => ⟨.refl _ s, trivial⟩
  have hrest (own : Bool) (head : ScopeRef) :
      Rests (a.opens own q head init.scopedNames (.statement (.forLoop init test update body)))
        (nextScope own head >>= fun first =>
          Eval.loop (eng.forTurn init test update body own labels) eng.fuel (first, .undefined)) :=
    ⟨.bind leaves_nextScope fun first => (hloop own _ first _).leaves⟩
  exact ⟨.bind (leaves_forHead (by simp)) fun found => (hrest found.2 found.1).leaves⟩

/-! ### Exceptions -/

omit heng in
/-- The scope of a handler binds what was thrown. -/
theorem opens_handlerScope (param : Option String) (v : Value) :
    Eval.Opens a.depth false q param.toList (do
      let inner ← Eval.innerScope q
      param.forM fun name =>
        Eval.modifyScope inner fun e => (e.declare name .letVar).initialise name v
      return inner) := by
  refine Eval.opens_innerScope fun inner => ?_
  cases param with
  | none => exact Eval.retains (x := pure PUnit.unit)
  | some name =>
    refine Eval.retains_modifyScope fun e => ?_
    have hname : (inner, name) ∈
        {x : ScopeRef × String | x.1 = inner ∧ x.2 ∈ (some name).toList} := ⟨rfl, by simp⟩
    exact (Environment.keepsBut_declare hname .letVar).trans
      (Environment.keepsBut_initialise _ name v)

theorem rests_runHandler {param : Option String} {handler : List Stmt} {v : Value}
    (h : ([.handler param], .statement (.block handler)) ∈ part.inner) :
    Rests (a.standsAt q part) (eng.runHandler param handler q v) := by
  have hrun : eng.runHandler param handler q v = (do
      let inner ← Eval.innerScope q
      param.forM fun name =>
        Eval.modifyScope inner fun e => (e.declare name .letVar).initialise name v
      return inner) >>= fun inner =>
        Eval.within (.handler param) inner (eng.runBlock handler inner) := by
    simp only [runHandler, bind_assoc, pure_bind]
  rw [hrun]
  exact .open (opens_handlerScope param v) fun inner => .within (.handler param)
    (Rests.ofInner (.statement (.block handler)) h)

theorem rests_runCatch {body : List Stmt} {param : Option String} {handler : List Stmt}
    (hbody : ([], .statement (.block body)) ∈ part.inner)
    (hhandler : ([.handler param], .statement (.block handler)) ∈ part.inner) :
    Rests (a.standsAt q part) (eng.runCatch body param handler q) := by
  have hblock : Rests (a.standsAt q part) (eng.runBlock body q) :=
    Rests.ofPart (.statement (.block body)) hbody
  have hrun (v : Value) : Rests (a.standsAt q part) (eng.runHandler param handler q v) :=
    rests_runHandler hhandler
  unfold runCatch
  infer_instance

omit heng in
instance (code finalizer : Eval Completion) [Rests I code] [Rests I finalizer] :
    Rests I (withFinalizer code finalizer) := by
  refine .bind fun ending => .bind fun c => ?_
  split <;> infer_instance

omit heng in
instance (code : Eval Completion) [Rests I code] : Rests I (finishTry code) := by
  unfold finishTry; infer_instance

/-! ### Switch -/

omit heng in
theorem leaves_matchCases {v : Value} {clauses : List SwitchCase}
    (h : ∀ k ∈ clauses, ∀ e ∈ k.test, Rests I (eng.expr e q)) :
    Eval.Leaves I (eng.matchCases v q clauses) fun chosen s =>
      I.Holds s ∧ ∀ rest ∈ chosen, rest ⊆ clauses := by
  induction clauses with
  | nil => exact fun s hs => ⟨.refl _ s, hs, fun rest hrest => by cases hrest⟩
  | cons k rest ih =>
    have hlater := ih fun k hk => h k (List.mem_cons_of_mem _ hk)
    have hrest : Eval.Leaves I (eng.matchCases v q rest) fun chosen s =>
        I.Holds s ∧ ∀ found ∈ chosen, found ⊆ k :: rest :=
      hlater.conseq fun chosen s hs => ⟨hs.1, fun found hfound =>
        List.Subset.trans (hs.2 found hfound) (List.subset_cons_self k rest)⟩
    obtain ⟨test, body⟩ := k
    cases test with
    | none => exact hrest
    | some test =>
      have htest : Rests I (eng.expr test q) := h ⟨some test, body⟩ (by simp) test rfl
      refine .bind htest.keeps fun w => ?_
      split
      · refine fun s hs => ⟨.refl _ s, hs, fun found hfound => ?_⟩
        cases hfound
        exact List.Subset.refl _
      · exact hrest

omit heng in
theorem rests_runCases {clauses : List SwitchCase} {v : Value}
    (h : ∀ k ∈ clauses, ∀ t ∈ k.body, Rests I (eng.statement t q [])) :
    Rests I (eng.runCases q v clauses) := by
  induction clauses generalizing v with
  | nil => exact inferInstanceAs (Rests I (pure _))
  | cons k rest ih =>
    have hbody : Rests I (eng.runList q none k.body) := rests_runList (h k (by simp))
    refine .bind fun c => ?_
    split
    · exact ih fun k hk => h k (List.mem_cons_of_mem _ hk)
    · infer_instance

theorem defaultCases_subset (clauses : List SwitchCase) : defaultCases clauses ⊆ clauses :=
  (List.dropWhile_sublist _).subset

instance (subject : Expr) (clauses : List SwitchCase) :
    Rests (a.standsAt q (.statement (.switch subject clauses)))
      (eng.runSwitch subject clauses q) := by
  have hclause {inner : ScopeRef} {k : SwitchCase} (hk : k ∈ clauses) {part : Part}
      (hpart : ([], part) ∈ (Part.clause k).inner) {α : Type} {x : Eval α}
      (hx : Rests (a.standsAt inner part) x) :
      Rests (a.standsIn inner (.clauses clauses) (.statement (.switch subject clauses))) x :=
    (hx.part hpart).inside (by simp [hk])
  have hsubject : Rests (a.standsAt q (.statement (.switch subject clauses)))
      (eng.expr subject q) := rests_expr (by simp)
  refine .bind fun v => ?_
  refine .open (Eval.opens_clausesScope clauses q) fun inner => .within (.clauses clauses)
    ⟨.bindWhere (leaves_matchCases fun k hk e he => ?_) fun chosen s hs => ?_⟩
  · exact hclause hk (by simp [Option.mem_def.mp he]) (heng.expr e inner)
  · have hsub : chosen.getD (defaultCases clauses) ⊆ clauses := by
      cases chosen with
      | none => exact defaultCases_subset clauses
      | some found => exact hs.2 found rfl
    have hcases : Rests (a.standsIn inner (.clauses clauses)
        (.statement (.switch subject clauses)))
        (eng.runCases inner .undefined (chosen.getD (defaultCases clauses))) :=
      rests_runCases fun k hk t ht => hclause (hsub hk) (by simp [ht]) (heng.statement t inner [])
    exact hcases.leaves s hs.1

/-! ### All statements -/

instance (label : String) (body : Stmt) (labels : List String)
    [∀ labels, Rests I (eng.statement body q labels)] :
    Rests I (eng.runLabeled label body q labels) := by
  unfold runLabeled
  dsimp only
  infer_instance

/-- Whatever a statement runs by itself is one of its parts. -/
instance (t : Stmt) (labels : List String) :
    Rests (a.standsAt q (.statement t)) (eng.runKind t q labels) := by
  have hexpr (e : Expr) (h : ([], .expr e) ∈ t.inner) :
      Rests (a.standsAt q (.statement t)) (eng.expr e q) := rests_expr (by simpa using h)
  have hinner (u : Stmt) (h : ([], .statement u) ∈ t.inner) (labels : List String) :
      Rests (a.standsAt q (.statement t)) (eng.statement u q labels) :=
    Rests.ofPart (.statement u) (by simpa using h)
  have hblock (body : List Stmt) (h : ([], .statement (.block body)) ∈ t.inner) :
      Rests (a.standsAt q (.statement t)) (eng.runBlock body q) :=
    Rests.ofPart (.statement (.block body)) (by simpa using h)
  cases t with
  | empty | debugger | function f | breaks label | continues label | block body
  | forLoop init test update body | «switch» subject clauses =>
    unfold runKind
    infer_instance
  | expression e | throws e =>
    have he := hexpr e (by simp)
    unfold runKind
    infer_instance
  | «variables» kind declarators =>
    have hvars : Rests (a.standsAt q (.statement (.variables kind declarators)))
        (eng.runVars declarators q) := rests_runVars fun d hd => by simp [hd]
    have hlexical : Rests (a.standsAt q (.statement (.variables kind declarators)))
        (eng.runLexical declarators q) := rests_runLexical fun d hd => by simp [hd]
    unfold runKind runVariables
    infer_instance
  | classDecl c =>
    have hclass : Rests (a.standsAt q (.statement (.classDecl c))) (eng.runClass c q) :=
      Rests.ofPart (.classDef c) (by simp)
    unfold runKind
    infer_instance
  | ifThen test yes =>
    have htest := hexpr test (by simp)
    have hyes := hinner yes (by simp)
    exact rests_runIf none fun t ht => by cases ht
  | ifElse test yes no =>
    have htest := hexpr test (by simp)
    have hyes := hinner yes (by simp)
    have hno := hinner no (by simp)
    exact rests_runIf (some no) fun t ht => Option.mem_some.mp ht ▸ hno []
  | whileLoop test body =>
    have htest := hexpr test (by simp)
    have hbody := hinner body (by simp)
    exact .loop inferInstance _ _
  | doLoop body test =>
    have htest := hexpr test (by simp)
    have hbody := hinner body (by simp)
    exact .loop inferInstance _ _
  | returns e =>
    cases e with
    | none =>
      unfold runKind
      infer_instance
    | some e =>
      have he := hexpr e (by simp)
      unfold runKind
      infer_instance
  | tryCatch body param handler =>
    have hcatch : Rests (a.standsAt q (.statement (.tryCatch body param handler)))
        (eng.runCatch body param handler q) := rests_runCatch (by simp) (by simp)
    unfold runKind
    infer_instance
  | tryFinally body finalizer =>
    have hbody := hblock body (by simp)
    have hfinalizer := hblock finalizer (by simp)
    unfold runKind
    infer_instance
  | tryCatchFinally body param handler finalizer =>
    have hcatch : Rests (a.standsAt q (.statement (.tryCatchFinally body param handler finalizer)))
        (eng.runCatch body param handler q) := rests_runCatch (by simp) (by simp)
    have hfinalizer := hblock finalizer (by simp)
    unfold runKind
    infer_instance
  | labeled label body =>
    have hbody := hinner body (by simp)
    unfold runKind
    infer_instance

instance (t : Stmt) (labels : List String) :
    Rests (a.standsAt q (.statement t)) (eng.run t q labels) := by
  unfold run; infer_instance

/-! ### Calls -/

/-- In a call, all code retains what is there. -/
theorem obeys_runList (eng : Engine) [heng : eng.Stays a] (q : ScopeRef) (body : List Stmt) :
    (eng.runList q none body).Obeys (.retaining (a.depth + 1)) := by
  have hrun : Rests a.below (eng.runList q none body) := rests_runList fun t _ =>
    (heng.statement t q []).mono fun _ hs => Outset.standsAt_of_below hs q (.statement t)
  exact Eval.obeys_of_retains hrun.leaves

/-- Only the scope of the call and new ones are filled. -/
theorem retains_runBody {but : Set (ScopeRef × String)} (callee : ObjectRef) (f : FunctionDef)
    (args : List Value) (h : ∀ name, (q, name) ∈ but) :
    Eval.Retains (a.depth + 1) but (eng.runBody callee f q args) fun _ => True := by
  refine .inContext (.skip (Eval.retains_instantiateBody callee f args h) fun inner => ?_)
  have hlist := obeys_runList (a := a) eng inner f.body
  refine .skip Eval.retains fun ending => ?_
  dsimp only
  split <;> exact Eval.retains

instance (callee : ObjectRef) (f : ScriptFunction) (this : Value) (args : List Value) :
    (eng.callScript callee f this args).Obeys (.retaining (a.depth + 1)) := by
  have hdeeper := obeys_deeper eng (Nat.le_succ a.depth)
  have hcode : (match f.code with
      | .defaultConstructor => return .undefined
      | .script d => do
        let this ← calledThis f.strict this
        let scope ← Eval.newScope
          { parent := some f.scope
            function := some { this := some this, function := callee, newTarget := none } }
        match ← Eval.atSite (f.bodySite d scope) (eng.runBody callee d scope args) with
        | .returned v => return v
        | _ => return .undefined : Eval Value).Obeys (.retaining (a.depth + 1)) := by
    cases f.code with
    | defaultConstructor => infer_instance
    | script d =>
      refine .bind fun this => ⟨fun but => .newScope fun q => ?_⟩
      refine .skip (retains_runBody callee d args fun _ => .inr rfl).atSite fun c => ?_
      split <;> exact Eval.retains
  unfold callScript
  dsimp only
  infer_instance

instance (callee : ObjectRef) (this : Value) (args : List Value) :
    (eng.callObject callee this args).Obeys (.retaining a.depth) := by
  have hdeeper := obeys_deeper eng (Nat.le_succ a.depth)
  refine .bind fun kind => ?_
  split <;> infer_instance

instance (callee : ObjectRef) (f : ScriptFunction) (kind : ConstructorKind) (args : List Value)
    (target : ObjectRef) :
    (eng.constructScript callee f kind args target).Obeys (.retaining (a.depth + 1)) := by
  have hdeeper := obeys_deeper eng (Nat.le_succ a.depth)
  have hrun (q : ScopeRef) {but : Set (ScopeRef × String)} (h : ∀ name, (q, name) ∈ but) :
      Eval.Retains (a.depth + 1) but (eng.runConstructor callee f kind q args) fun _ => True := by
    unfold runConstructor
    split
    · exact .atSite (retains_runBody callee _ args h)
    · exact Eval.retains
    · exact Eval.retains
  unfold constructScript
  refine .bind fun this => ⟨fun but => .newScope fun q => ?_⟩
  exact .skip (hrun q fun _ => .inr rfl) fun c => Eval.retains

instance (callee : ObjectRef) (args : List Value) (target : ObjectRef) :
    (eng.constructObject callee args target).Obeys (.retaining a.depth) := by
  have hdeeper := obeys_deeper eng (Nat.le_succ a.depth)
  refine .bind fun kind => ?_
  split
  · infer_instance
  · split <;> infer_instance
  · infer_instance

/-! ### The whole evaluator -/

omit heng in
/-- A lookout that retains what is there does not change that code stays in its scopes. -/
theorem stays_watched {watch : Entry → Eval Unit}
    (hexpr : ∀ e q, Rests (a.standsAt q (.expr e)) (watch (.expr e q)))
    (hstatement : ∀ t q labels,
      Rests (a.standsAt q (.statement t)) (watch (.statement t q labels)))
    (hcall : ∀ f this args, (watch (.call f this args)).Obeys (.retaining a.depth))
    (hconstruct : ∀ f args target,
      (watch (.construct f args target)).Obeys (.retaining a.depth))
    (fuel : Nat) : (watched watch fuel).Stays a := by
  induction fuel with
  | zero =>
    exact {
      expr := fun _ _ => inferInstanceAs (Rests _ (throw Abrupt.exhausted))
      statement := fun _ _ _ => inferInstanceAs (Rests _ (throw Abrupt.exhausted))
      call := fun _ _ _ => inferInstanceAs (Eval.Obeys _ (throw Abrupt.exhausted))
      construct := fun _ _ _ => inferInstanceAs (Eval.Obeys _ (throw Abrupt.exhausted)) }
  | succ fuel ih =>
    exact {
      expr := fun e q => inferInstanceAs (Rests _ (do
        watch (.expr e q)
        (watched watch fuel).evaluate e q))
      statement := fun t q labels => inferInstanceAs (Rests _ (do
        watch (.statement t q labels)
        (watched watch fuel).run t q labels))
      call := fun f this args => inferInstanceAs (Eval.Obeys _ (do
        watch (.call f this args)
        (watched watch fuel).callObject f this args))
      construct := fun f args target => inferInstanceAs (Eval.Obeys _ (do
        watch (.construct f args target)
        (watched watch fuel).constructObject f args target)) }

end Engine

/-! ### Directly -/

/-- Leaves a call open if code is come to with so many calls open and does not have a property. -/
def Eval.check (depth : Nat) (P : Part → ScopeRef → State → Prop)
    [∀ part q s, Decidable (P part q s)] (part : Part) (q : ScopeRef) : Eval Unit := fun s =>
  .ok () (if s.callDepth = depth → P part q s then s else { s with callDepth := s.callDepth + 1 })

/-- A lookout that leaves a call open each time that the evaluator comes, in no call, to an
expression or a statement without a property. -/
def Entry.inspect (depth : Nat) (P : Part → ScopeRef → State → Prop)
    [∀ part q s, Decidable (P part q s)] : Entry → Eval Unit
  | .expr e q => Eval.check depth P (.expr e) q
  | .statement t q _ => Eval.check depth P (.statement t) q
  | .call .. | .construct .. => pure ()

/-- Each time that the run comes by itself, and not in a call, to an expression or a statement, that
code, its scope and the state have a property: the lookout leaves no call open. -/
def Engine.Directly {α : Type} (run : Engine → Eval α) (P : Part → ScopeRef → State → Prop)
    [∀ part q s, Decidable (P part q s)] (fuel : Nat) (s : State) : Prop :=
  ((run (watched (Entry.inspect s.callDepth P) fuel)).final s).callDepth = s.callDepth

instance {α : Type} (run : Engine → Eval α) (P : Part → ScopeRef → State → Prop)
    [∀ part q s, Decidable (P part q s)] (fuel : Nat) (s : State) :
    Decidable (Engine.Directly run P fuel s) :=
  inferInstanceAs (Decidable (_ = _))

example : ¬Engine.Directly (·.expr (.unary .not (.literal .null)) Intrinsic.globalScope)
    (fun part _ _ => part matches .expr (.unary ..)) 2 default := by
  decide

theorem Engine.directly_of_rests {α : Type} {run : Engine → Eval α}
    {P : Part → ScopeRef → State → Prop} [∀ part q s, Decidable (P part q s)] {fuel : Nat}
    {s : State} {I : Standing s.callDepth}
    (h : Eval.Rests I (run (watched (Entry.inspect s.callDepth P) fuel))) (hs : I.Holds s) :
    Directly run P fuel s := by
  have hleaves := h.leaves s hs
  unfold Directly Eval.final
  cases heq : run (watched (Entry.inspect s.callDepth P) fuel) s <;> rw [heq] at hleaves
  · exact hleaves.1.callDepth
  · exact hleaves.callDepth

/-- What is true of parts of code, in the scopes that they are run in, is known each time that the
evaluator comes to them. -/
theorem Outset.stays_inspect (a : Outset) {P : Part → ScopeRef → State → Prop}
    [∀ part q s, Decidable (P part q s)]
    (hP : ∀ {frames part q s}, a.Reaches frames part q s → P part q s) (fuel : Nat) :
    (Engine.watched (Entry.inspect a.depth P) fuel).Stays a := by
  have hcheck (part : Part) (q : ScopeRef) :
      Eval.Rests (a.standsAt q part) (Eval.check a.depth P part q) := by
    refine ⟨fun s hs => ?_⟩
    have hgood : s.callDepth = a.depth → P part q s := fun hdepth =>
      let ⟨_, hq⟩ := hs.2 hdepth
      hP hq
    unfold Eval.check
    rw [if_pos hgood]
    exact ⟨.refl _ s, trivial⟩
  exact Engine.stays_watched (fun _ _ => hcheck _ _) (fun _ _ _ => hcheck _ _)
    (fun _ _ _ => inferInstanceAs (Eval.Obeys _ (pure ())))
    (fun _ _ _ => inferInstanceAs (Eval.Obeys _ (pure ()))) fuel

end Ecma
