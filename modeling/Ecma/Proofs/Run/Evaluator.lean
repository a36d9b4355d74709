import Ecma.Eval.Script
import Ecma.Proofs.Run.Builtin
import Ecma.Proofs.Run.Watch

/-! The whole evaluator keeps every discipline that its steps keep, with any lookout that does:
functions, classes, expressions, statements, calls and scripts. Code may be anything here, so it
need not be known where it stands. -/

namespace Ecma

/-- A discipline that the steps around operations keep too: those on scopes, contexts and calls, and
those that make functions. -/
class Discipline.Complete (δ : Discipline) : Prop where
  onEscape : ∀ {α : Type} {w : δ.World} {x : Eval α} {handler : Completion → Eval α},
    δ.Holds w x (fun _ _ => True) → (∀ c w', δ.Holds w' (handler c) fun _ _ => True) →
    δ.Holds w (Eval.onEscape x handler) fun _ _ => True
  inContext : ∀ {α : Type} {w : δ.World} {x : Eval α} (c : Context),
    δ.Holds w x (fun _ _ => True) → δ.Holds w (Eval.inContext c x) fun _ _ => True
  site : ∀ {w : δ.World}, δ.Holds w Eval.site fun _ _ => True
  atSite : ∀ {α : Type} {w : δ.World} {x : Eval α} (l : Site),
    δ.Holds w x (fun _ _ => True) → δ.Holds w (Eval.atSite l x) fun _ _ => True
  inCall : ∀ {α : Type} {w : δ.World} {x : Eval α},
    δ.Holds w x (fun _ _ => True) → δ.Holds w (Eval.inCall x) fun _ _ => True
  note : ∀ {w : δ.World} (i : Incident), δ.Holds w (Eval.note i) fun _ _ => True
  newScope : ∀ {w : δ.World} (e : Environment), δ.Holds w (Eval.newScope e) fun _ _ => True
  modifyScope : ∀ {w : δ.World} (q : ScopeRef) (f : Environment → Environment),
    δ.Holds w (Eval.modifyScope q f) fun _ _ => True
  newPrivateName : ∀ {w : δ.World} (description : String),
    δ.Holds w (Eval.newPrivateName description) fun _ _ => True
  newObject : ∀ {w : δ.World} (prototype : Option ObjectRef) (kind : ObjectKind),
    δ.Holds w (Eval.newObject prototype kind) fun _ _ => True
  createFunction : ∀ {w : δ.World} (f : FunctionDef) (q : ScopeRef) (home : Option ObjectRef)
    (kind : Option ConstructorKind),
    δ.Holds w (Eval.createFunction f q home kind) fun o w' => δ.Callable w' o
  /-- The accessor of a callee is the function that guards restricted properties. -/
  restrict : ∀ {w : δ.World} (o : ObjectRef) (key : PropertyKey),
    δ.Holds w (Eval.put o key (.accessor (.object Intrinsic.throwTypeError)
      (.object Intrinsic.throwTypeError) false false)) fun _ _ => True
  installPrivates : ∀ {w : δ.World} (o : ObjectRef) (privates : ClassPrivates),
    δ.Holds w (Eval.installPrivates o privates) fun _ _ => True
  addPrivate : ∀ {w : δ.World} (o : ObjectRef) (entry : PrivateName × PrivateElement),
    δ.Holds w (Eval.modifyObject o fun data =>
      { data with privateElements := data.privateElements ++ [entry] }) fun _ _ => True

namespace Eval

variable {δ : Discipline} [hδ : δ.Complete] {α β : Type} {x : Eval α} {scope : ScopeRef}
  {name : String}

/-! ### Putting evaluations together -/

instance {handler : Completion → Eval α} [hx : x.Obeys δ] [h : ∀ c, (handler c).Obeys δ] :
    (onEscape x handler).Obeys δ :=
  ⟨fun w => hδ.onEscape (hx.holds w) fun c => (h c).holds⟩

instance (c : Context) [hx : x.Obeys δ] : (inContext c x).Obeys δ :=
  ⟨fun w => hδ.inContext c (hx.holds w)⟩

instance : site.Obeys δ :=
  ⟨fun _ => hδ.site⟩

instance (l : Site) [hx : x.Obeys δ] : (atSite l x).Obeys δ :=
  ⟨fun w => hδ.atSite l (hx.holds w)⟩

instance (a : Around) [x.Obeys δ] : (within a scope x).Obeys δ := by
  unfold within; infer_instance

instance [hx : x.Obeys δ] : (inCall x).Obeys δ :=
  ⟨fun w => hδ.inCall (hx.holds w)⟩

omit hδ in
instance {turn : α → Eval (Turn α β)} [hturn : ∀ a, (turn a).Obeys δ] (fuel : Nat) (a : α) :
    (loop turn fuel a).Obeys δ := by
  induction fuel generalizing a with
  | zero => exact inferInstanceAs (Obeys δ (throw Abrupt.exhausted))
  | succ fuel ih =>
    refine .bind fun t => ?_
    cases t with
    | done b => infer_instance
    | again a' => exact ih a'

omit hδ in
instance {xs : List α} {f : β → α → Eval β} [hf : ∀ b a, (f b a).Obeys δ] (b : β) :
    (xs.foldlM f b).Obeys δ := by
  induction xs generalizing b with
  | nil => exact inferInstanceAs (Obeys δ (Pure.pure b))
  | cons a rest ih =>
    rw [List.foldlM_cons]
    exact .bind ih

/-! ### Steps -/

instance (i : Incident) : (note i).Obeys δ := ⟨fun _ => hδ.note i⟩

instance (f : Fault) : (fault f : Eval α).Obeys δ := by unfold fault; infer_instance

instance (e : Environment) : (newScope e).Obeys δ := ⟨fun _ => hδ.newScope e⟩

instance : (innerScope scope).Obeys δ := by unfold innerScope; infer_instance

instance (f : Environment → Environment) : (modifyScope scope f).Obeys δ :=
  ⟨fun _ => hδ.modifyScope scope f⟩

instance (value : Value) : (initialise scope name value).Obeys δ := by
  unfold initialise; infer_instance

instance (description : String) : (newPrivateName description).Obeys δ :=
  ⟨fun _ => hδ.newPrivateName description⟩

instance (prototype : Option ObjectRef) (kind : ObjectKind) : (newObject prototype kind).Obeys δ :=
  ⟨fun _ => hδ.newObject prototype kind⟩

/-! ### Functions -/

instance (f : FunctionDef) (home : Option ObjectRef) (kind : Option ConstructorKind) :
    (createFunction f scope home kind).Obeys δ :=
  ⟨fun _ => Discipline.Holds.any (hδ.createFunction f scope home kind)⟩

instance (o : ObjectRef) (name : Units) : (setFunctionName o name).Obeys δ := by
  unfold setFunctionName; infer_instance

instance (o : ObjectRef) : (makeConstructor o).Obeys δ := by unfold makeConstructor; infer_instance

instance (f : FunctionDef) (name : Units) : (instantiateFunction f scope name).Obeys δ := by
  unfold instantiateFunction; infer_instance

instance (f : FunctionDef) (name : Units) :
    (instantiateExpression f scope name).Obeys δ := by
  unfold instantiateExpression
  split <;> infer_instance

instance (f : FunctionDef) (home : ObjectRef) : (createMethod f scope home).Obeys δ := by
  unfold createMethod; infer_instance

instance (callee : ObjectRef) (args : List Value) (strict : Bool) :
    (createArguments callee args strict).Obeys δ := by
  refine .bind fun o => .bind fun _ => .bind fun _ => ?_
  dsimp only
  split
  · exact .bindWhere (P := fun _ _ => True) (fun _ => hδ.restrict o _) fun _ _ _ =>
      δ.pure fun _ _ => trivial
  · infer_instance

instance (functions : List FunctionDef) (inner outer : ScopeRef) (kind : BindingKind) :
    (declareFunctions functions inner outer kind).Obeys δ := by
  unfold declareFunctions
  dsimp only
  infer_instance

instance (callee : ObjectRef) (f : FunctionDef) (args : List Value) :
    (instantiateBody callee f scope args).Obeys δ := by
  refine .bind fun _ => ?_
  dsimp only
  split <;> infer_instance

instance (body : List Stmt) : (declareBlock body scope).Obeys δ := by
  unfold declareBlock; infer_instance

instance (body : List Stmt) : (blockScope body scope).Obeys δ := by
  unfold blockScope; infer_instance

instance (cases : List SwitchCase) : (clausesScope cases scope).Obeys δ := by
  unfold clausesScope; infer_instance

/-! ### Classes -/

instance (spellings : List String) : (declarePrivateNames spellings scope).Obeys δ := by
  unfold declarePrivateNames; infer_instance

instance (c : ClassDef) : (classScope c scope).Obeys δ := by
  unfold classScope; infer_instance

instance (c : ClassDef) (prototype parent : ObjectRef) :
    (createClass c scope name prototype parent).Obeys δ := by
  refine .bind fun site => ?_
  infer_instance

instance (o : ObjectRef) (privates : ClassPrivates) : (installPrivates o privates).Obeys δ :=
  ⟨fun _ => hδ.installPrivates o privates⟩

/-! ### Assignment -/

instance (value : Value) (strict : Bool) :
    (assignBinding scope name value strict).Obeys δ := by
  refine .bind fun found => ?_
  split <;> infer_instance

end Eval

/-- An engine whose ways back keep a discipline. -/
class Engine.Abides (δ : Discipline) (eng : Engine) : Prop extends eng.Obeys δ where
  expr : ∀ e scope, (eng.expr e scope).Obeys δ
  statement : ∀ t scope labels, (eng.statement t scope labels).Obeys δ

namespace Engine

variable {δ : Discipline} [hδ : δ.Complete] {eng : Engine} [heng : eng.Abides δ] {scope : ScopeRef}

instance (e : Expr) : (eng.expr e scope).Obeys δ := heng.expr e scope

instance (t : Stmt) (labels : List String) : (eng.statement t scope labels).Obeys δ :=
  heng.statement t scope labels

/-! ### References -/

instance (e : Expr) : (eng.computedKey e scope).Obeys δ := by
  unfold computedKey; infer_instance

instance (name : PropertyName) : (eng.propertyKey name scope).Obeys δ := by
  cases name <;> (unfold propertyKey; infer_instance)

instance (key : MemberKey) : (eng.memberKey key scope).Obeys δ := by
  cases key <;> (unfold memberKey; infer_instance)

instance (e : Expr) (name : String) : (eng.privateReference e name scope).Obeys δ := by
  refine .bind fun base => .bind fun found => ?_
  split <;> infer_instance

instance (e : Expr) (key : MemberKey) : (eng.memberReference e key scope).Obeys δ := by
  refine .bind fun base => ?_
  dsimp only
  split
  · split <;> infer_instance
  · infer_instance

instance (key : MemberKey) : (eng.superReference key scope).Obeys δ := by
  refine .bind fun this => .bind fun key => .bind fun home => ?_
  split <;> infer_instance

instance (e : Expr) : (eng.reference e scope).Obeys δ := by
  unfold reference
  split <;> infer_instance

/-! ### Classes -/

instance (c : ClassDef) : (eng.heritage c scope).Obeys δ := by
  unfold heritage
  split
  · infer_instance
  · refine .bind fun v => ?_
    split
    · infer_instance
    · infer_instance
    · refine .bind fun isConstructor => ?_
      split
      · refine .bind fun prototype => ?_
        split <;> infer_instance
      · infer_instance

omit hδ heng in
/-- A method that is made is one half of the accessor that it defines. -/
theorem usable_descriptor {calls : ObjectRef → Prop} {f : ObjectRef} (hf : calls f)
    (kind : MethodKind) (enumerable : Bool) : (kind.descriptor f enumerable).Usable calls := by
  have hhalf : (Value.object f).IsHalf calls := .inr ⟨f, rfl, hf⟩
  cases kind with
  | method => exact Descriptor.IsPlain.usable (d := .data _ _ _ _)
  | getter => exact ⟨fun v hv => by cases hv; exact hhalf, nofun⟩
  | setter => exact ⟨nofun, fun v hv => by cases hv; exact hhalf⟩

omit hδ heng in
theorem coherent_descriptor (f : ObjectRef) (kind : MethodKind) (enumerable : Bool) :
    (kind.descriptor f enumerable).Coherent := by
  cases kind with
  | method => exact inferInstanceAs (Descriptor.data _ _ _ _).Coherent
  | getter => exact ⟨nofun⟩
  | setter => exact ⟨nofun⟩

omit hδ heng in
theorem holds_defineMethod {w : δ.World} {o f : ObjectRef} {key : PropertyKey}
    (hf : δ.Callable w f) (kind : MethodKind) (enumerable : Bool) :
    δ.Holds w (defineOrThrow o key (kind.descriptor f enumerable)) fun _ _ => True :=
  have := coherent_descriptor f kind enumerable
  holds_defineOrThrow o key _ (usable_descriptor hf kind enumerable)

instance (constructor prototype : ObjectRef) (privates : ClassPrivates) (element : ClassElement) :
    (eng.defineElement scope constructor prototype privates element).Obeys δ := by
  cases element with
  | publicElement name kind f isStatic =>
    refine ⟨fun w => δ.bind (hδ.createFunction f scope _ none) fun o w₁ _ ho => ?_⟩
    refine δ.bind (Eval.Obeys.holds w₁) fun key w₂ hw₂ _ => ?_
    refine δ.bind (Eval.Obeys.holds w₂) fun _ w₃ hw₃ _ => ?_
    have hcallable := δ.callable_later hw₃ (δ.callable_later hw₂ ho)
    exact δ.bind (holds_defineMethod hcallable kind false) fun _ _ _ _ => Eval.Obeys.holds _
  | privateElement spelling kind f isStatic =>
    refine .bind fun o => .bind fun found => ?_
    split <;> infer_instance

instance (c : ClassDef) (name : String) : (eng.evaluateClass c scope name).Obeys δ := by
  unfold evaluateClass; infer_instance

instance (o : ObjectRef) (elements : List (PrivateName × PrivateElement)) :
    (addPrivates o elements).Obeys δ := by
  have hadd (name : PrivateName) (element : PrivateElement) : (Eval.modifyObject o fun data =>
      { data with privateElements := data.privateElements ++ [(name, element)] }).Obeys δ :=
    ⟨fun _ => hδ.addPrivate o (name, element)⟩
  unfold addPrivates
  infer_instance

instance (o constructor : ObjectRef) : (initialiseInstance o constructor).Obeys δ := by
  refine .bind fun f => ?_
  split <;> infer_instance

instance (this : Value) : (bindThis scope this).Obeys δ := by
  refine .bind fun found => ?_
  split <;> infer_instance

instance (args : List Value) : (eng.superCall scope args).Obeys δ := by
  refine .bind fun found => ?_
  split
  · infer_instance
  · refine .bind fun call => ?_
    split
    · infer_instance
    · refine .bind fun parent => ?_
      split <;> infer_instance

/-! ### Expressions -/

instance (e : Expr) (name : Units) : (eng.named e scope name).Obeys δ := by
  unfold named
  split
  · split <;> infer_instance
  · infer_instance

instance (args : List Expr) : (eng.arguments args scope).Obeys δ := by
  unfold arguments; infer_instance

instance (o : ObjectRef) (name : PropertyName) (kind : MethodKind) (f : FunctionDef) :
    (eng.defineMethod o name kind f scope).Obeys δ := by
  refine .bind fun key => ⟨fun w => ?_⟩
  refine δ.bind (hδ.createFunction f scope (some o) none) fun method w₁ _ hmethod => ?_
  refine δ.bind (Eval.Obeys.holds w₁) fun _ w₂ hw₂ _ => ?_
  exact holds_defineMethod (δ.callable_later hw₂ hmethod) kind true

instance (o : ObjectRef) (p : PropertyDef) : (eng.defineProperty o scope p).Obeys δ := by
  cases p <;> (unfold defineProperty; infer_instance)

instance (properties : List PropertyDef) :
    (eng.objectLiteral properties scope).Obeys δ := by
  unfold objectLiteral; infer_instance

instance (e : Expr) : (eng.callee e scope).Obeys δ := by
  unfold callee; infer_instance

instance (e : Expr) (args : List Expr) : (eng.callExpression e args scope).Obeys δ := by
  refine .bind fun (f, this) => .bind fun args => ?_
  cases f <;> infer_instance

instance (e : Expr) (args : List Expr) : (eng.newExpression e args scope).Obeys δ := by
  refine .bind fun v => .bind fun args => ?_
  split <;> infer_instance

instance (args : List Expr) : (eng.superExpression args scope).Obeys δ := by
  unfold superExpression; infer_instance

instance (op : UpdateOp) (first : Bool) (target : Expr) :
    (eng.updateExpression op first target scope).Obeys δ := by
  refine .bind fun r => .bind fun v => .bind fun old => ?_
  split <;> infer_instance

instance (r : Reference) (target value : Expr) :
    (eng.assignTo r target value scope).Obeys δ := by
  unfold assignTo; infer_instance

instance (op : AssignOp) (target value : Expr) :
    (eng.assignExpression op target value scope).Obeys δ := by
  refine .bind fun r => ?_
  split
  · infer_instance
  · infer_instance
  · refine .bind fun current => .bind fun operand => ?_
    split <;> infer_instance

instance (op : BinaryOp) (left right : Expr) :
    (eng.binaryExpression op left right scope).Obeys δ := by
  unfold binaryExpression; infer_instance

instance (e : Expr) : (eng.typeOf e scope).Obeys δ := by
  unfold typeOf
  split
  · refine .bind fun r => ?_
    split <;> infer_instance
  · infer_instance

instance (e : Expr) : (eng.deleteMember e scope).Obeys δ := by
  refine .bind fun r => ?_
  split <;> infer_instance

instance (e : Expr) : (eng.deleteExpression e scope).Obeys δ := by
  unfold deleteExpression
  split <;> infer_instance

instance (e : Expr) : (eng.readExpression e scope).Obeys δ := by
  unfold readExpression; infer_instance

instance (e : Expr) : (eng.evaluate e scope).Obeys δ := by
  cases e <;> (unfold evaluate; infer_instance)

/-! ### Statements -/

instance (last : Option Value) (body : List Stmt) :
    (eng.runList scope last body).Obeys δ := by
  induction body generalizing last with
  | nil => exact inferInstanceAs (Eval.Obeys δ (pure _))
  | cons t rest ih =>
    refine .bind fun c => ?_
    split
    · exact ih _
    · infer_instance

instance (body : List Stmt) : (eng.runBlock body scope).Obeys δ := by
  unfold runBlock; infer_instance

instance (declarators : List Declarator) : (eng.runVars declarators scope).Obeys δ := by
  have hone (d : Declarator) : (match d.init with
      | none => return
      | some e => do
        let r ← Eval.resolve d.name scope
        let v ← eng.named e scope d.name
        eng.putValue r v : Eval Unit).Obeys δ := by
    split <;> infer_instance
  unfold runVars
  infer_instance

instance (declarators : List Declarator) :
    (eng.runLexical declarators scope).Obeys δ := by
  have hone (d : Declarator) : (do
      let v ← match d.init with
        | some e => eng.named e scope d.name
        | none => pure .undefined
      Eval.initialise scope d.name v : Eval Unit).Obeys δ := by
    split <;> infer_instance
  unfold runLexical
  infer_instance

instance (kind : VarKind) (declarators : List Declarator) :
    (eng.runVariables kind declarators scope).Obeys δ := by
  unfold runVariables; infer_instance

instance (c : ClassDef) : (eng.runClass c scope).Obeys δ := by
  unfold runClass; infer_instance

instance (test : Expr) : (eng.holds test scope).Obeys δ := by
  unfold holds; infer_instance

instance (test : Expr) (yes : Stmt) (no : Option Stmt) :
    (eng.runIf test yes no scope).Obeys δ := by
  refine .bind fun holds => ?_
  cases no <;> infer_instance

instance (test : Expr) (body : Stmt) (labels : List String) (value : Value) :
    (eng.whileTurn test body scope labels value).Obeys δ := by
  unfold whileTurn; infer_instance

instance (test : Expr) (body : Stmt) (labels : List String) (value : Value) :
    (eng.doTurn body test scope labels value).Obeys δ := by
  refine .bind fun c => ?_
  split <;> infer_instance

instance (fresh : Bool) : (nextScope fresh scope).Obeys δ := by
  unfold nextScope; infer_instance

instance (init : ForInit) (update : Option Expr) (fresh : Bool) :
    (eng.forUpdate init update fresh scope).Obeys δ := by
  unfold forUpdate; infer_instance

instance (init : ForInit) (test update : Option Expr) (body : Stmt) (fresh : Bool)
    (labels : List String) (turn : ScopeRef × Value) :
    (eng.forTurn init test update body fresh labels turn).Obeys δ := by
  have hbody : (do
      let c ← Eval.within (.loop init) turn.1 (eng.statement body turn.1 [])
      match c.afterBody labels turn.2 with
      | .done c => return .done c
      | .again v => return .again (← eng.forUpdate init update fresh turn.1, v) :
        Eval (Turn (ScopeRef × Value) Completion)).Obeys δ := by
    refine .bind fun c => ?_
    split <;> infer_instance
  cases test with
  | none => exact hbody
  | some test =>
    refine .bind fun again => ?_
    dsimp only
    split
    · exact hbody
    · infer_instance

instance (init : ForInit) : (eng.forHead init scope).Obeys δ := by
  unfold forHead
  split <;> infer_instance

instance (init : ForInit) (test update : Option Expr) (body : Stmt) (labels : List String) :
    (eng.runFor init test update body scope labels).Obeys δ := by
  unfold runFor; infer_instance

instance (param : Option String) (handler : List Stmt) (thrown : Value) :
    (eng.runHandler param handler scope thrown).Obeys δ := by
  unfold runHandler; infer_instance

instance (block : List Stmt) (param : Option String) (handler : List Stmt) :
    (eng.runCatch block param handler scope).Obeys δ := by
  unfold runCatch; infer_instance

instance (code finalizer : Eval Completion) [code.Obeys δ] [finalizer.Obeys δ] :
    (withFinalizer code finalizer).Obeys δ := by
  refine .bind fun ending => .bind fun c => ?_
  split <;> infer_instance

instance (code : Eval Completion) [code.Obeys δ] : (finishTry code).Obeys δ := by
  unfold finishTry; infer_instance

instance (subject : Value) (cases : List SwitchCase) :
    (eng.matchCases subject scope cases).Obeys δ := by
  induction cases with
  | nil => exact inferInstanceAs (Eval.Obeys δ (pure _))
  | cons c rest ih =>
    obtain ⟨test, body⟩ := c
    cases test with
    | none => exact ih
    | some test =>
      refine .bind fun v => ?_
      split
      · infer_instance
      · exact ih

instance (value : Value) (cases : List SwitchCase) :
    (eng.runCases scope value cases).Obeys δ := by
  induction cases generalizing value with
  | nil => exact inferInstanceAs (Eval.Obeys δ (pure _))
  | cons c rest ih =>
    refine .bind fun ending => ?_
    split
    · exact ih _
    · infer_instance

instance (subject : Expr) (cases : List SwitchCase) :
    (eng.runSwitch subject cases scope).Obeys δ := by
  unfold runSwitch; infer_instance

instance (label : String) (body : Stmt) (labels : List String) :
    (eng.runLabeled label body scope labels).Obeys δ := by
  unfold runLabeled; infer_instance

instance (t : Stmt) (labels : List String) : (eng.runKind t scope labels).Obeys δ := by
  unfold runKind
  split <;> infer_instance

instance (t : Stmt) (labels : List String) : (eng.run t scope labels).Obeys δ := by
  unfold run; infer_instance

/-! ### Calls -/

variable {callee target : ObjectRef} {f : ScriptFunction} {kind : ConstructorKind}
  {args : List Value}

instance (d : FunctionDef) : (eng.runBody callee d scope args).Obeys δ := by
  unfold runBody; infer_instance

instance (this : Value) : (eng.callScript callee f this args).Obeys δ := by
  have hbody : (match f.code with
      | .defaultConstructor => return .undefined
      | .script d => do
        let this ← calledThis f.strict this
        let scope ← Eval.newScope
          { parent := some f.scope
            function := some { this := some this, function := callee, newTarget := none } }
        match ← Eval.atSite (f.bodySite d scope) (eng.runBody callee d scope args) with
        | .returned v => return v
        | _ => return .undefined : Eval Value).Obeys δ := by
    split
    · infer_instance
    · refine .bind fun this => .bind fun scope => .bind fun ending => ?_
      split <;> infer_instance
  unfold callScript
  dsimp only
  split
  · exact .bind fun name => .bind fun _ => hbody
  · exact hbody

instance (this : Value) : (eng.callObject callee this args).Obeys δ := by
  refine .bind fun kind => ?_
  split <;> infer_instance

instance : (eng.runConstructor callee f kind scope args).Obeys δ := by
  unfold runConstructor
  split <;> infer_instance

instance : (eng.constructScript callee f kind args target).Obeys δ := by
  unfold constructScript; infer_instance

instance : (eng.constructObject callee args target).Obeys δ := by
  refine .bind fun kind => ?_
  split
  · infer_instance
  · split <;> infer_instance
  · infer_instance

/-! ### The whole evaluator -/

omit heng in
/-- A lookout that changes no object does not change what the evaluator leaves. -/
theorem abides_watched {watch : Entry → Eval Unit} (hwatch : ∀ entry, (watch entry).Obeys δ)
    (fuel : Nat) : (watched watch fuel).Abides δ := by
  induction fuel with
  | zero =>
    exact {
      call := fun _ _ _ => inferInstanceAs (Eval.Obeys δ (throw _))
      construct := fun _ _ _ => inferInstanceAs (Eval.Obeys δ (throw _))
      expr := fun _ _ => inferInstanceAs (Eval.Obeys δ (throw _))
      statement := fun _ _ _ => inferInstanceAs (Eval.Obeys δ (throw _)) }
  | succ fuel ih =>
    exact {
      call := fun f this args => inferInstanceAs (Eval.Obeys δ (do
        watch (.call f this args)
        (watched watch fuel).callObject f this args))
      construct := fun f args target => inferInstanceAs (Eval.Obeys δ (do
        watch (.construct f args target)
        (watched watch fuel).constructObject f args target))
      expr := fun e scope => inferInstanceAs (Eval.Obeys δ (do
        watch (.expr e scope)
        (watched watch fuel).evaluate e scope))
      statement := fun t scope labels => inferInstanceAs (Eval.Obeys δ (do
        watch (.statement t scope labels)
        (watched watch fuel).run t scope labels)) }

/-! ### Scripts -/

instance (p : Program) : (Eval.checkGlobalNames p).Obeys δ := by
  unfold Eval.checkGlobalNames; infer_instance

omit hδ heng in
instance (current : Option Property) (value : Value) :
    (Eval.globalFunction current value).IsPlain := by
  unfold Eval.globalFunction
  split <;> infer_instance

instance (d : FunctionDef) : (eng.declareGlobalFunction d).Obeys δ := by
  unfold declareGlobalFunction; infer_instance

instance (name : String) : (declareGlobalVar name).Obeys δ := by
  unfold declareGlobalVar; infer_instance

instance (p : Program) : (eng.declareGlobals p).Obeys δ := by
  refine .bind fun _ => .bind fun _ => .bind fun _ => ?_
  infer_instance

instance (p : Program) : (eng.runProgram p).Obeys δ := by
  unfold runProgram; infer_instance

instance (p : Program) : (eng.runScript p).Obeys δ := by
  refine .bind fun ending => ?_
  split <;> infer_instance

instance (source : String) : (eng.runSource source).Obeys δ := by
  unfold runSource
  split <;> infer_instance

end Engine

end Ecma
