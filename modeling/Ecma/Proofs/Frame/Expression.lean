import Ecma.Eval.Expression
import Ecma.Proofs.Frame.Operation

/-! Expressions keep their frame, as far as the code that they run does. With them go the references
that they denote, and the functions and classes that they make. -/

namespace Ecma

namespace Eval

variable {ρ : Regime} {n : Nat} {o : ObjectRef} {v : Value} {scope : ScopeRef} {name : String}

/-! ### References -/

instance : (resolve name scope).Keeps ρ n := by
  refine .bind fun m _ found _ => ?_
  split <;> infer_instance

instance {α : Type} [Mentions α] {e : BindingError} :
    (raiseBinding name e : Eval α).Keeps ρ n := by
  cases e <;> (unfold raiseBinding; infer_instance)

instance : (readBinding scope name).Keeps ρ n := by
  refine .bind fun m _ found hfound => ?_
  cases found with
  | ok v =>
    have := hfound.ok
    infer_instance
  | error e => infer_instance

instance {strict : Bool} [Known ρ.tracked n v] :
    (assignBinding scope name v strict).Keeps ρ n := by
  refine .bind fun m _ found hfound => ?_
  cases found with
  | ok e =>
    have := hfound.ok
    infer_instance
  | error e => infer_instance

instance : (resolveThis scope).Keeps ρ n := by
  refine .bind fun m _ found _ => ?_
  split
  · infer_instance
  · refine .bind fun m _ this hthis => ?_
    split
    · have := hthis.of_some
      infer_instance
    · infer_instance

instance {p : PrivateName} {action : String} [Known ρ.tracked n v] :
    (privateElement v p action).Keeps ρ n := by
  refine .bind fun m _ found hfound => ?_
  split
  · have := hfound.of_some
    infer_instance
  · infer_instance

/-! ### Functions -/

section

variable {f : FunctionDef}

instance {home : Option ObjectRef} {kind : Option ConstructorKind} [Known ρ.tracked n home] :
    (createFunction f scope home kind).Keeps ρ n := by
  unfold createFunction; infer_instance

instance {name : Units} [Known ρ.tracked n o] : (setFunctionName o name).Keeps ρ n := by
  unfold setFunctionName; infer_instance

instance [Known ρ.tracked n o] : (makeConstructor o).Keeps ρ n := by
  unfold makeConstructor; infer_instance

instance {name : Units} : (instantiateFunction f scope name).Keeps ρ n := by
  unfold instantiateFunction; infer_instance

instance {name : Units} : (instantiateExpression f scope name).Keeps ρ n := by
  unfold instantiateExpression
  split <;> infer_instance

instance [Known ρ.tracked n o] : (createMethod f scope o).Keeps ρ n := by
  unfold createMethod; infer_instance

instance {args : List Value} {strict : Bool} [Known ρ.tracked n o] [Known ρ.tracked n args] :
    (createArguments o args strict).Keeps ρ n := by
  refine .bind fun m _ o _ => .bind fun m _ _ _ => ?_
  have : (args.zipIdx.forM fun (value, i) => put o (.ofIndex i) (.plain value)).Keeps ρ m :=
    .forM fun m _ entry hentry =>
      have := hentry.fst
      inferInstance
  refine .bind fun m _ _ _ => ?_
  dsimp only
  infer_instance

instance {functions : List FunctionDef} {inner outer : ScopeRef} {kind : BindingKind} :
    (declareFunctions functions inner outer kind).Keeps ρ n := by
  unfold declareFunctions
  dsimp only
  infer_instance

instance {args : List Value} [Known ρ.tracked n o] [Known ρ.tracked n args] :
    (instantiateBody o f scope args).Keeps ρ n := by
  have hrest (m : Nat) : (do
      modifyScope scope (·.declareVars f.varNames)
      let inner ← innerScope scope
      modifyScope inner (·.declareLexical (Stmt.lexicalBindingsOf f.body))
      declareFunctions (Stmt.functionsOf f.body) inner scope .var
      return inner : Eval ScopeRef).Keeps ρ m :=
    .bind fun m _ _ _ => .bind fun m _ inner _ => .bind fun m _ _ _ => inferInstance
  refine .bind fun m _ _ _ => ?_
  dsimp only
  split
  · exact .bind fun m _ o _ => .bind fun m _ _ _ => hrest m
  · exact hrest m

instance {body : List Stmt} : (declareBlock body scope).Keeps ρ n := by
  unfold declareBlock; infer_instance

instance {body : List Stmt} : (blockScope body scope).Keeps ρ n := by
  unfold blockScope; infer_instance

instance {cases : List SwitchCase} : (clausesScope cases scope).Keeps ρ n := by
  unfold clausesScope; infer_instance

end

/-! ### Classes -/

instance {spellings : List String} : (declarePrivateNames spellings scope).Keeps ρ n := by
  unfold declarePrivateNames; infer_instance

instance {c : ClassDef} : (classScope c scope).Keeps ρ n := by
  unfold classScope; infer_instance

instance {c : ClassDef} {prototype parent : ObjectRef} [Known ρ.tracked n prototype]
    [Known ρ.tracked n parent] : (createClass c scope name prototype parent).Keeps ρ n := by
  unfold createClass
  dsimp only
  refine .bind fun m _ o _ => .bind fun m _ _ _ => .bind fun m _ _ _ => ?_
  exact .bind fun m _ _ _ => .bind fun m _ _ _ => inferInstance

instance {privates : ClassPrivates} [Known ρ.tracked n o] [Known ρ.tracked n privates] :
    (installPrivates o privates).Keeps ρ n := by
  refine .modifyObject (fun _ => rfl) fun m _ data _ => ?_
  have hkind : Known ρ.tracked m data.kind := inferInstance
  dsimp only
  split
  · next heq =>
    rw [heq] at hkind
    have := hkind.script
    infer_instance
  · infer_instance

end Eval

namespace Engine

variable {ρ : Regime} {n : Nat} {eng : Engine} [heng : eng.Keeps ρ]

section

variable {o f : ObjectRef} {v w value : Value} {args : List Value} {key : PropertyKey}
  {scope : ScopeRef} {name : PrivateName} {r : Reference} {e target : Expr} [Known ρ.tracked n o]
  [Known ρ.tracked n f] [Known ρ.tracked n v] [Known ρ.tracked n w] [Known ρ.tracked n value]
  [Known ρ.tracked n args] [Known ρ.tracked n r]

/-! ### References -/

instance : (eng.computedKey e scope).Keeps ρ n := by unfold computedKey; infer_instance

instance {name : PropertyName} : (eng.propertyKey name scope).Keeps ρ n := by
  cases name <;> (unfold propertyKey; infer_instance)

instance {key : MemberKey} : (eng.memberKey key scope).Keeps ρ n := by
  cases key <;> (unfold memberKey; infer_instance)

instance {name : String} : (eng.privateReference e name scope).Keeps ρ n := by
  refine .bind fun m _ base _ => .bind fun m _ found _ => ?_
  split <;> infer_instance

instance {key : MemberKey} : (eng.memberReference e key scope).Keeps ρ n := by
  refine .bind fun m _ base _ => ?_
  split
  · split <;> infer_instance
  · infer_instance

instance : (homeObject? scope).Keeps ρ n := by
  refine .bind fun m _ found hfound => ?_
  cases found with
  | none => infer_instance
  | some f =>
    have : Known ρ.tracked m f.function := hfound.of_some.of_mentions fun _ hm => .inr (.inl hm)
    infer_instance

instance {key : MemberKey} : (eng.superReference key scope).Keeps ρ n := by
  refine .bind fun m _ this _ => .bind fun m _ key _ => .bind fun m _ home hhome => ?_
  split
  · have := hhome.of_some
    infer_instance
  · infer_instance

instance : (eng.reference e scope).Keeps ρ n := by
  unfold reference
  split <;> infer_instance

instance : (eng.privateGet v name).Keeps ρ n := by
  refine .bind fun m _ element helement => ?_
  split
  · have := helement.method
    infer_instance
  · have := helement.privateGetter.of_some
    infer_instance
  · infer_instance

instance : (eng.privateSet v name value).Keeps ρ n := by
  refine .bind fun m _ element helement => ?_
  split
  · infer_instance
  · have := helement.privateSetter.of_some
    infer_instance
  · infer_instance

instance : (eng.getProperty v key w).Keeps ρ n := by
  cases v <;> (unfold getProperty; infer_instance)

instance {strict : Bool} : (eng.setProperty v key w value strict).Keeps ρ n := by
  cases v <;> (unfold setProperty; infer_instance)

instance : (eng.getValue r).Keeps ρ n := by
  have hr : Known ρ.tracked n r := inferInstance
  unfold getValue
  split
  · infer_instance
  · infer_instance
  · infer_instance
  · have := hr.base
    have := hr.this
    infer_instance
  · have := hr.privateBase
    infer_instance

instance : (eng.putValue r value).Keeps ρ n := by
  refine .bind fun m _ strict _ => ?_
  have hr : Known ρ.tracked m r := inferInstance
  split
  · infer_instance
  · infer_instance
  · infer_instance
  · have := hr.base
    have := hr.this
    infer_instance
  · have := hr.privateBase
    infer_instance

/-! ### Classes -/

instance {c : ClassDef} : (eng.heritage c scope).Keeps ρ n := by
  unfold heritage
  split
  · infer_instance
  · refine .bind fun m _ v _ => ?_
    split
    · infer_instance
    · infer_instance
    · refine .bind fun m _ isConstructor _ => ?_
      split
      · refine .bind fun m _ prototype _ => ?_
        split <;> infer_instance
      · infer_instance

instance {privates : ClassPrivates} {element : ClassElement} [Known ρ.tracked n privates] :
    (eng.defineElement scope o f privates element).Keeps ρ n := by
  have htarget (isStatic : Bool) : Known ρ.tracked n (if isStatic then o else f) := by
    split <;> infer_instance
  cases element with
  | publicElement name kind d isStatic =>
    have := htarget isStatic
    unfold defineElement
    dsimp only
    refine .bind fun m _ o _ => .bind fun m _ key _ => .bind fun m _ _ _ => ?_
    infer_instance
  | privateElement spelling kind d isStatic =>
    have := htarget isStatic
    unfold defineElement
    dsimp only
    refine .bind fun m _ o _ => .bind fun m _ found _ => ?_
    split <;> infer_instance

instance {c : ClassDef} {name : String} : (eng.evaluateClass c scope name).Keeps ρ n := by
  refine .bind fun m _ inner _ => .bind fun m _ parents hparents => ?_
  have := hparents.fst
  have := hparents.snd
  refine .bind fun m _ l _ => .atSite ?_
  refine .bind fun m _ prototype _ => .bind fun m _ o _ => ?_
  have : (c.elements.foldlM (eng.defineElement inner o prototype) {}).Keeps ρ m :=
    .foldlM fun _ _ _ _ _ _ => inferInstance
  exact .bind fun m _ privates _ => .bind fun m _ _ _ => inferInstance

instance {elements : List (PrivateName × PrivateElement)} [Known ρ.tracked n elements] :
    (addPrivates o elements).Keeps ρ n := by
  refine .forM fun m _ entry hentry => ?_
  have hadd (m : Nat) [Known ρ.tracked m o] [Known ρ.tracked m entry.2] : (Eval.modifyObject o fun data =>
      { data with privateElements := data.privateElements ++ [(entry.1, entry.2)] }).Keeps
        ρ m :=
    .modifyObject (fun _ => rfl) fun _ _ _ _ => inferInstance
  have := hentry.snd
  refine .bind fun m _ found _ => ?_
  dsimp only
  split
  · infer_instance
  · exact hadd m

instance : (initialiseInstance o f).Keeps ρ n := by
  refine .bind fun m _ found hfound => ?_
  split
  · have := hfound.of_some
    infer_instance
  · infer_instance

instance : (bindThis scope v).Keeps ρ n := by
  refine .bind fun m _ found _ => ?_
  split
  · infer_instance
  · dsimp only
    split <;> infer_instance

instance : (eng.superCall scope args).Keeps ρ n := by
  refine .bind fun m _ found _ => ?_
  split
  · infer_instance
  · refine .bind fun m _ call hcall => ?_
    split
    · infer_instance
    · next this active newTarget =>
      have hcall := hcall.of_some
      have : Known ρ.tracked m active := hcall.of_mentions fun _ hm => .inr (.inl hm)
      have htarget : Known ρ.tracked m newTarget := hcall.of_mentions fun _ hm => .inr (.inr hm)
      refine .bind fun m _ parent hparent => ?_
      split
      · infer_instance
      · infer_instance
      · have := hparent.of_some
        have := htarget.of_some
        refine .bind fun m _ o _ => ?_
        infer_instance

/-! ### Expressions -/

instance {name : Units} : (eng.named e scope name).Keeps ρ n := by
  unfold named
  split
  · split <;> infer_instance
  · infer_instance

instance {args : List Expr} : (eng.arguments args scope).Keeps ρ n := by
  unfold arguments; infer_instance

instance : (setProto o v).Keeps ρ n := by
  unfold setProto
  split <;> infer_instance

instance {name : PropertyName} {kind : MethodKind} {d : FunctionDef} :
    (eng.defineMethod o name kind d scope).Keeps ρ n := by
  refine .bind fun m _ key _ => .bind fun m _ method _ => ?_
  infer_instance

instance {p : PropertyDef} : (eng.defineProperty o scope p).Keeps ρ n := by
  cases p <;> (unfold defineProperty; infer_instance)

instance {properties : List PropertyDef} : (eng.objectLiteral properties scope).Keeps ρ n := by
  unfold objectLiteral; infer_instance

instance : (eng.callee e scope).Keeps ρ n := by
  unfold callee; infer_instance

instance {args : List Expr} : (eng.callExpression e args scope).Keeps ρ n := by
  refine .bind fun m _ (f, receiver) hcallee => ?_
  have : Known ρ.tracked m f := hcallee.fst
  have : Known ρ.tracked m receiver := hcallee.snd
  refine .bind fun m _ args _ => ?_
  cases f <;> infer_instance

instance {args : List Expr} : (eng.newExpression e args scope).Keeps ρ n := by
  refine .bind fun m _ v _ => .bind fun m _ args _ => ?_
  split <;> infer_instance

instance {args : List Expr} : (eng.superExpression args scope).Keeps ρ n := by
  unfold superExpression; infer_instance

instance {op : UpdateOp} {first : Bool} :
    (eng.updateExpression op first target scope).Keeps ρ n := by
  refine .bind fun m _ r _ => .bind fun m _ old _ => .bind fun m _ old _ => ?_
  split <;> infer_instance

instance : (eng.assignTo r target e scope).Keeps ρ n := by
  unfold assignTo; infer_instance

instance {op : AssignOp} : (eng.assignExpression op target e scope).Keeps ρ n := by
  refine .bind fun m _ r _ => ?_
  split
  · infer_instance
  · infer_instance
  · refine .bind fun m _ current _ => .bind fun m _ operand _ => ?_
    split <;> infer_instance

instance {op : BinaryOp} {left right : Expr} :
    (eng.binaryExpression op left right scope).Keeps ρ n := by
  unfold binaryExpression; infer_instance

instance : (eng.typeOf e scope).Keeps ρ n := by
  unfold typeOf
  split
  · refine .bind fun m _ r _ => ?_
    split <;> infer_instance
  · infer_instance

instance {name : String} : (deleteName name scope).Keeps ρ n := by
  refine .bind fun m _ r _ => ?_
  split <;> infer_instance

instance : (eng.deleteMember e scope).Keeps ρ n := by
  refine .bind fun m _ r hr => ?_
  split
  · have := hr.base
    refine .bind fun m _ o _ => .bind fun m _ deleted _ => ?_
    infer_instance
  · infer_instance

instance : (eng.deleteExpression e scope).Keeps ρ n := by
  unfold deleteExpression
  split <;> infer_instance

instance : (eng.readExpression e scope).Keeps ρ n := by
  unfold readExpression; infer_instance

instance : (eng.evaluate e scope).Keeps ρ n := by
  cases e <;> (unfold evaluate; infer_instance)

end

end Engine

end Ecma
