import Ecma.Proofs.Frame.Keeps

/-! The operations on values keep their frame, as far as the functions that they call do: reading and
assigning properties, conversions, operators, and references. -/

namespace Ecma

/-- An engine whose ways back keep their frame. -/
class Engine.Keeps (ρ : Regime) (eng : Engine) : Prop where
  expr : ∀ e scope n, (eng.expr e scope).Keeps ρ n
  statement : ∀ t scope labels n, (eng.statement t scope labels).Keeps ρ n
  call : ∀ n f this args, Known ρ.tracked n f → Known ρ.tracked n this → Known ρ.tracked n args →
    (eng.call f this args).Keeps ρ n
  construct : ∀ n f args target, Known ρ.tracked n f → Known ρ.tracked n args →
    Known ρ.tracked n target → (eng.construct f args target).Keeps ρ n

namespace Engine

variable {ρ : Regime} {n : Nat} {eng : Engine} [heng : eng.Keeps ρ]

section

variable {o f : ObjectRef} {v w this value receiver : Value} {args : List Value}
  {key : PropertyKey} {scope : ScopeRef} [Known ρ.tracked n o] [Known ρ.tracked n f] [Known ρ.tracked n v]
  [Known ρ.tracked n w] [Known ρ.tracked n this] [Known ρ.tracked n value] [Known ρ.tracked n receiver]
  [Known ρ.tracked n args]

instance {e : Expr} : (eng.expr e scope).Keeps ρ n := heng.expr e scope n

instance {t : Stmt} {labels : List String} : (eng.statement t scope labels).Keeps ρ n :=
  heng.statement t scope labels n

instance : (eng.call f this args).Keeps ρ n :=
  heng.call n f this args inferInstance inferInstance inferInstance

instance : (eng.construct f args o).Keeps ρ n :=
  heng.construct n f args o inferInstance inferInstance inferInstance

instance : (eng.callValue v this args).Keeps ρ n := by
  cases v <;> (unfold callValue; infer_instance)

/-! ### Properties -/

instance : (eng.getFor o key receiver).Keeps ρ n := by
  refine .bind fun m _ p hp => ?_
  split
  · have := hp.of_some.value
    infer_instance
  · have := hp.of_some.getter
    infer_instance
  · infer_instance
  · infer_instance

instance : (eng.get o key).Keeps ρ n := by unfold get; infer_instance

instance {p : Primitive} : (eng.getOfPrimitive p key).Keeps ρ n := by
  unfold getOfPrimitive
  split
  · infer_instance
  · split <;> infer_instance

instance : (store o key value).Keeps ρ n := by
  refine .bind fun m _ p _ => ?_
  split <;> infer_instance

instance : (eng.setFor o key value receiver).Keeps ρ n := by
  refine .bind fun m _ p hp => ?_
  split
  · have := hp.of_some.setter
    infer_instance
  · infer_instance
  · infer_instance
  · cases receiver <;> infer_instance

instance {strict : Bool} {base : Value} : (refuseSet strict key base).Keeps ρ n := by
  unfold refuseSet; infer_instance

instance : (toObject v).Keeps ρ n := by
  cases v <;> (unfold toObject; infer_instance)

instance {p : Primitive} : (eng.setOfPrimitive p key value).Keeps ρ n := by
  unfold setOfPrimitive; infer_instance

instance {strict : Bool} : (eng.setOf v key value strict).Keeps ρ n := by
  cases v <;> (unfold setOf; infer_instance)

instance {strict : Bool} : (eng.set o key value strict).Keeps ρ n := by
  unfold set; infer_instance

instance {d : Descriptor} [Known ρ.tracked n d] : (defineOrThrow o key d).Keeps ρ n := by
  unfold defineOrThrow; infer_instance

instance : (eng.prototypeFor f o).Keeps ρ n := by
  refine .bind fun m _ v _ => ?_
  cases v <;> infer_instance

end

/-! ### Conversions -/

instance {o : ObjectRef} {names : List PropertyKey} [Known ρ.tracked n o] :
    (eng.firstPrimitive o names).Keeps ρ n := by
  induction names generalizing n with
  | nil => exact inferInstanceAs (Eval.Keeps ρ n (Eval.raise _))
  | cons name rest ih =>
    refine .bind fun m _ v _ => ?_
    cases v with
    | primitive p => exact ih
    | object f =>
      refine .bind fun m _ callable _ => ?_
      split
      · refine .bind fun m _ result _ => ?_
        cases result with
        | primitive p => infer_instance
        | object o' => exact ih
      · exact ih

section

variable {o f : ObjectRef} {v w this value receiver : Value} {args : List Value}
  {key : PropertyKey} {scope : ScopeRef} [Known ρ.tracked n o] [Known ρ.tracked n f] [Known ρ.tracked n v]
  [Known ρ.tracked n w] [Known ρ.tracked n this] [Known ρ.tracked n value] [Known ρ.tracked n receiver]
  [Known ρ.tracked n args]

instance {hint : Hint} : (eng.objectToPrimitive o hint).Keeps ρ n := by
  refine .bind fun m _ method _ => ?_
  split
  · infer_instance
  · refine .bind fun m _ v _ => ?_
    cases v <;> infer_instance

instance {hint : Hint} : (eng.toPrimitive v hint).Keeps ρ n := by
  cases v <;> (unfold toPrimitive; infer_instance)

instance : (eng.toNumber v).Keeps ρ n := by unfold toNumber; infer_instance

instance : (eng.toNumeric v).Keeps ρ n := by unfold toNumeric; infer_instance

instance : (eng.toUnits v).Keeps ρ n := by unfold toUnits; infer_instance

instance : (eng.toPropertyKey v).Keeps ρ n := by
  refine .bind fun m _ p _ => ?_
  split <;> infer_instance

instance : (eng.getIfPresent o key).Keeps ρ n := by
  unfold getIfPresent; infer_instance

instance {half : String} : (eng.accessorField o key half).Keeps ρ n := by
  refine .bind fun m _ v hv => ?_
  split
  · infer_instance
  · infer_instance
  · have := hv.of_some
    infer_instance
  · infer_instance

instance : (eng.toDescriptor v).Keeps ρ n := by
  unfold toDescriptor
  cases v with
  | primitive p => infer_instance
  | object o =>
    refine .bind fun m _ enumerable _ => .bind fun m _ configurable _ => .bind fun m _ value _ => ?_
    refine .bind fun m _ writable _ => .bind fun m _ get _ => .bind fun m _ set _ => ?_
    dsimp only
    infer_instance

instance {d : Option Descriptor} [hd : Known ρ.tracked n d] :
    (Eval.descriptorObject d).Keeps ρ n := by
  cases d with
  | none => exact inferInstanceAs (Eval.Keeps ρ n (pure _))
  | some d =>
    have := hd.of_some
    unfold Eval.descriptorObject
    refine .bind fun m _ o _ => ?_
    have : (d.fields.forM fun (name, value) => Eval.put o name (.plain value)).Keeps ρ m :=
      .forM fun m _ entry hentry =>
        have := hentry.snd
        inferInstance
    infer_instance

/-! ### Operators -/

instance : (eng.looselyEqual v w).Keeps ρ n := by
  cases v <;> cases w <;> (unfold looselyEqual; infer_instance)

instance : (eng.less v w).Keeps ρ n := by unfold less; infer_instance

instance : (eng.greater v w).Keeps ρ n := by unfold greater; infer_instance

instance : (eng.ordinaryHasInstance v w).Keeps ρ n := by
  unfold ordinaryHasInstance
  split
  · refine .bind fun m _ callable _ => ?_
    split
    · refine .bind fun m _ v _ => ?_
      cases v <;> infer_instance
    · infer_instance
  · infer_instance

instance : (eng.instanceOf v w).Keeps ρ n := by
  cases w <;> (unfold instanceOf; infer_instance)

instance : (eng.isIn v w).Keeps ρ n := by
  cases w <;> (unfold isIn; infer_instance)

instance {op : BinaryOp} : (eng.arithmetic op v w).Keeps ρ n := by
  refine .bind fun m _ a _ => .bind fun m _ b _ => ?_
  split
  · split <;> infer_instance
  · infer_instance
  · infer_instance

instance {p q : Primitive} : (join p q).Keeps ρ n := by unfold join; infer_instance

instance {p q : Primitive} : (eng.addPrimitives p q).Keeps ρ n := by
  unfold addPrimitives
  split <;> infer_instance

instance : (eng.add v w).Keeps ρ n := by unfold add; infer_instance

instance {op : BinaryOp} : (eng.applyBinary op v w).Keeps ρ n := by
  unfold applyBinary
  cases op <;> infer_instance

instance {op : UnaryOp} : (eng.applyUnary op v).Keeps ρ n := by
  unfold applyUnary
  cases op with
  | not => infer_instance
  | plus => infer_instance
  | minus =>
    refine .bind fun m _ x _ => ?_
    cases x <;> infer_instance
  | bitNot =>
    refine .bind fun m _ x _ => ?_
    cases x <;> infer_instance

end

end Engine

end Ecma
