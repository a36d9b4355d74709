import Ecma.Eval.Expression
import Ecma.Proofs.Run.Discipline

/-! The operations on values keep every discipline that the functions which they call keep: reading
and assigning properties, conversions, operators, and what a name or a member stands for. -/

namespace Ecma

namespace Engine

variable {δ : Discipline} {eng : Engine} [heng : eng.Obeys δ]

instance (f : ObjectRef) (this : Value) (args : List Value) : (eng.call f this args).Obeys δ :=
  heng.call f this args

instance (f : ObjectRef) (args : List Value) (target : ObjectRef) :
    (eng.construct f args target).Obeys δ :=
  heng.construct f args target

instance (f this : Value) (args : List Value) : (eng.callValue f this args).Obeys δ := by
  cases f <;> (unfold callValue; infer_instance)

/-! ### Properties -/

instance (o : ObjectRef) (key : PropertyKey) (receiver : Value) :
    (eng.getFor o key receiver).Obeys δ := by
  refine .bind fun p => ?_
  split <;> infer_instance

instance (o : ObjectRef) (key : PropertyKey) : (eng.get o key).Obeys δ := by
  unfold get; infer_instance

instance (p : Primitive) (key : PropertyKey) : (eng.getOfPrimitive p key).Obeys δ := by
  unfold getOfPrimitive
  split
  · infer_instance
  · split <;> infer_instance

instance (receiver : ObjectRef) (key : PropertyKey) (value : Value) :
    (store receiver key value).Obeys δ := by
  refine .bind fun p => ?_
  split <;> infer_instance

instance (o : ObjectRef) (key : PropertyKey) (value receiver : Value) :
    (eng.setFor o key value receiver).Obeys δ := by
  refine .bind fun p => ?_
  split
  · infer_instance
  · infer_instance
  · infer_instance
  · cases receiver <;> infer_instance

instance (strict : Bool) (key : PropertyKey) (base : Value) : (refuseSet strict key base).Obeys δ := by
  unfold refuseSet; infer_instance

instance (v : Value) : (toObject v).Obeys δ := by
  cases v <;> (unfold toObject; infer_instance)

instance (p : Primitive) (key : PropertyKey) (value : Value) :
    (eng.setOfPrimitive p key value).Obeys δ := by
  unfold setOfPrimitive; infer_instance

instance (base : Value) (key : PropertyKey) (value : Value) (strict : Bool) :
    (eng.setOf base key value strict).Obeys δ := by
  cases base <;> (unfold setOf; infer_instance)

instance (o : ObjectRef) (key : PropertyKey) (value : Value) (strict : Bool) :
    (eng.set o key value strict).Obeys δ := by
  unfold set; infer_instance

theorem holds_defineOrThrow {w : δ.World} (o : ObjectRef) (key : PropertyKey) (d : Descriptor)
    [d.Coherent] (hd : d.Usable (δ.Callable w)) :
    δ.Holds w (defineOrThrow o key d) fun _ _ => True :=
  δ.bind (δ.define o key d hd) fun defined w' _ _ => by
    cases defined
    · exact .raise
    · exact δ.pure fun _ _ => trivial

instance (o : ObjectRef) (key : PropertyKey) (d : Descriptor) [d.IsPlain] :
    (defineOrThrow o key d).Obeys δ :=
  ⟨fun _ => holds_defineOrThrow o key d Descriptor.IsPlain.usable⟩

instance (constructor fallback : ObjectRef) : (eng.prototypeFor constructor fallback).Obeys δ := by
  refine .bind fun v => ?_
  cases v <;> infer_instance

/-! ### Conversions -/

instance (o : ObjectRef) (names : List PropertyKey) : (eng.firstPrimitive o names).Obeys δ := by
  induction names with
  | nil => exact inferInstanceAs (Eval.Obeys δ (Eval.raise _))
  | cons name rest ih =>
    refine .bind fun v => ?_
    cases v with
    | primitive p => exact ih
    | object f =>
      refine .bind fun callable => ?_
      split
      · refine .bind fun result => ?_
        cases result with
        | primitive p => infer_instance
        | object o' => exact ih
      · exact ih

instance (o : ObjectRef) (hint : Hint) : (eng.objectToPrimitive o hint).Obeys δ := by
  refine .bind fun method => ?_
  split
  · infer_instance
  · refine .bind fun v => ?_
    cases v <;> infer_instance

instance (v : Value) (hint : Hint) : (eng.toPrimitive v hint).Obeys δ := by
  cases v <;> (unfold toPrimitive; infer_instance)

instance (v : Value) : (eng.toNumber v).Obeys δ := by unfold toNumber; infer_instance

instance (v : Value) : (eng.toNumeric v).Obeys δ := by unfold toNumeric; infer_instance

instance (v : Value) : (eng.toUnits v).Obeys δ := by unfold toUnits; infer_instance

instance (v : Value) : (eng.toPropertyKey v).Obeys δ := by
  refine .bind fun p => ?_
  split <;> infer_instance

instance (o : ObjectRef) (key : PropertyKey) : (eng.getIfPresent o key).Obeys δ := by
  unfold getIfPresent; infer_instance

/-- One half of an accessor is tested before it is taken. -/
theorem holds_accessorField {w : δ.World} (o : ObjectRef) (key : PropertyKey) (half : String) :
    δ.Holds w (eng.accessorField o key half) fun found w' =>
      ∀ v ∈ found, v.IsHalf (δ.Callable w') := by
  refine .skip fun found w₁ => ?_
  split
  · exact δ.pure fun _ _ => nofun
  · refine δ.pure fun _ _ v hv => ?_
    cases hv
    exact .inl rfl
  · next f =>
    refine δ.bind (δ.isCallable f) fun callable w₂ _ hcallable => ?_
    split
    · next htrue =>
      refine δ.pure fun w₃ hw₃ v hv => ?_
      cases hv
      exact .inr ⟨f, rfl, δ.callable_later hw₃ (hcallable htrue)⟩
    · exact .raise
  · exact .raise

/-- A description that an object writes is coherent, and its accessor can be called: one that is not
so is refused. -/
theorem holds_toDescriptor {w : δ.World} (v : Value) :
    δ.Holds w (eng.toDescriptor v) fun d w' => d.Coherent ∧ d.Usable (δ.Callable w') := by
  unfold toDescriptor
  cases v with
  | primitive p => exact .raise
  | object o =>
    refine .skip fun enumerable _ => .skip fun configurable _ => .skip fun value _ => ?_
    refine .skip fun writable _ => δ.bind (holds_accessorField o _ _) fun get w₁ _ hget => ?_
    refine δ.bind (holds_accessorField o _ _) fun set w₂ hw₂ hset => ?_
    dsimp only
    split
    · exact .raise
    · next hmixed =>
      refine δ.pure fun w₃ hw₃ => ⟨⟨fun hdata => ?_⟩, fun u hu => ?_, fun u hu => ?_⟩
      · simpa [hdata] using hmixed
      · exact (hget u hu).mono fun _ hf => δ.callable_later hw₃ (δ.callable_later hw₂ hf)
      · exact (hset u hu).mono fun _ hf => δ.callable_later hw₃ hf

instance (d : Option Descriptor) : (Eval.descriptorObject d).Obeys δ := by
  cases d <;> (unfold Eval.descriptorObject; infer_instance)

/-! ### Operators -/

instance (x y : Value) : (eng.looselyEqual x y).Obeys δ := by
  cases x <;> cases y <;> (unfold looselyEqual; infer_instance)

instance (x y : Value) : (eng.less x y).Obeys δ := by unfold less; infer_instance

instance (x y : Value) : (eng.greater x y).Obeys δ := by unfold greater; infer_instance

instance (constructor value : Value) : (eng.ordinaryHasInstance constructor value).Obeys δ := by
  unfold ordinaryHasInstance
  split
  · refine .bind fun callable => ?_
    split
    · refine .bind fun v => ?_
      cases v <;> infer_instance
    · infer_instance
  · infer_instance

instance (value target : Value) : (eng.instanceOf value target).Obeys δ := by
  cases target <;> (unfold instanceOf; infer_instance)

instance (key target : Value) : (eng.isIn key target).Obeys δ := by
  cases target <;> (unfold isIn; infer_instance)

/-- An operator that Numbers have never meets a fault. -/
theorem obeys_arithmetic {op : BinaryOp} (h : ∀ a b, (op.onNumbers? a b).isSome = true)
    (x y : Value) : (eng.arithmetic op x y).Obeys δ := by
  refine .bind fun a => .bind fun b => ?_
  split
  · next a b =>
    obtain ⟨r, hr⟩ := Option.isSome_iff_exists.mp (h a b)
    rw [hr]
    infer_instance
  · infer_instance
  · infer_instance

instance (p q : Primitive) : (join p q).Obeys δ := by unfold join; infer_instance

instance (p q : Primitive) : (eng.addPrimitives p q).Obeys δ := by
  unfold addPrimitives
  split
  · infer_instance
  · infer_instance
  · exact obeys_arithmetic (fun _ _ => rfl) _ _

instance (x y : Value) : (eng.add x y).Obeys δ := by unfold add; infer_instance

/-- Every operator that is not one of comparison is one of arithmetic. -/
instance (op : BinaryOp) (x y : Value) : (eng.applyBinary op x y).Obeys δ := by
  unfold applyBinary
  cases op
  all_goals first
    | infer_instance
    | exact obeys_arithmetic (fun _ _ => rfl) x y

instance (op : UnaryOp) (v : Value) : (eng.applyUnary op v).Obeys δ := by
  unfold applyUnary
  cases op with
  | not => infer_instance
  | plus => infer_instance
  | minus =>
    refine .bind fun x => ?_
    cases x <;> infer_instance
  | bitNot =>
    refine .bind fun x => ?_
    cases x <;> infer_instance

end Engine

/-! ### Names and members -/

namespace Eval

variable {δ : Discipline} {α : Type} {name : String} {scope : ScopeRef}

instance : (resolve name scope).Obeys δ := by
  refine .bind fun found => ?_
  split <;> infer_instance

instance (e : BindingError) : (raiseBinding name e : Eval α).Obeys δ := by
  cases e <;> (unfold raiseBinding; infer_instance)

instance : (readBinding scope name).Obeys δ := by
  refine .bind fun found => ?_
  split <;> infer_instance

instance : (resolveThis scope).Obeys δ := by
  refine .bind fun found => ?_
  split
  · infer_instance
  · refine .bind fun this => ?_
    split <;> infer_instance

instance (base : Value) (n : PrivateName) (action : String) :
    (privateElement base n action).Obeys δ := by
  refine .bind fun found => ?_
  split <;> infer_instance

end Eval

namespace Engine

variable {δ : Discipline} {eng : Engine} [heng : eng.Obeys δ] {scope : ScopeRef}

instance : (homeObject? scope).Obeys δ := by
  refine .bind fun found => ?_
  split <;> infer_instance

instance (base : Value) (name : PrivateName) : (eng.privateGet base name).Obeys δ := by
  refine .bind fun element => ?_
  split <;> infer_instance

instance (base : Value) (name : PrivateName) (value : Value) :
    (eng.privateSet base name value).Obeys δ := by
  refine .bind fun element => ?_
  split <;> infer_instance

instance (base : Value) (key : PropertyKey) (this : Value) :
    (eng.getProperty base key this).Obeys δ := by
  cases base <;> (unfold getProperty; infer_instance)

instance (base : Value) (key : PropertyKey) (this value : Value) (strict : Bool) :
    (eng.setProperty base key this value strict).Obeys δ := by
  cases base <;> (unfold setProperty; infer_instance)

instance (r : Reference) : (eng.getValue r).Obeys δ := by
  cases r <;> (unfold getValue; infer_instance)

/-- Only a binding is assigned to in a scope. -/
instance [∀ q name value strict, (Eval.assignBinding q name value strict).Obeys δ] (r : Reference)
    (value : Value) : (eng.putValue r value).Obeys δ := by
  refine .bind fun strict => ?_
  cases r <;> infer_instance

instance (o : ObjectRef) (v : Value) : (setProto o v).Obeys δ := by
  unfold setProto
  split <;> infer_instance

instance (name : String) : (deleteName name scope).Obeys δ := by
  refine .bind fun r => ?_
  split <;> infer_instance

end Engine

end Ecma
