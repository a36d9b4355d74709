import Ecma.Eval.Call
import Ecma.Proofs.Run.Operation

/-! The built-in functions keep every discipline that the functions which they call keep. Only one
of them makes code: `Function`, from text that is legal where it is accepted. -/

namespace Ecma

namespace Eval

variable {δ : Discipline} {α : Type} {ofPrimitive : Primitive → Option α} {ofKind : ObjectKind → Option α}

instance (this : Value) (method expected : String) :
    (unwrap ofPrimitive ofKind this method expected).Obeys δ := by
  have hfound (found : Option α) : (match found with
      | some a => pure a
      | none => raise (.wrongThis method expected) : Eval α).Obeys δ := by
    cases found <;> infer_instance
  cases this with
  | primitive p => exact hfound _
  | object o => exact .bind hfound

instance (this : Value) (method : String) : (thisBoolean this method).Obeys δ := by
  unfold thisBoolean; infer_instance

instance (this : Value) (method : String) : (thisNumber this method).Obeys δ := by
  unfold thisNumber; infer_instance

instance (this : Value) (method : String) : (thisBigInt this method).Obeys δ := by
  unfold thisBigInt; infer_instance

instance (this : Value) (method : String) : (thisString this method).Obeys δ := by
  unfold thisString; infer_instance

instance (this : Value) (method : String) : (thisSymbol this method).Obeys δ := by
  unfold thisSymbol; infer_instance

end Eval

namespace Engine

variable {δ : Discipline} {eng : Engine} [eng.Obeys δ] (call : Invocation)

instance (newTarget : Option ObjectRef) (fallback : ObjectRef) :
    (eng.builtinPrototype newTarget fallback).Obeys δ := by
  cases newTarget <;> (unfold builtinPrototype; infer_instance)

instance (p : Primitive) (newTarget : Option ObjectRef) :
    (eng.primitiveOrWrapper p newTarget).Obeys δ := by
  cases newTarget <;> (unfold primitiveOrWrapper; infer_instance)

/-! ### Objects -/

instance : (eng.objectConstructor call).Obeys δ := by unfold objectConstructor; infer_instance

instance : (getPrototypeOf call).Obeys δ := by unfold getPrototypeOf; infer_instance

instance (v : Value) : (prototypeArgument v).Obeys δ := by
  unfold prototypeArgument
  split <;> infer_instance

instance : (setPrototypeOf call).Obeys δ := by
  have hrest : (do
      let prototype ← prototypeArgument (call.arg 1)
      if let .object o := call.arg 0 then
        if !(← Eval.setPrototype o prototype) then Eval.raise .prototypeRefused
      return call.arg 0 : Eval Value).Obeys δ := by
    refine .bind fun prototype => ?_
    dsimp only
    split <;> infer_instance
  unfold setPrototypeOf
  dsimp only
  split
  · exact .bind fun _ => hrest
  · exact hrest

/-- What is known of a description that an object writes. -/
def Described (δ : Discipline) (entry : PropertyKey × Descriptor) (w : δ.World) : Prop :=
  entry.2.Coherent ∧ entry.2.Usable (δ.Callable w)

omit [eng.Obeys δ] in
theorem lasts_described : δ.Lasts (Described δ) :=
  fun _ _ _ hw h => ⟨h.1, h.2.mono fun _ => δ.callable_later hw⟩

theorem holds_collectDescriptors {w : δ.World} (o : ObjectRef) (keys : List PropertyKey) :
    δ.Holds w (eng.collectDescriptors o keys) fun found w' => ∀ entry ∈ found, Described δ entry w' := by
  let described (entry : Option (PropertyKey × Descriptor)) (w' : δ.World) : Prop :=
    ∀ e ∈ entry, Described δ e w'
  have hlasts : δ.Lasts described := fun _ _ _ hw h e he => lasts_described _ _ _ hw (h e he)
  refine δ.bind (Discipline.Holds.mapM hlasts fun key _ w₁ => ?_) fun found w₂ _ hfound => ?_
  · refine .skip fun p _ => ?_
    split
    · split
      · refine .skip fun v _ => δ.bind (holds_toDescriptor v) fun d w₃ _ hd => ?_
        refine δ.pure fun w₄ hw₄ entry hentry => ?_
        cases hentry
        exact lasts_described (key, d) w₃ w₄ hw₄ hd
      · exact δ.pure fun _ _ _ hentry => by cases hentry
    · exact δ.pure fun _ _ _ hentry => by cases hentry
  · refine δ.pure fun w₃ hw₃ entry hentry => ?_
    obtain ⟨each, heach, hid⟩ := List.mem_filterMap.mp hentry
    exact lasts_described entry w₂ w₃ hw₃ (hfound each heach entry hid)

instance (o : ObjectRef) (properties : Value) : (eng.defineProperties o properties).Obeys δ := by
  refine .bind fun source => .bind fun keys => ?_
  refine .bindWhere (fun _ => holds_collectDescriptors source keys) fun found w hfound => ?_
  refine .each lasts_described hfound fun entry w' hentry => ?_
  have := hentry.1
  exact holds_defineOrThrow o entry.1 entry.2 hentry.2

instance : (eng.objectCreate call).Obeys δ := by unfold objectCreate; infer_instance

instance : (eng.objectDefineProperty call).Obeys δ := by
  unfold objectDefineProperty
  split
  · infer_instance
  · refine .bind fun key => .bindWhere (fun _ => holds_toDescriptor _) fun d w hd => ?_
    have := hd.1
    exact δ.bind (holds_defineOrThrow _ key d hd.2) fun _ _ _ _ => δ.pure fun _ _ => trivial

instance : (eng.getOwnPropertyDescriptor call).Obeys δ := by
  unfold getOwnPropertyDescriptor; infer_instance

instance : (eng.ownArgument call).Obeys δ := by unfold ownArgument; infer_instance

instance : (eng.hasOwnProperty call).Obeys δ := by unfold hasOwnProperty; infer_instance

instance : (eng.propertyIsEnumerable call).Obeys δ := by unfold propertyIsEnumerable; infer_instance

instance : (isPrototypeOf call).Obeys δ := by
  unfold isPrototypeOf
  split <;> infer_instance

instance : (eng.objectToString call).Obeys δ := by
  unfold objectToString
  split <;> infer_instance

instance : (objectValueOf call).Obeys δ := by unfold objectValueOf; infer_instance

/-! ### Functions -/

/-- A function that is read from text of its own stands in no other. -/
theorem has_ofProgram? {source : String} {p : Program} {f : FunctionDef}
    (hparse : Program.parse source = .ok p) (hf : FunctionDef.ofProgram? source p = some f) :
    Place.Has ⟨p, []⟩ (.function f false false) := by
  unfold FunctionDef.ofProgram? at hf
  split at hf
  · next hbody =>
    split at hf
    · cases hf
      have hmem : .function f ∈ p.body := hbody ▸ List.mem_singleton_self _
      exact .part (.script ⟨source, hparse⟩ hmem) (by simp)
    · cases hf
  · cases hf

theorem obeys_readFunction (source : String) : (match Program.parse source with
    | .error e => Eval.raise (.parse e)
    | .ok program =>
      match FunctionDef.ofProgram? source program with
      | some f =>
        .object <$> Eval.atSite ⟨program, []⟩
          (Eval.instantiateFunction f Intrinsic.globalScope "anonymous")
      | none => Eval.raise .functionBody : Eval Value).Obeys δ := by
  split
  · infer_instance
  · next program hparse =>
    split
    · next f hf =>
      have : (Eval.atSite ⟨program, []⟩
          (Eval.instantiateFunction f Intrinsic.globalScope "anonymous")).Obeys δ :=
        ⟨fun _ => δ.instantiate _ (has_ofProgram? hparse hf)⟩
      infer_instance
    · infer_instance

instance : (eng.functionConstructor call).Obeys δ := by
  unfold functionConstructor
  split <;> exact .bind fun body => .bind fun params => obeys_readFunction _

instance : (eng.functionCall call).Obeys δ := by
  unfold functionCall
  split <;> infer_instance

instance : (functionToString call).Obeys δ := by
  unfold functionToString
  dsimp only
  split <;> infer_instance

instance : (eng.functionHasInstance call).Obeys δ := by unfold functionHasInstance; infer_instance

/-! ### Errors -/

instance (o : ObjectRef) (key : PropertyKey) (default : String) :
    (eng.textProperty o key default).Obeys δ := by
  refine .bind fun v => ?_
  split <;> infer_instance

instance (kind : ErrorKind) : (eng.errorConstructor kind call).Obeys δ := by
  have hcause (o : ObjectRef) : (do
      if let .object options := call.arg 1 then
        if let some cause ← eng.getIfPresent options "cause" then
          Eval.put o "cause" (.hidden cause)
      return .object o : Eval Value).Obeys δ := by
    dsimp only
    split
    · refine .bind fun cause => ?_
      split <;> infer_instance
    · infer_instance
  refine .bind fun prototype => .bind fun o => ?_
  dsimp only
  split
  · exact .bind fun text => .bind fun _ => hcause o
  · exact hcause o

instance : (eng.errorToString call).Obeys δ := by
  unfold errorToString
  split <;> infer_instance

/-! ### Booleans and numbers -/

instance : (eng.booleanConstructor call).Obeys δ := by unfold booleanConstructor; infer_instance

instance : (booleanToString call).Obeys δ := by unfold booleanToString; infer_instance

instance : (booleanValueOf call).Obeys δ := by unfold booleanValueOf; infer_instance

instance (args : List Value) : (eng.numberArgument args).Obeys δ := by
  cases args with
  | nil => exact inferInstanceAs (Eval.Obeys δ (pure _))
  | cons v rest =>
    refine .bind fun x => ?_
    cases x <;> infer_instance

instance : (eng.numberConstructor call).Obeys δ := by unfold numberConstructor; infer_instance

instance (v : Value) : (eng.radixArgument v).Obeys δ := by
  unfold radixArgument
  split
  · infer_instance
  · refine .bind fun x => ?_
    split <;> infer_instance

instance : (eng.numberToString call).Obeys δ := by unfold numberToString; infer_instance

instance : (numberValueOf call).Obeys δ := by unfold numberValueOf; infer_instance

instance : (eng.bigIntFunction call).Obeys δ := by
  refine .bind fun p => ?_
  split
  · split <;> infer_instance
  · infer_instance
  · infer_instance
  · split <;> infer_instance
  · infer_instance

instance : (eng.bigIntToString call).Obeys δ := by unfold bigIntToString; infer_instance

instance : (bigIntValueOf call).Obeys δ := by unfold bigIntValueOf; infer_instance

/-! ### Strings and symbols -/

instance : (eng.stringArgument call).Obeys δ := by
  unfold stringArgument
  split <;> infer_instance

instance : (eng.stringConstructor call).Obeys δ := by unfold stringConstructor; infer_instance

instance : (stringToString call).Obeys δ := by unfold stringToString; infer_instance

instance : (stringValueOf call).Obeys δ := by unfold stringValueOf; infer_instance

instance (method : String) : (eng.coercedThis call method).Obeys δ := by
  unfold coercedThis; infer_instance

instance : (eng.charAt call).Obeys δ := by unfold charAt; infer_instance

instance : (eng.charCodeAt call).Obeys δ := by unfold charCodeAt; infer_instance

instance : (eng.indexOf call).Obeys δ := by unfold indexOf; infer_instance

instance : (eng.symbolFunction call).Obeys δ := by
  have hrest : (do
      let description ← match call.arg 0 with
        | .undefined => pure none
        | v => some <$> eng.toUnits v
      .symbol <$> Eval.newSymbol description : Eval Value).Obeys δ := by
    split <;> infer_instance
  unfold symbolFunction
  dsimp only
  split
  · exact .bind fun _ => hrest
  · exact hrest

instance : (symbolToString call).Obeys δ := by unfold symbolToString; infer_instance

instance : (symbolValueOf call).Obeys δ := by unfold symbolValueOf; infer_instance

instance : (symbolDescription call).Obeys δ := by
  refine .bind fun s => ?_
  split <;> infer_instance

instance : (symbolToPrimitive call).Obeys δ := by unfold symbolToPrimitive; infer_instance

instance (v : Value) : (eng.outputText v).Obeys δ := by
  unfold outputText
  split <;> infer_instance

instance : (eng.writeLine call).Obeys δ := by unfold writeLine; infer_instance

/-! ### All built-in functions -/

instance (b : Builtin) : (eng.runBuiltin b call).Obeys δ := by
  unfold runBuiltin
  cases b <;> infer_instance

/-! ### Around calls -/

omit [eng.Obeys δ] in
instance (strict : Bool) (this : Value) : (calledThis strict this).Obeys δ := by
  unfold calledThis; infer_instance

omit [eng.Obeys δ] in
instance (scope : ScopeRef) : (constructed.thisOf scope).Obeys δ := by
  refine .bind fun this => ?_
  split <;> infer_instance

omit [eng.Obeys δ] in
instance (kind : ConstructorKind) (scope : ScopeRef) (c : Completion) :
    (constructed kind scope c).Obeys δ := by
  unfold constructed
  split <;> infer_instance

instance (callee : ObjectRef) (kind : ConstructorKind) (target : ObjectRef)
    [∀ o, (initialiseInstance o callee).Obeys δ] :
    (eng.startingObject callee kind target).Obeys δ := by
  cases kind <;> (unfold startingObject; infer_instance)

instance (b : Builtin) (args : List Value) (target : ObjectRef) :
    (eng.constructBuiltin b args target).Obeys δ := by
  refine .bind fun v => ?_
  cases v <;> infer_instance

end Engine

end Ecma
