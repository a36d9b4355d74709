import Ecma.Builtin.Run
import Ecma.Proofs.Frame.Expression

/-! The built-in functions keep their frame, as far as the functions that they call do. -/

namespace Ecma

namespace Eval

variable {ρ : Regime} {n : Nat} {α : Type} [Unlinked α] {ofPrimitive : Primitive → Option α}
  {ofKind : ObjectKind → Option α} {this : Value} {method : String}

instance {expected : String} :
    (unwrap ofPrimitive ofKind this method expected).Keeps ρ n := by
  have hfound (n : Nat) (found : Option α) : (match found with
      | some a => pure a
      | none => raise (.wrongThis method expected) : Eval α).Keeps ρ n := by
    cases found <;> infer_instance
  cases this with
  | primitive p => exact hfound _ _
  | object o => exact .bind fun m _ found _ => hfound m found

instance : (thisBoolean this method).Keeps ρ n := by unfold thisBoolean; infer_instance

instance : (thisNumber this method).Keeps ρ n := by unfold thisNumber; infer_instance

instance : (thisBigInt this method).Keeps ρ n := by unfold thisBigInt; infer_instance

instance : (thisString this method).Keeps ρ n := by unfold thisString; infer_instance

instance : (thisSymbol this method).Keeps ρ n := by unfold thisSymbol; infer_instance

end Eval

namespace Engine

variable {ρ : Regime} {n : Nat} {eng : Engine} [heng : eng.Keeps ρ]

instance {newTarget : Option ObjectRef} {fallback : ObjectRef} [h : Known ρ.tracked n newTarget]
    [Known ρ.tracked n fallback] : (eng.builtinPrototype newTarget fallback).Keeps ρ n := by
  unfold builtinPrototype
  split
  · have := h.of_some
    infer_instance
  · infer_instance

instance {p : Primitive} {newTarget : Option ObjectRef} [h : Known ρ.tracked n newTarget] :
    (eng.primitiveOrWrapper p newTarget).Keeps ρ n := by
  unfold primitiveOrWrapper
  split
  · infer_instance
  · have := h.of_some
    infer_instance

section

variable {o : ObjectRef} {v : Value} {call : Invocation} [Known ρ.tracked n o] [Known ρ.tracked n v]
  [hcall : Known ρ.tracked n call]

/-! ### Objects -/

instance : (eng.objectConstructor call).Keeps ρ n := by
  unfold objectConstructor
  dsimp only
  infer_instance

instance : (getPrototypeOf call).Keeps ρ n := by unfold getPrototypeOf; infer_instance

instance : (prototypeArgument v).Keeps ρ n := by
  unfold prototypeArgument
  split <;> infer_instance

instance : (setPrototypeOf call).Keeps ρ n := by
  have htarget : Known ρ.tracked n (call.arg 0) := inferInstance
  unfold setPrototypeOf
  dsimp only
  generalize call.arg 0 = target at htarget ⊢
  split
  · infer_instance
  · refine .bind fun m _ prototype _ => ?_
    cases target <;> infer_instance

instance {keys : List PropertyKey} : (eng.collectDescriptors o keys).Keeps ρ n := by
  have : (keys.mapM fun key => do
      match ← Eval.heap (·.getOwn? o key) with
      | some p =>
        if p.isEnumerable then return some (key, ← eng.toDescriptor (← eng.get o key))
        else return none
      | none => return none : Eval (List (Option (PropertyKey × Descriptor)))).Keeps ρ n := by
    refine .mapM fun m _ key _ => .bind fun m _ p _ => ?_
    split <;> infer_instance
  unfold collectDescriptors
  infer_instance

instance : (eng.defineProperties o v).Keeps ρ n := by
  refine .bind fun m _ source _ => .bind fun m _ keys _ => .bind fun m _ descriptors _ => ?_
  refine .forM fun m _ (key, d) hentry => ?_
  have : Known ρ.tracked m d := hentry.snd
  infer_instance

instance : (eng.objectCreate call).Keeps ρ n := by unfold objectCreate; infer_instance

instance : (eng.objectDefineProperty call).Keeps ρ n := by
  have htarget : Known ρ.tracked n (call.arg 0) := inferInstance
  unfold objectDefineProperty
  generalize call.arg 0 = target at htarget ⊢
  cases target with
  | primitive p => infer_instance
  | object o => exact .bind fun m _ key _ => .bind fun m _ d _ => inferInstance

instance : (eng.getOwnPropertyDescriptor call).Keeps ρ n := by
  unfold getOwnPropertyDescriptor; infer_instance

instance : (eng.ownArgument call).Keeps ρ n := by unfold ownArgument; infer_instance

instance : (eng.hasOwnProperty call).Keeps ρ n := by unfold hasOwnProperty; infer_instance

instance : (eng.propertyIsEnumerable call).Keeps ρ n := by
  unfold propertyIsEnumerable; infer_instance

instance : (isPrototypeOf call).Keeps ρ n := by
  unfold isPrototypeOf
  split <;> infer_instance

instance : (eng.objectToString call).Keeps ρ n := by
  unfold objectToString
  split <;> infer_instance

instance : (objectValueOf call).Keeps ρ n := by unfold objectValueOf; infer_instance

/-! ### Functions -/

theorem keeps_readFunction {source : String} : (match Program.parse source with
    | .error e => Eval.raise (.parse e)
    | .ok program =>
      match FunctionDef.ofProgram? source program with
      | some f =>
        .object <$> Eval.atSite ⟨program, []⟩
          (Eval.instantiateFunction f Intrinsic.globalScope "anonymous")
      | none => Eval.raise .functionBody : Eval Value).Keeps ρ n := by
  split
  · infer_instance
  · split <;> infer_instance

instance : (eng.functionConstructor call).Keeps ρ n := by
  have hlast : Known ρ.tracked n call.args.getLast? := inferInstance
  unfold functionConstructor
  dsimp only
  split
  · next heq =>
    rw [heq] at hlast
    have := hlast.of_some
    exact .bind fun m _ body _ => .bind fun m _ params _ => keeps_readFunction
  · exact .bind fun m _ body _ => .bind fun m _ params _ => keeps_readFunction

instance : (eng.functionCall call).Keeps ρ n := by
  have hthis : Known ρ.tracked n call.this := inferInstance
  unfold functionCall
  generalize call.this = this at hthis ⊢
  cases this <;> infer_instance

instance : (functionToString call).Keeps ρ n := by
  unfold functionToString
  dsimp only
  split <;> infer_instance

instance : (eng.functionHasInstance call).Keeps ρ n := by
  unfold functionHasInstance; infer_instance

/-! ### Errors -/

instance {key : PropertyKey} {default : String} :
    (eng.textProperty o key default).Keeps ρ n := by
  refine .bind fun m _ v _ => ?_
  split <;> infer_instance

instance {kind : ErrorKind} : (eng.errorConstructor kind call).Keeps ρ n := by
  have hcause (m : Nat) (o : ObjectRef) [Known ρ.tracked m call] [Known ρ.tracked m o] : (do
      if let .object options := call.arg 1 then
        if let some cause ← eng.getIfPresent options "cause" then
          Eval.put o "cause" (.hidden cause)
      return .object o : Eval Value).Keeps ρ m := by
    have hoptions : Known ρ.tracked m (call.arg 1) := inferInstance
    dsimp only
    generalize call.arg 1 = options at hoptions ⊢
    cases options with
    | primitive p => infer_instance
    | object options =>
      refine .bind fun m _ cause hcause => ?_
      cases cause with
      | none => infer_instance
      | some cause =>
        have := hcause.of_some
        infer_instance
  refine .bind fun m _ prototype _ => .bind fun m _ o _ => ?_
  dsimp only
  split
  · exact .bind fun m _ text _ => .bind fun m _ _ _ => hcause m o
  · exact hcause m o

instance : (eng.errorToString call).Keeps ρ n := by
  have hthis : Known ρ.tracked n call.this := inferInstance
  unfold errorToString
  generalize call.this = this at hthis ⊢
  cases this <;> infer_instance

/-! ### Booleans and numbers -/

instance : (eng.booleanConstructor call).Keeps ρ n := by
  unfold booleanConstructor; infer_instance

instance : (booleanToString call).Keeps ρ n := by unfold booleanToString; infer_instance

instance : (booleanValueOf call).Keeps ρ n := by unfold booleanValueOf; infer_instance

instance {args : List Value} [hargs : Known ρ.tracked n args] :
    (eng.numberArgument args).Keeps ρ n := by
  cases args with
  | nil => exact inferInstanceAs (Eval.Keeps ρ n (pure _))
  | cons v rest =>
    have := hargs.of_mem List.mem_cons_self
    refine .bind fun m _ x _ => ?_
    cases x <;> infer_instance

instance : (eng.numberConstructor call).Keeps ρ n := by
  unfold numberConstructor; infer_instance

instance : (eng.radixArgument v).Keeps ρ n := by
  unfold radixArgument
  split
  · infer_instance
  · refine .bind fun m _ x _ => ?_
    split <;> infer_instance

instance : (eng.numberToString call).Keeps ρ n := by unfold numberToString; infer_instance

instance : (numberValueOf call).Keeps ρ n := by unfold numberValueOf; infer_instance

instance : (eng.bigIntFunction call).Keeps ρ n := by
  refine .bind fun m _ p _ => ?_
  split
  · split <;> infer_instance
  · infer_instance
  · infer_instance
  · split <;> infer_instance
  · infer_instance

instance : (eng.bigIntToString call).Keeps ρ n := by unfold bigIntToString; infer_instance

instance : (bigIntValueOf call).Keeps ρ n := by unfold bigIntValueOf; infer_instance

/-! ### Strings and symbols -/

instance : (eng.stringArgument call).Keeps ρ n := by
  have hargs : Known ρ.tracked n call.args := inferInstance
  unfold stringArgument
  split
  · infer_instance
  · infer_instance
  · next heq _ =>
    rw [heq] at hargs
    have := hargs.of_mem List.mem_cons_self
    infer_instance

instance : (eng.stringConstructor call).Keeps ρ n := by
  unfold stringConstructor; infer_instance

instance : (stringToString call).Keeps ρ n := by unfold stringToString; infer_instance

instance : (stringValueOf call).Keeps ρ n := by unfold stringValueOf; infer_instance

instance {method : String} : (eng.coercedThis call method).Keeps ρ n := by
  unfold coercedThis; infer_instance

instance : (eng.charAt call).Keeps ρ n := by unfold charAt; infer_instance

instance : (eng.charCodeAt call).Keeps ρ n := by unfold charCodeAt; infer_instance

instance : (eng.indexOf call).Keeps ρ n := by
  unfold indexOf
  dsimp only
  infer_instance

instance : (eng.symbolFunction call).Keeps ρ n := by
  unfold symbolFunction
  dsimp only
  split
  · infer_instance
  · split <;> infer_instance

instance : (symbolToString call).Keeps ρ n := by unfold symbolToString; infer_instance

instance : (symbolValueOf call).Keeps ρ n := by unfold symbolValueOf; infer_instance

instance : (symbolDescription call).Keeps ρ n := by
  refine .bind fun m _ s _ => ?_
  split <;> infer_instance

instance : (symbolToPrimitive call).Keeps ρ n := by unfold symbolToPrimitive; infer_instance

instance : (eng.outputText v).Keeps ρ n := by
  unfold outputText
  split <;> infer_instance

instance : (eng.writeLine call).Keeps ρ n := by unfold writeLine; infer_instance

/-! ### All built-in functions -/

instance {b : Builtin} : (eng.runBuiltin b call).Keeps ρ n := by
  unfold runBuiltin
  cases b <;> infer_instance

end

end Engine

end Ecma
