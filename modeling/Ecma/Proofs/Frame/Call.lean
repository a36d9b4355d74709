import Ecma.Eval.Script
import Ecma.Proofs.Frame.Builtin
import Ecma.Proofs.Frame.Statement
import Ecma.Proofs.Run.Watch

/-! Calls and scripts keep their frame, and with them the whole evaluator: at every depth of nesting
by induction on it, as calls are the only way into code that is not part of the code that calls. -/

namespace Ecma

namespace Engine

variable {ρ : Regime} {n : Nat} {eng : Engine} [heng : eng.Keeps ρ]

section

variable {callee target : ObjectRef} {f : ScriptFunction} {kind : ConstructorKind} {v : Value}
  {scope : ScopeRef} {args : List Value} [Known ρ.tracked n callee] [Known ρ.tracked n target]
  [Known ρ.tracked n f] [Known ρ.tracked n v] [Known ρ.tracked n args]

/-! ### Calls -/

instance {d : FunctionDef} : (eng.runBody callee d scope args).Keeps ρ n := by
  unfold runBody
  have : (do
      let inner ← Eval.instantiateBody callee d scope args
      let ending ← eng.runList inner none d.body
      if ending.isJump then Eval.note (.strayJump ending)
      return ending : Eval Completion).Keeps ρ n := by
    refine .bind fun m _ inner _ => .bind fun m _ ending _ => ?_
    dsimp only
    infer_instance
  infer_instance

instance {strict : Bool} : (calledThis strict v).Keeps ρ n := by
  unfold calledThis; infer_instance

instance : (eng.callScript callee f v args).Keeps ρ n := by
  unfold callScript
  dsimp only
  split
  · infer_instance
  · split
    · infer_instance
    · refine .bind fun m _ this _ => .bind fun m _ scope _ => .bind fun m _ ending hending => ?_
      split
      · have := hending.returned
        infer_instance
      · infer_instance

instance : (eng.callObject callee v args).Keeps ρ n := by
  refine .bind fun m _ kind hkind => ?_
  split
  · infer_instance
  · have := hkind.script
    infer_instance
  · infer_instance

/-! ### Construction -/

instance : (eng.runConstructor callee f kind scope args).Keeps ρ n := by
  unfold runConstructor
  split <;> infer_instance

instance : (constructed.thisOf scope).Keeps ρ n := by
  refine .bind fun m _ this hthis => ?_
  split
  · have := hthis.of_some
    infer_instance
  · infer_instance

instance {c : Completion} [hc : Known ρ.tracked n c] : (constructed kind scope c).Keeps ρ n := by
  unfold constructed
  split
  · have := hc.returned
    infer_instance
  all_goals infer_instance

instance : (eng.startingObject callee kind target).Keeps ρ n := by
  cases kind <;> (unfold startingObject; infer_instance)

instance : (eng.constructScript callee f kind args target).Keeps ρ n := by
  refine .bind fun m _ this _ => .bind fun m _ scope _ => .bind fun m _ ending _ => ?_
  infer_instance

instance {b : Builtin} : (eng.constructBuiltin b args target).Keeps ρ n := by
  refine .bind fun m _ v _ => ?_
  cases v <;> infer_instance

instance : (eng.constructObject callee args target).Keeps ρ n := by
  refine .bind fun m _ kind hkind => ?_
  split
  · infer_instance
  · have := hkind.script
    split <;> infer_instance
  · infer_instance

end

/-! ### The whole evaluator -/

instance : exhausted.Keeps ρ where
  expr _ _ n := inferInstanceAs (Eval.Keeps ρ n (throw .exhausted : Eval Value))
  statement _ _ _ n := inferInstanceAs (Eval.Keeps ρ n (throw .exhausted : Eval Completion))
  call n _ _ _ _ _ _ := inferInstanceAs (Eval.Keeps ρ n (throw .exhausted : Eval Value))
  construct n _ _ _ _ _ _ :=
    inferInstanceAs (Eval.Keeps ρ n (throw .exhausted : Eval ObjectRef))

/-- A lookout that keeps its frame does not change that the evaluator does. -/
theorem keeps_watched {watch : Entry → Eval Unit} (hwatch : ∀ entry n, (watch entry).Keeps ρ n)
    (fuel : Nat) : (watched watch fuel).Keeps ρ := by
  induction fuel with
  | zero => exact inferInstanceAs (exhausted.Keeps ρ)
  | succ fuel ih =>
    have := fun entry n => hwatch entry n
    exact {
      expr := fun e scope n => inferInstanceAs (Eval.Keeps ρ n (do
        watch (.expr e scope)
        (watched watch fuel).evaluate e scope))
      statement := fun t scope labels n => inferInstanceAs (Eval.Keeps ρ n (do
        watch (.statement t scope labels)
        (watched watch fuel).run t scope labels))
      call := fun n f this args _ _ _ => inferInstanceAs (Eval.Keeps ρ n (do
        watch (.call f this args)
        (watched watch fuel).callObject f this args))
      construct := fun n f args target _ _ _ => inferInstanceAs (Eval.Keeps ρ n (do
        watch (.construct f args target)
        (watched watch fuel).constructObject f args target)) }

instance (fuel : Nat) : (ofFuel fuel).Keeps ρ :=
  watched_idle fuel ▸ keeps_watched (fun _ _ => inferInstance) fuel

instance : full.Keeps ρ := inferInstanceAs ((ofFuel _).Keeps ρ)

/-! ### Scripts -/

instance {p : Program} : (Eval.checkGlobalNames p).Keeps ρ n := by
  unfold Eval.checkGlobalNames; infer_instance

instance {f : FunctionDef} : (eng.declareGlobalFunction f).Keeps ρ n := by
  unfold declareGlobalFunction
  dsimp only
  have (m : Nat) (current : Option Property) (v : Value) [Known ρ.tracked m v] :
      Known ρ.tracked m (Eval.globalFunction current v) := by
    unfold Eval.globalFunction
    split <;> infer_instance
  refine .bind fun m _ o _ => .bind fun m _ current _ => ?_
  infer_instance

instance {name : String} : (declareGlobalVar name).Keeps ρ n := by
  unfold declareGlobalVar; infer_instance

instance {p : Program} : (eng.declareGlobals p).Keeps ρ n := by
  unfold declareGlobals
  dsimp only
  refine .bind fun m _ _ _ => .bind fun m _ _ _ => .bind fun m _ _ _ => .bind fun m _ _ _ => ?_
  infer_instance

instance {p : Program} : (eng.runProgram p).Keeps ρ n := by
  unfold runProgram; infer_instance

instance {p : Program} : (eng.runScript p).Keeps ρ n := by
  refine .bind fun m _ ending hending => ?_
  split
  · have := hending.normal
    infer_instance
  · infer_instance

instance {source : String} : (eng.runSource source).Keeps ρ n := by
  unfold runSource
  split <;> infer_instance

instance {v : Value} [hv : Known ρ.tracked n v] : (eng.format v).Keeps ρ n := by
  cases v with
  | primitive p => exact inferInstanceAs (Eval.Keeps ρ n (pure _))
  | object o =>
    refine .bind fun m _ kind _ => ?_
    split <;> infer_instance

end Engine

end Ecma
