import Ecma.Eval.Statement
import Ecma.Proofs.Frame.Expression

/-! Statements keep their frame, as far as the code that they run does, however they end: by a jump
or an exception too. -/

namespace Ecma

namespace Engine

variable {ρ : Regime} {n : Nat} {eng : Engine} [heng : eng.Keeps ρ]

/-! ### Lists and blocks -/

instance {scope : ScopeRef} {last : Option Value} {body : List Stmt} [Known ρ.tracked n last] :
    (eng.runList scope last body).Keeps ρ n := by
  induction body generalizing n last with
  | nil => exact inferInstanceAs (Eval.Keeps ρ n (pure _))
  | cons s rest ih =>
    refine .bind fun m _ c hc => ?_
    split
    · have := hc.normal
      exact ih
    · infer_instance

section

variable {scope : ScopeRef} {v : Value} {test : Expr} {body : Stmt} {labels : List String}
  [Known ρ.tracked n v]

instance {body : List Stmt} : (eng.runBlock body scope).Keeps ρ n := by
  unfold runBlock; infer_instance

/-! ### Declarations -/

instance {declarators : List Declarator} : (eng.runVars declarators scope).Keeps ρ n := by
  refine .forM fun m _ d _ => ?_
  split <;> infer_instance

instance {declarators : List Declarator} : (eng.runLexical declarators scope).Keeps ρ n := by
  refine .forM fun m _ d _ => ?_
  split <;> infer_instance

instance {kind : VarKind} {declarators : List Declarator} :
    (eng.runVariables kind declarators scope).Keeps ρ n := by
  unfold runVariables; infer_instance

instance {c : ClassDef} : (eng.runClass c scope).Keeps ρ n := by
  unfold runClass
  dsimp only
  infer_instance

/-! ### Conditions and loops -/

instance : (eng.holds test scope).Keeps ρ n := by unfold holds; infer_instance

instance {no : Option Stmt} : (eng.runIf test body no scope).Keeps ρ n := by
  refine .bind fun m _ holds _ => ?_
  cases no <;> infer_instance

instance : (eng.whileTurn test body scope labels v).Keeps ρ n := by
  unfold whileTurn; infer_instance

instance : (eng.doTurn body test scope labels v).Keeps ρ n := by
  refine .bind fun m _ c _ => ?_
  have hturn : Known ρ.tracked m (c.afterBody labels v) := inferInstance
  split
  · next heq =>
    rw [heq] at hturn
    have := hturn.done
    infer_instance
  · next heq =>
    rw [heq] at hturn
    have := hturn.again
    infer_instance

instance {fresh : Bool} : (nextScope fresh scope).Keeps ρ n := by
  unfold nextScope; infer_instance

instance {init : ForInit} {update : Option Expr} {fresh : Bool} :
    (eng.forUpdate init update fresh scope).Keeps ρ n := by
  unfold forUpdate; infer_instance

instance {init : ForInit} {test update : Option Expr} {fresh : Bool} :
    (eng.forTurn init test update body fresh labels (scope, v)).Keeps ρ n := by
  have hbody (m : Nat) [Known ρ.tracked m v] : (do
      let c ← Eval.within (.loop init) scope (eng.statement body scope [])
      match c.afterBody labels v with
      | .done c => return .done c
      | .again v => return .again (← eng.forUpdate init update fresh scope, v) :
        Eval (Turn (ScopeRef × Value) Completion)).Keeps ρ m := by
    refine .bind fun m _ c _ => ?_
    have hturn : Known ρ.tracked m (c.afterBody labels v) := inferInstance
    split
    · next heq =>
      rw [heq] at hturn
      have := hturn.done
      infer_instance
    · next heq =>
      rw [heq] at hturn
      have := hturn.again
      infer_instance
  cases test with
  | none => exact hbody n
  | some test =>
    refine .bind fun m _ again _ => ?_
    dsimp only
    split
    · exact hbody m
    · infer_instance

instance {init : ForInit} : (eng.forHead init scope).Keeps ρ n := by
  unfold forHead
  split <;> infer_instance

instance {init : ForInit} {test update : Option Expr} :
    (eng.runFor init test update body scope labels).Keeps ρ n := by
  refine .bind fun m _ (head, fresh) _ => .bind fun m _ first _ => ?_
  refine .loop (fun m _ (scope, v) hturn => ?_) _
  have := hturn.snd
  infer_instance

/-! ### Exceptions -/

instance {param : Option String} {handler : List Stmt} :
    (eng.runHandler param handler scope v).Keeps ρ n := by
  unfold runHandler; infer_instance

instance {block handler : List Stmt} {param : Option String} :
    (eng.runCatch block param handler scope).Keeps ρ n := by
  unfold runCatch; infer_instance

instance {code finalizer : Eval Completion} [code.Keeps ρ n]
    [hfinalizer : ∀ m : Size n, finalizer.Keeps ρ m.val] :
    (withFinalizer code finalizer).Keeps ρ n := by
  refine .bind fun m hm ending hending => ?_
  have := hfinalizer ⟨m, hm.le⟩
  refine .bind fun m _ c hc => ?_
  split
  · have := hending.ok
    infer_instance
  · have := hending.error
    infer_instance
  · infer_instance

instance {code : Eval Completion} [code.Keeps ρ n] : (finishTry code).Keeps ρ n := by
  unfold finishTry; infer_instance

/-! ### Switch -/

end

instance {scope : ScopeRef} {v : Value} {cases : List SwitchCase} :
    (eng.matchCases v scope cases).Keeps ρ n := by
  induction cases generalizing n with
  | nil => exact inferInstanceAs (Eval.Keeps ρ n (pure _))
  | cons c rest ih =>
    obtain ⟨test, body⟩ := c
    cases test with
    | none => exact ih
    | some test =>
      refine .bind fun m _ w _ => ?_
      split
      · infer_instance
      · exact ih

instance {scope : ScopeRef} {v : Value} {cases : List SwitchCase} [Known ρ.tracked n v] :
    (eng.runCases scope v cases).Keeps ρ n := by
  induction cases generalizing n v with
  | nil => exact inferInstanceAs (Eval.Keeps ρ n (pure _))
  | cons c rest ih =>
    refine .bind fun m _ ending hending => ?_
    split
    · have := hending.normal
      exact ih
    · infer_instance

section

variable {scope : ScopeRef} {body : Stmt} {labels : List String}

instance {subject : Expr} {cases : List SwitchCase} :
    (eng.runSwitch subject cases scope).Keeps ρ n := by
  unfold runSwitch; infer_instance

/-! ### All statements -/

instance {label : String} : (eng.runLabeled label body scope labels).Keeps ρ n := by
  unfold runLabeled
  dsimp only
  infer_instance

instance {t : Stmt} : (eng.runKind t scope labels).Keeps ρ n := by
  unfold runKind
  split
  all_goals try infer_instance
  · exact .loop (fun _ _ _ _ => inferInstance) _
  · exact .loop (fun _ _ _ _ => inferInstance) _

instance {t : Stmt} : (eng.run t scope labels).Keeps ρ n := by
  unfold run; infer_instance

end

end Engine

end Ecma
