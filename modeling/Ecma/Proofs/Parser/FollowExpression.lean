import Ecma.Proofs.Parser.FollowFunction
import Ecma.Proofs.Syntax.Expression

/-! Expressions, read by a parser as the grammar reads them. -/

namespace Ecma

open Ecma.Action

namespace Actions

variable {g : Grammar} {h : Actions} [hgh : Follows g h]

/-! ### Property accesses, arguments and object literals -/

instance : Mirrors g.nestedExpression h.nestedExpression :=
  .step fun _ => .step fun _ => .guard inferInstance

instance : Mirrors g.memberKey? h.memberKey? := by
  refine .step fun _ => .guard <| .step fun _ => ?_
  split
  · infer_instance
  · refine .step fun _ => ?_
    infer_instance

instance : Mirrors g.arguments h.arguments :=
  .step fun _ => .allowIn <| .loop (fun _ => .step fun _ => by
    split
    · infer_instance
    · exact .step fun _ => .guard <| .step fun _ => .step fun _ => .optional fun _ => inferInstance)
    hgh.fuel

instance (start : Nat) (keyToken : Token) (key : PropertyName) :
    Mirrors (g.propertyRest start keyToken key) (h.propertyRest start keyToken key) := by
  refine .step fun _ => ?_
  split
  · infer_instance
  refine .step fun _ => ?_
  split
  · infer_instance
  cases key with
  | identifier name =>
    refine .step fun _ => .guard ?_
    rcases keyToken with ⟨kind, _⟩
    cases kind with
    | keyword k =>
      cases k with
      | letKw => exact .step fun _ => .guard inferInstance
      | _ => infer_instance
    | _ => infer_instance
  | _ => infer_instance

instance : Mirrors g.objectProperty h.objectProperty := by
  refine .step fun _ => .step fun _ => .guard <| .step fun _ => .guard <| .step fun accessor => ?_
  refine .step fun _ => .step fun _ => ?_
  cases accessor with
  | none => infer_instance
  | some kind => cases kind <;> infer_instance

instance : Mirrors g.objectLiteral h.objectLiteral :=
  .step fun _ => .allowIn <| .loop (fun _ => .step fun _ => by
    split
    · infer_instance
    · exact .step fun _ => .step fun _ => .optional fun _ => inferInstance)
    hgh.fuel

/-! ### Primary and member expressions -/

instance : Mirrors g.parenthesized h.parenthesized :=
  .step fun _ => .step fun _ => .guard inferInstance

instance : Mirrors g.primary h.primary := by
  refine .step fun t => ?_
  rcases t with ⟨kind, _⟩
  cases kind with
  | keyword k =>
    cases k with
    | letKw => exact .step fun _ => .guard inferInstance
    | _ => infer_instance
  | punctuator x => cases x <;> infer_instance
  | numericLiteral =>
    refine .step fun _ => .step fun x => ?_
    cases x <;> infer_instance
  | bigIntLiteral =>
    refine .step fun _ => .step fun x => ?_
    cases x <;> infer_instance
  | _ => infer_instance

instance : Mirrors g.superProperty h.superProperty := by
  refine .step fun _ => .step fun _ => .look fun m => .guard <| .step fun key? => ?_
  rcases key? with _ | (_ | _ | _) <;> infer_instance

instance (e : Expr) : Mirrors (g.memberChain e) (h.memberChain e) :=
  .loop (fun _ => .step fun key? => by cases key? <;> infer_instance) hgh.fuel

instance : Mirrors g.newExpression h.newExpression :=
  .step fun _ => .guard <| .step fun _ => .step fun _ => inferInstance

instance : Mirrors g.memberExpression h.memberExpression := by
  refine .step fun _ => .step fun _ => ?_
  infer_instance

instance : Mirrors g.superCallExpression h.superCallExpression :=
  .step fun _ => .step fun _ => .look fun _ => .guard inferInstance

instance (e : Expr) : Mirrors (g.callChain e) (h.callChain e) := by
  refine .loop (fun e => .step fun _ => ?_) hgh.fuel
  split
  · infer_instance
  · refine .step fun key? => ?_
    cases key? <;> infer_instance

instance : Mirrors g.leftHandSideExpression h.leftHandSideExpression :=
  .step fun _ => .step fun _ => inferInstance

/-! ### Operators -/

instance : Mirrors g.updateExpression h.updateExpression := by
  refine .step fun _ => .step fun op? => ?_
  cases op? with
  | some op => infer_instance
  | none =>
    refine .step fun _ => .step fun _ => ?_
    split
    · infer_instance
    · refine .step fun op? => ?_
      cases op? <;> infer_instance

instance : Mirrors g.unaryExpression h.unaryExpression := by
  refine .step fun t => ?_
  cases Grammar.unaryOperator? t.kind with
  | some build => exact .step fun _ => .step fun _ => .optional fun _ => inferInstance
  | none => infer_instance

instance : Mirrors g.exponentiationExpression h.exponentiationExpression := by
  refine .step fun kind => ?_
  split
  · exact .step fun _ => .step fun _ => .guard inferInstance
  · infer_instance

instance (levels : List Grammar.BinaryLevel) :
    Mirrors (g.binaryExpression levels) (h.binaryExpression levels) := by
  induction levels with
  | nil => exact inferInstanceAs (Mirrors g.exponentiationExpression h.exponentiationExpression)
  | cons level tighter ih =>
    refine .step fun _ => .loop (fun _ => .step fun kind => ?_) hgh.fuel
    cases kind.bind level <;> infer_instance

/-- The levels of operators are told by the flag, which is what it was. -/
theorem gets_operators {m m' : Parser} {names : List String} (hkeeps : m.Keeps names m') :
    m'.Gets (g.binaryExpression (Grammar.binaryLevels m.noIn)) h.operators
      fun _ names => names = [] := by
  have hflag : m'.noIn = m.noIn := congrArg Flags.noIn hkeeps.flags
  refine .get ?_
  rw [← hflag]
  exact Mirrors.gets m'

instance : Mirrors g.logicalAnd h.logicalAnd := by
  refine ⟨fun m => .read <| (gets_operators (.refl m)).bind fun first names m₁ hm₁ hnames => ?_⟩
  subst hnames
  rw [hgh.fuel]
  refine .loop (fun _ names => names = []) (fun left names m₂ hm₂ hnames => ?_) rfl
  subst hnames
  refine .skip fun found m₃ hm₃ => ?_
  split
  · refine (gets_operators ((hm₁.trans hm₂).trans hm₃)).bind fun right names m₄ _ hnames => ?_
    subst hnames
    exact .pure rfl
  · exact .pure rfl

instance : Mirrors g.logicalOr h.logicalOr := by
  refine .step fun first => ?_
  have : Mirrors
      (Parse.loop (fun left => do
        if ← Parse.eat .logicalOr then return .again (Expr.logical .or left (← g.logicalAnd))
        return .done left) g.fuel first)
      (Action.loop (fun left => do
        if ← Parse.eat .logicalOr then return .again (Expr.logical .or left (← h.logicalAnd))
        return .done left) h.fuel first) := .loop (fun _ => inferInstance) hgh.fuel
  exact .step fun _ => .step fun _ => .guard inferInstance

instance : Mirrors g.conditionalExpression h.conditionalExpression := by
  refine .step fun _ => .step fun _ => ?_
  infer_instance

instance : Mirrors g.assignmentExpression h.assignmentExpression := by
  refine .step fun _ => .step fun _ => .step fun _ => .guard <| .step fun _ => .guard ?_
  refine .step fun kind => ?_
  cases kind.bind Grammar.assignOp? <;> infer_instance

instance : Mirrors g.expression h.expression :=
  .step fun _ => .step fun _ => .guard inferInstance

end Actions

end Ecma
