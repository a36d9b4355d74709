import Ecma.Eval.Call

/-! The evaluator with a lookout. What is true each time that a run comes to an expression, a
statement or a call is said by a lookout that acts there: a run shows afterwards whether it ever
acted. -/

namespace Ecma

/-- A way into the evaluator. -/
inductive Entry where
  | expr (e : Expr) (scope : ScopeRef)
  | statement (t : Stmt) (scope : ScopeRef) (labels : List String)
  | call (f : ObjectRef) (this : Value) (args : List Value)
  | construct (f : ObjectRef) (args : List Value) (target : ObjectRef)

namespace Engine

/-- The evaluator up to a depth of nesting with a lookout, which acts first each time that the
evaluator is entered. -/
def watched (watch : Entry → Eval Unit) : Nat → Engine
  | 0 => exhausted
  | n + 1 =>
    { fuel := n + 1
      expr := fun e scope => do
        watch (.expr e scope)
        (watched watch n).evaluate e scope
      statement := fun t scope labels => do
        watch (.statement t scope labels)
        (watched watch n).run t scope labels
      call := fun f this args => do
        watch (.call f this args)
        (watched watch n).callObject f this args
      construct := fun f args target => do
        watch (.construct f args target)
        (watched watch n).constructObject f args target }

/-- With a lookout that does nothing, this is the evaluator. -/
theorem watched_idle (fuel : Nat) : watched (fun _ => pure ()) fuel = ofFuel fuel := by
  induction fuel with
  | zero => rfl
  | succ fuel ih =>
    unfold watched ofFuel
    rw [ih]
    rfl

end Engine

end Ecma
