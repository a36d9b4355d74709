import Ecma.Eval.State

/-! The evaluator's entry points, handed to every step that may run script code. A step takes them
from one level of fuel below its own, so that evaluation is total. -/

namespace Ecma

/-- The ways back into the evaluator. -/
structure Engine where
  /-- The number of turns that a loop may take. -/
  fuel : Nat
  /-- The value of an expression in a scope. -/
  expr : Expr → ScopeRef → Eval Value
  /-- Runs a statement in a scope; the labels are those of a loop. -/
  statement : Stmt → ScopeRef → List String → Eval Completion
  /-- Calls a function object with a `this` value and arguments. -/
  call : ObjectRef → Value → List Value → Eval Value
  /-- Constructs an object by a constructor, with arguments and the target of `new`. -/
  construct : ObjectRef → List Value → ObjectRef → Eval ObjectRef

namespace Engine

variable (eng : Engine)

/-- Calls a value. -/
def callValue (f this : Value) (args : List Value) : Eval Value := do
  match f with
  | .object o =>
    if ← Eval.heap (·.isCallable o) then eng.call o this args
    else Eval.raise (.notFunction (← Eval.heap (·.describe f)))
  | .primitive p => Eval.raise (.notFunction p.quoted)

end Engine

end Ecma
