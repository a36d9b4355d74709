import Ecma.Builtin.Basic
import Ecma.Eval.Function
import Ecma.Eval.Operator
import Ecma.Grammar.Statement

/-! The constructor `Function` and the methods of functions. -/

namespace Ecma

/-- The text of the function that `Function` makes from parameters and a body. -/
def dynamicSource (params : List String) (body : String) : String :=
  "function anonymous(" ++ ",".intercalate params ++ "\n) \x7b\n" ++ body ++ "\n\x7d"

/-- The function that a text declares, if it declares that function and nothing else. -/
def FunctionDef.ofProgram? (source : String) (p : Program) : Option FunctionDef :=
  match p.body with
  | [.function f] => if f.source.utf8ByteSize = source.utf8ByteSize then some f else none
  | _ => none

namespace Heap

/-- The text of a function object; a built-in one has no body to show. -/
def functionText (h : Heap) (o : ObjectRef) : String :=
  match h.scriptFunction? o with
  | some f => f.sourceText
  | none =>
    let name := match h.getOwn? o "name" with
      | some (.data (.string s) _ _ _) => s.text
      | _ => ""
    "function " ++ name ++ "() \x7b [native code] \x7d"

end Heap

namespace Engine

open Eval (heap raise)

variable (eng : Engine)

/-- The function `Function(p₁, …, pₙ, body)`: the pieces are read as one function declaration; text
that closes the function early and adds statements is refused. -/
def functionConstructor (call : Invocation) : Eval Value := do
  let body ← match call.args.getLast? with
    | some v => Units.text <$> eng.toUnits v
    | none => pure ""
  let params ← call.args.dropLast.mapM fun v => Units.text <$> eng.toUnits v
  let source := dynamicSource params body
  match Program.parse source with
  | .error e => raise (.parse e)
  | .ok program =>
    match FunctionDef.ofProgram? source program with
    | some f =>
      .object <$> Eval.atSite ⟨program, []⟩
        (Eval.instantiateFunction f Intrinsic.globalScope "anonymous")
    | none => raise .functionBody

/-- The method `call(this, …)` of a function. -/
def functionCall (call : Invocation) : Eval Value := do
  match call.this with
  | .object f =>
    if ← heap (·.isCallable f) then eng.call f (call.arg 0) call.args.tail
    else raise .callOnNonFunction
  | .primitive _ => raise .callOnNonFunction

/-- The method `toString()` of a function. -/
def functionToString (call : Invocation) : Eval Value := do
  let wrong := Cause.wrongThis "Function.prototype.toString" "a Function"
  match call.this with
  | .object f =>
    if ← heap (·.isCallable f) then .ofText <$> heap (·.functionText f) else raise wrong
  | .primitive _ => raise wrong

/-- The method behind `instanceof`. -/
def functionHasInstance (call : Invocation) : Eval Value :=
  .boolean <$> eng.ordinaryHasInstance call.this (call.arg 0)

end Engine

end Ecma
