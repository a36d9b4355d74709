import Ecma.Builtin.Basic

/-! The constructors of errors and their text. -/

namespace Ecma

namespace Engine

open Eval (heap raise)

variable (eng : Engine)

/-- The text of a property, or a default if it is undefined. -/
def textProperty (o : ObjectRef) (key : PropertyKey) (default : String) : Eval String := do
  match ← eng.get o key with
  | .undefined => return default
  | v => return (← eng.toUnits v).text

/-- A constructor of errors: `Error(message, options)`, where the options may name a cause. -/
def errorConstructor (kind : ErrorKind) (call : Invocation) : Eval Value := do
  let prototype ← eng.builtinPrototype call.newTarget (Intrinsic.errorPrototype kind)
  let o ← Eval.newObject (some prototype) .error
  if !(call.arg 0).isUndefined then
    Eval.put o "message" (.hidden (.string (← eng.toUnits (call.arg 0))))
  if let .object options := call.arg 1 then
    if let some cause ← eng.getIfPresent options "cause" then Eval.put o "cause" (.hidden cause)
  return .object o

/-- The method `toString()` of an error: its name and its message. -/
def errorToString (call : Invocation) : Eval Value := do
  match call.this with
  | .primitive _ => raise (.wrongThis "Error.prototype.toString" "an Object")
  | .object o =>
    let name ← eng.textProperty o "name" "Error"
    let message ← eng.textProperty o "message" ""
    return .ofText (if name.isEmpty then message
      else if message.isEmpty then name
      else name ++ ": " ++ message)

end Engine

end Ecma
