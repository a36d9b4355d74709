import Ecma.Builtin.Error
import Ecma.Builtin.Function
import Ecma.Builtin.Number
import Ecma.Builtin.Object
import Ecma.Builtin.String

/-! What each built-in function does. -/

namespace Ecma

namespace Engine

variable (eng : Engine)

/-- Runs a built-in function. -/
def runBuiltin (b : Builtin) (call : Invocation) : Eval Value :=
  match b with
  | .functionPrototype => return .undefined
  | .throwTypeError => Eval.raise .restrictedArguments
  | .object => eng.objectConstructor call
  | .objectGetPrototypeOf => getPrototypeOf call
  | .objectSetPrototypeOf => setPrototypeOf call
  | .objectCreate => eng.objectCreate call
  | .objectDefineProperty => eng.objectDefineProperty call
  | .objectGetOwnPropertyDescriptor => eng.getOwnPropertyDescriptor call
  | .hasOwnProperty => eng.hasOwnProperty call
  | .isPrototypeOf => isPrototypeOf call
  | .propertyIsEnumerable => eng.propertyIsEnumerable call
  | .objectToString => eng.objectToString call
  | .objectValueOf => objectValueOf call
  | .function => eng.functionConstructor call
  | .functionCall => eng.functionCall call
  | .functionToString => functionToString call
  | .functionHasInstance => eng.functionHasInstance call
  | .boolean => eng.booleanConstructor call
  | .booleanToString => booleanToString call
  | .booleanValueOf => booleanValueOf call
  | .error kind => eng.errorConstructor kind call
  | .errorToString => eng.errorToString call
  | .number => eng.numberConstructor call
  | .numberToString => eng.numberToString call
  | .numberValueOf => numberValueOf call
  | .bigInt => eng.bigIntFunction call
  | .bigIntToString => eng.bigIntToString call
  | .bigIntValueOf => bigIntValueOf call
  | .string => eng.stringConstructor call
  | .stringToString => stringToString call
  | .stringValueOf => stringValueOf call
  | .charAt => eng.charAt call
  | .charCodeAt => eng.charCodeAt call
  | .indexOf => eng.indexOf call
  | .symbol => eng.symbolFunction call
  | .symbolToString => symbolToString call
  | .symbolValueOf => symbolValueOf call
  | .symbolDescription => symbolDescription call
  | .symbolToPrimitive => symbolToPrimitive call
  | .consoleLog | .print => eng.writeLine call

end Engine

end Ecma
