import Ecma.Grammar.Error
import Ecma.Object.Function
import Ecma.Value.Conversion

/-! What can go wrong while a script runs: the causes, the kind of error object that each one
throws, and its message. -/

namespace Ecma

/-- Trees that no accepted script has. -/
inductive Fault where
  | assignmentTarget
  | privateKey
  | undeclaredPrivateName (name : String)
  | unexpectedSuper
  | privateDelete
  | assignmentOperator
  | unexpectedOperator
  | invalidHeritage
  | invalidPropertyName
deriving Repr, DecidableEq

namespace Fault

def message : Fault → String
  | .assignmentTarget => "Invalid left-hand side in assignment"
  | .privateKey => "Unexpected private name"
  | .undeclaredPrivateName name =>
    "Private field '#" ++ name ++ "' must be declared in an enclosing class"
  | .unexpectedSuper => "'super' keyword unexpected here"
  | .privateDelete => "Private fields can not be deleted"
  | .assignmentOperator => "Invalid assignment operator"
  | .unexpectedOperator => "Unexpected operator"
  | .invalidHeritage => "Invalid class heritage"
  | .invalidPropertyName => "Invalid property name"

end Fault

/-- Why running code throws an error of its own. -/
inductive Cause where
  -- Calls
  | notFunction (what : String)
  | notConstructor (what : String)
  | classCalled (name : String)
  | callDepth
  | noObjectConstructed
  | derivedResult
  -- Classes
  | superNotConstructor
  | superTwice
  | thisUninitialised
  | superDelete
  | heritage (what : String)
  | heritagePrototype (what : String)
  | privateTwice
  | privateAbsent (action name : String)
  | privateGetter (name : String)
  | privateSetter (name : String)
  | privateMethod (name : String)
  -- Bindings
  | notDefined (name : String)
  | uninitialised (name : String)
  | constantAssigned
  | redeclared (name : String)
  | globalFunction (name : String)
  | globalVariable (name : String)
  -- Properties
  | readOf (base key : String)
  | setOf (base key : String)
  | readOnly (key target : String)
  | redefined (key : String)
  | undeletable (key target : String)
  | inPrimitive (key target : String)
  | descriptorNotObject
  | notAccessor (half shown : String)
  | mixedDescriptor
  -- Conversions and operators
  | conversion (e : ConversionError)
  | noPrimitive
  | nullishToObject
  | bigIntArithmetic
  | mixedNumeric
  | instanceOfPrimitive
  | instanceOfUncallable
  | instanceOfPrototype
  -- Built-in functions
  | wrongThis (method expected : String)
  | calledOnNullish (method : String)
  | definePropertyOnPrimitive
  | prototypeValue (shown : String)
  | prototypeRefused
  | callOnNonFunction
  | restrictedArguments
  | radix
  | notInteger (shown : String)
  | bigIntOfValue (shown : String)
  | bigIntOfString (shown : String)
  | functionBody
  | parse (e : SyntaxError)
  | fault (f : Fault)
deriving Repr, DecidableEq

namespace Cause

/-- The kind of error object. -/
def kind : Cause → ErrorKind
  | .callDepth | .radix | .notInteger _ => .range
  | .superTwice | .thisUninitialised | .superDelete | .notDefined _ | .uninitialised _ => .reference
  | .redeclared _ | .bigIntOfString _ | .functionBody | .parse _ | .fault _ => .syntaxKind
  | _ => .type

def message : Cause → String
  | .notFunction what => what ++ " is not a function"
  | .notConstructor what => what ++ " is not a constructor"
  | .classCalled name => "Class constructor " ++ name ++ " cannot be invoked without 'new'"
  | .callDepth => "Maximum call stack size exceeded"
  | .noObjectConstructed => "constructor did not return an object"
  | .derivedResult => "Derived constructors may only return object or undefined"
  | .superNotConstructor => "Super constructor is not a constructor"
  | .superTwice => "Super constructor may only be called once"
  | .thisUninitialised =>
    "Must call super constructor in derived class before accessing 'this' or returning from " ++
      "derived constructor"
  | .superDelete => "Unsupported reference to 'super'"
  | .heritage what => "Class extends value " ++ what ++ " is not a constructor or null"
  | .heritagePrototype what =>
    "Class extends value does not have valid prototype property " ++ what
  | .privateTwice => "Cannot initialize private methods twice on the same object"
  | .privateAbsent action name =>
    "Cannot " ++ action ++ " private member #" ++ name ++
      " from an object whose class did not declare it"
  | .privateGetter name => "'#" ++ name ++ "' was defined without a getter"
  | .privateSetter name => "'#" ++ name ++ "' was defined without a setter"
  | .privateMethod name => "Private method '#" ++ name ++ "' is not writable"
  | .notDefined name => name ++ " is not defined"
  | .uninitialised name => "Cannot access '" ++ name ++ "' before initialization"
  | .constantAssigned => "Assignment to constant variable."
  | .redeclared name => "Identifier '" ++ name ++ "' has already been declared"
  | .globalFunction name => "Cannot redefine global function '" ++ name ++ "'"
  | .globalVariable name => "Cannot define global variable '" ++ name ++ "'"
  | .readOf base key => "Cannot read properties of " ++ base ++ " (reading '" ++ key ++ "')"
  | .setOf base key => "Cannot set properties of " ++ base ++ " (setting '" ++ key ++ "')"
  | .readOnly key target => "Cannot assign to read only property '" ++ key ++ "' of " ++ target
  | .redefined key => "Cannot redefine property: " ++ key
  | .undeletable key target => "Cannot delete property '" ++ key ++ "' of " ++ target
  | .inPrimitive key target =>
    "Cannot use 'in' operator to search for '" ++ key ++ "' in " ++ target
  | .descriptorNotObject => "Property description must be an object"
  | .notAccessor half shown => half ++ " must be a function: " ++ shown
  | .mixedDescriptor =>
    "Invalid property descriptor. Cannot both specify accessors and a value or writable attribute"
  | .conversion e => e.message
  | .noPrimitive => "Cannot convert object to primitive value"
  | .nullishToObject => "Cannot convert undefined or null to object"
  | .bigIntArithmetic => "BigInt arithmetic is not supported"
  | .mixedNumeric => "Cannot mix BigInt and other types, use explicit conversions"
  | .instanceOfPrimitive => "Right-hand side of 'instanceof' is not an object"
  | .instanceOfUncallable => "Right-hand side of 'instanceof' is not callable"
  | .instanceOfPrototype => "Function has non-object prototype in instanceof check"
  | .wrongThis method expected => method ++ " requires that 'this' be " ++ expected
  | .calledOnNullish method => method ++ " called on null or undefined"
  | .definePropertyOnPrimitive => "Object.defineProperty called on non-object"
  | .prototypeValue shown => "Object prototype may only be an Object or null: " ++ shown
  | .prototypeRefused => "Cyclic __proto__ value or non-extensible object"
  | .callOnNonFunction => "Function.prototype.call called on a value that is not a function"
  | .restrictedArguments =>
    "'caller', 'callee', and 'arguments' properties may not be accessed on strict mode functions"
  | .radix => "toString() radix must be between 2 and 36"
  | .notInteger shown =>
    "The number " ++ shown ++ " cannot be converted to a BigInt because it is not an integer"
  | .bigIntOfValue shown => "Cannot convert " ++ shown ++ " to a BigInt"
  | .bigIntOfString shown => "Cannot convert " ++ shown ++ " to a BigInt"
  | .functionBody => "Invalid function body"
  | .parse e => e.message
  | .fault f => f.message

end Cause

end Ecma
