import Ecma.Ast.Basic
import Ecma.Value.Basic

/-! Functions: the built-in ones, and those whose body is script code. -/

namespace Ecma

/-- A reference to an environment; equality is identity. -/
structure ScopeRef where
  index : Nat
deriving Repr, DecidableEq, Inhabited

/-- The kinds of error objects. -/
inductive ErrorKind where
  | error
  | type
  | range
  | reference
  | syntaxKind
deriving Repr, DecidableEq, Inhabited

namespace ErrorKind

/-- The name of the constructor. -/
def name : ErrorKind → String
  | .error => "Error"
  | .type => "TypeError"
  | .range => "RangeError"
  | .reference => "ReferenceError"
  | .syntaxKind => "SyntaxError"

/-- All kinds, the general one first. -/
def all : List ErrorKind :=
  [.error, .type, .range, .reference, .syntaxKind]

end ErrorKind

/-- The built-in functions. -/
inductive Builtin where
  | functionPrototype
  | throwTypeError
  | object
  | objectGetPrototypeOf
  | objectSetPrototypeOf
  | objectCreate
  | objectDefineProperty
  | objectGetOwnPropertyDescriptor
  | hasOwnProperty
  | isPrototypeOf
  | propertyIsEnumerable
  | objectToString
  | objectValueOf
  | function
  | functionCall
  | functionToString
  | functionHasInstance
  | boolean
  | booleanToString
  | booleanValueOf
  | error (kind : ErrorKind)
  | errorToString
  | number
  | numberToString
  | numberValueOf
  | bigInt
  | bigIntToString
  | bigIntValueOf
  | string
  | stringToString
  | stringValueOf
  | charAt
  | charCodeAt
  | indexOf
  | symbol
  | symbolToString
  | symbolValueOf
  | symbolDescription
  | symbolToPrimitive
  | consoleLog
  | print
deriving Repr, DecidableEq, Inhabited

namespace Builtin

/-- The value of the `name` property. -/
def name : Builtin → String
  | .functionPrototype | .throwTypeError => ""
  | .object => "Object"
  | .objectGetPrototypeOf => "getPrototypeOf"
  | .objectSetPrototypeOf => "setPrototypeOf"
  | .objectCreate => "create"
  | .objectDefineProperty => "defineProperty"
  | .objectGetOwnPropertyDescriptor => "getOwnPropertyDescriptor"
  | .hasOwnProperty => "hasOwnProperty"
  | .isPrototypeOf => "isPrototypeOf"
  | .propertyIsEnumerable => "propertyIsEnumerable"
  | .function => "Function"
  | .functionCall => "call"
  | .functionHasInstance => "[Symbol.hasInstance]"
  | .boolean => "Boolean"
  | .error kind => kind.name
  | .number => "Number"
  | .bigInt => "BigInt"
  | .string => "String"
  | .charAt => "charAt"
  | .charCodeAt => "charCodeAt"
  | .indexOf => "indexOf"
  | .symbol => "Symbol"
  | .symbolDescription => "get description"
  | .symbolToPrimitive => "[Symbol.toPrimitive]"
  | .consoleLog => "log"
  | .print => "print"
  | .objectToString | .functionToString | .booleanToString | .errorToString | .numberToString
  | .bigIntToString | .stringToString | .symbolToString => "toString"
  | .objectValueOf | .booleanValueOf | .numberValueOf | .bigIntValueOf | .stringValueOf
  | .symbolValueOf => "valueOf"

/-- The value of the `length` property. -/
def arity : Builtin → Nat
  | .object | .objectGetPrototypeOf | .hasOwnProperty | .isPrototypeOf | .propertyIsEnumerable
  | .function | .functionCall | .functionHasInstance | .boolean | .error _ | .number
  | .numberToString | .bigInt | .string | .charAt | .charCodeAt | .indexOf | .symbolToPrimitive
  | .print => 1
  | .objectSetPrototypeOf | .objectCreate | .objectGetOwnPropertyDescriptor => 2
  | .objectDefineProperty => 3
  | _ => 0

/-- Whether `new` may be applied. -/
def isConstructor : Builtin → Bool
  | .object | .function | .boolean | .error _ | .number | .string | .symbol => true
  | _ => false

end Builtin

/-- A private name. Its number is its identity: two classes never share one. -/
structure PrivateName where
  id : Nat
  description : String
deriving Repr, DecidableEq, Inhabited

/-- What an object holds under a private name. -/
inductive PrivateElement where
  | method (f : ObjectRef)
  | accessor (get set : Option ObjectRef)
deriving Repr, DecidableEq, Inhabited

namespace PrivateElement

/-- The second half of an accessor joined to the first; a method takes nothing. -/
def merge? : PrivateElement → PrivateElement → Option PrivateElement
  | .accessor get set, .accessor newGet newSet => some (.accessor (newGet <|> get) (newSet <|> set))
  | _, _ => none

/-- Adds an element to a list, where a getter and a setter of one name become one element. -/
def add (name : PrivateName) (element : PrivateElement) :
    List (PrivateName × PrivateElement) → List (PrivateName × PrivateElement)
  | [] => [(name, element)]
  | (other, existing) :: rest =>
    if other = name then
      match existing.merge? element with
      | some merged => (other, merged) :: rest
      | none => (other, existing) :: (rest ++ [(name, element)])
    else (other, existing) :: add name element rest

end PrivateElement

/-- What a function object runs: script code, or nothing for a class without a constructor. -/
inductive FunctionCode where
  | script (f : FunctionDef)
  | defaultConstructor

/-- How a constructor gets its object: it makes one, or its parent class does. -/
inductive ConstructorKind where
  | base
  | derived
deriving Repr, DecidableEq, Inhabited

/-! ### Where code stands -/

/-- What may stand around code. A function has flags for how its code may use `super`. -/
inductive Around where
  | function (f : FunctionDef) (superProperty superCall : Bool)
  /-- The `extends` clause of a class. -/
  | heritage (c : ClassDef)
  /-- The body of a class, with the computed names in it. -/
  | classBody (c : ClassDef)
  | block (body : List Stmt)
  /-- A `catch` clause, which may name what was thrown. -/
  | handler (param : Option String)
  /-- The clauses of a `switch` statement. -/
  | clauses (cases : List SwitchCase)
  /-- A `for` loop, which may declare names in its head. -/
  | loop (init : ForInit)

/-- What stands around code that is being run, with the scope of its call or evaluation. -/
structure Frame where
  around : Around
  scope : ScopeRef

/-- A place in a script that is being run. No step depends on it: it tells which code of the script
a step belongs to. -/
structure Site where
  program : Program
  /-- What stands around the place, from the inside out. -/
  frames : List Frame
deriving Inhabited

namespace Site

/-- A site inside a part of the code at this one. -/
def enter (l : Site) (a : Around) (q : ScopeRef) : Site :=
  { l with frames := ⟨a, q⟩ :: l.frames }

end Site

/-! ### Script functions -/

/-- A function whose body is script code. -/
structure ScriptFunction where
  code : FunctionCode
  /-- The environment that the body sees. -/
  scope : ScopeRef
  /-- Where the function stands. -/
  site : Site
  strict : Bool
  /-- The object whose prototype `super` starts from. -/
  homeObject : Option ObjectRef
  constructorKind : Option ConstructorKind
  /-- The text of the class, for a class constructor, which cannot be called without `new`. -/
  classSource : Option String
  /-- The private elements of each object that the constructor makes. -/
  privateMethods : List (PrivateName × PrivateElement)

namespace ScriptFunction

/-- Where the body of the function stands when it is run in the scope of a call. -/
def bodySite (f : ScriptFunction) (d : FunctionDef) (call : ScopeRef) : Site :=
  f.site.enter (.function d f.homeObject.isSome (f.constructorKind == some .derived)) call

/-- The text that the function or its class was written as. -/
def sourceText (f : ScriptFunction) : String :=
  match f.classSource, f.code with
  | some source, _ => source
  | none, .script d => d.source
  | none, .defaultConstructor => "constructor() \x7b\x7d"

end ScriptFunction

end Ecma
