import Ecma.Eval.State

/-! The state before the first script: the prototypes, the global object and the built-in
functions on it. -/

namespace Ecma

namespace Realm

/-- A step that adds to the heap. -/
abbrev Setup := StateM Heap

namespace Setup

/-- Adds an object. -/
def add (data : ObjectData) : Setup ObjectRef :=
  modifyGet fun h => (h.next, h.push data)

/-- Defines a property. -/
def define (o : ObjectRef) (key : PropertyKey) (d : Descriptor) : Setup Unit :=
  modify fun h => (h.define o key d).getD h

/-- Adds a built-in function with its length and name. -/
def function (b : Builtin) : Setup ObjectRef := do
  let o ← add { prototype := some Intrinsic.functionPrototype, kind := .builtin b }
  define o "length" (.data (.number (Number.ofInt b.arity)) false false true)
  define o "name" (.data (.ofText b.name) false false true)
  return o

/-- Defines a method under its own name. -/
def method (o : ObjectRef) (b : Builtin) : Setup Unit := do
  define o b.name (.hidden (.object (← function b)))

/-- Defines a property of the global object. -/
def global (name : String) (value : Value) : Setup Unit :=
  define Intrinsic.globalObject name (.hidden value)

/-- Adds a constructor, linked with its prototype. -/
def constructor (b : Builtin) (prototype : ObjectRef) : Setup ObjectRef := do
  let o ← function b
  define o "prototype" (.data (.object prototype) false false false)
  define prototype "constructor" (.hidden (.object o))
  return o

/-- Defines a value that never changes. -/
def constant (o : ObjectRef) (key : PropertyKey) (value : Value) : Setup Unit :=
  define o key (.data value false false false)

/-- Defines a value that may be replaced, but not by assignment. -/
def fixed (o : ObjectRef) (key : PropertyKey) (value : Value) : Setup Unit :=
  define o key (.data value false false true)

end Setup

open Setup

/-- The prototypes and the global object, in the order of their references. -/
def intrinsics : List ObjectData :=
  let inheriting (kind : ObjectKind) : ObjectData :=
    { prototype := some Intrinsic.objectPrototype, kind }
  let errorPrototype : ObjectData := { prototype := some (Intrinsic.errorPrototype .error) }
  [{}, inheriting (.builtin .functionPrototype), inheriting .ordinary, errorPrototype,
    errorPrototype, errorPrototype, errorPrototype, inheriting (.boolean false),
    inheriting (.number (Number.zero false)), inheriting (.string Units.empty),
    inheriting .ordinary, inheriting .ordinary,
    { prototype := some Intrinsic.functionPrototype, kind := .builtin .throwTypeError },
    inheriting .ordinary]

/-- The function that guards restricted properties cannot be changed. -/
def setUpThrower : Setup Unit := do
  constant Intrinsic.throwTypeError "length" (.number (Number.zero false))
  constant Intrinsic.throwTypeError "name" (.ofText "")
  modify (·.modify Intrinsic.throwTypeError fun data => { data with extensible := false })

def setUpGlobalValues : Setup Unit := do
  global "globalThis" (.object Intrinsic.globalObject)
  constant Intrinsic.globalObject "undefined" .undefined
  constant Intrinsic.globalObject "NaN" (.number Number.nan)
  constant Intrinsic.globalObject "Infinity" (.number (Number.infinity false))

def setUpObject : Setup Unit := do
  let o ← constructor .object Intrinsic.objectPrototype
  [.objectGetPrototypeOf, .objectSetPrototypeOf, .objectCreate, .objectDefineProperty,
    .objectGetOwnPropertyDescriptor].forM (method o)
  [.hasOwnProperty, .isPrototypeOf, .propertyIsEnumerable, .objectToString,
    .objectValueOf].forM (method Intrinsic.objectPrototype)
  global "Object" (.object o)

def setUpFunction : Setup Unit := do
  let o ← constructor .function Intrinsic.functionPrototype
  global "Function" (.object o)
  fixed Intrinsic.functionPrototype "length" (.number (Number.zero false))
  fixed Intrinsic.functionPrototype "name" (.ofText "")
  [.functionCall, .functionToString].forM (method Intrinsic.functionPrototype)
  constant Intrinsic.functionPrototype (.symbol Symbol.hasInstance)
    (.object (← function .functionHasInstance))

def setUpBoolean : Setup Unit := do
  let o ← constructor .boolean Intrinsic.booleanPrototype
  [.booleanToString, .booleanValueOf].forM (method Intrinsic.booleanPrototype)
  global "Boolean" (.object o)

/-- Adds the constructor of a kind of error, which inherits from that of all errors. -/
def setUpErrorKind (parent : Option ObjectRef) (kind : ErrorKind) : Setup ObjectRef := do
  let prototype := Intrinsic.errorPrototype kind
  let o ← constructor (.error kind) prototype
  define prototype "name" (.hidden (.ofText kind.name))
  define prototype "message" (.hidden (.ofText ""))
  if parent.isSome then modify (·.modify o fun data => { data with prototype := parent })
  global kind.name (.object o)
  return o

def setUpErrors : Setup Unit := do
  let base ← setUpErrorKind none .error
  [ErrorKind.type, .range, .reference, .syntaxKind].forM fun kind =>
    discard (setUpErrorKind (some base) kind)
  method (Intrinsic.errorPrototype .error) .errorToString

/-- The numeric constants on `Number`. -/
def numberConstants : List (String × Number) :=
  [("MAX_SAFE_INTEGER", Number.ofInt 9007199254740991),
    ("MIN_SAFE_INTEGER", Number.ofInt (-9007199254740991)),
    ("MAX_VALUE", Float.ofBits 0x7FEFFFFFFFFFFFFF), ("MIN_VALUE", Float.ofBits 1),
    ("EPSILON", Number.ofDyadic false 1 (-52)), ("NaN", Number.nan),
    ("POSITIVE_INFINITY", Number.infinity false), ("NEGATIVE_INFINITY", Number.infinity true)]

def setUpNumber : Setup Unit := do
  let o ← constructor .number Intrinsic.numberPrototype
  numberConstants.forM fun (name, x) => constant o name (.number x)
  [.numberToString, .numberValueOf].forM (method Intrinsic.numberPrototype)
  global "Number" (.object o)

def setUpBigInt : Setup Unit := do
  let o ← constructor .bigInt Intrinsic.bigIntPrototype
  [.bigIntToString, .bigIntValueOf].forM (method Intrinsic.bigIntPrototype)
  fixed Intrinsic.bigIntPrototype (.symbol Symbol.toStringTag) (.ofText "BigInt")
  global "BigInt" (.object o)

def setUpString : Setup Unit := do
  let o ← constructor .string Intrinsic.stringPrototype
  [.stringToString, .stringValueOf, .charAt, .charCodeAt, .indexOf].forM
    (method Intrinsic.stringPrototype)
  global "String" (.object o)

def setUpSymbol : Setup Unit := do
  let o ← constructor .symbol Intrinsic.symbolPrototype
  constant o "hasInstance" (.symbol Symbol.hasInstance)
  constant o "toPrimitive" (.symbol Symbol.toPrimitive)
  constant o "toStringTag" (.symbol Symbol.toStringTag)
  [.symbolToString, .symbolValueOf].forM (method Intrinsic.symbolPrototype)
  let description ← function .symbolDescription
  define Intrinsic.symbolPrototype "description"
    (.accessor (.object description) .undefined false true)
  let toPrimitive ← function .symbolToPrimitive
  fixed Intrinsic.symbolPrototype (.symbol Symbol.toPrimitive) (.object toPrimitive)
  fixed Intrinsic.symbolPrototype (.symbol Symbol.toStringTag) (.ofText "Symbol")
  global "Symbol" (.object o)

def setUpConsole : Setup Unit := do
  let console ← add { prototype := some Intrinsic.objectPrototype }
  method console .consoleLog
  global "console" (.object console)
  global "print" (.object (← function .print))

/-- Sets up all built-in objects. -/
def setUp : Setup Unit := do
  setUpThrower
  setUpGlobalValues
  setUpObject
  setUpFunction
  setUpBoolean
  setUpErrors
  setUpNumber
  setUpBigInt
  setUpString
  setUpSymbol
  setUpConsole

/-- The heap before the first script. -/
def heap : Heap :=
  (setUp.run (intrinsics.foldl Heap.push Heap.empty)).2

end Realm

namespace State

/-- The state before the first script. -/
def initial : State where
  heap := Realm.heap
  scopes := Scopes.empty.push {}
  contexts := []
  callDepth := 0
  site := default
  nextSymbol := Symbol.firstFresh
  nextPrivateName := 0
  output := ""
  incidents := []

end State

end Ecma
