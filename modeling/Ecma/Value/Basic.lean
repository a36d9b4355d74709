import Ecma.Number.Arithmetic
import Ecma.Number.Text
import Ecma.Text.Units

/-! Values of the language: primitives, and references to objects. -/

namespace Ecma

/-- A symbol. Its number is its identity: two symbols with one description differ. -/
structure Symbol where
  id : Nat
  description : Option Units
deriving Repr, DecidableEq, Inhabited

namespace Symbol

/-- The key of the method behind `instanceof`. -/
def hasInstance : Symbol := ⟨0, some "Symbol.hasInstance"⟩

/-- The key of the method that converts an object to a primitive. -/
def toPrimitive : Symbol := ⟨1, some "Symbol.toPrimitive"⟩

/-- The key of the tag in the default text of an object. -/
def toStringTag : Symbol := ⟨2, some "Symbol.toStringTag"⟩

/-- The number of the first symbol that a script makes. -/
def firstFresh : Nat := 3

/-- The text of a symbol: its description in parentheses. -/
def text (s : Symbol) : String :=
  "Symbol(" ++ (s.description.map Units.text).getD "" ++ ")"

end Symbol

/-- A reference to an object on the heap; equality is identity. -/
structure ObjectRef where
  index : Nat
deriving Repr, DecidableEq, Inhabited

/-- The values that are no objects. -/
inductive Primitive where
  | undefined
  | null
  | boolean (b : Bool)
  | number (x : Number)
  | string (s : Units)
  | symbol (s : Symbol)
  | bigInt (i : Int)
deriving Inhabited

namespace Primitive

/-- Undefined and null. -/
def isNullish : Primitive → Bool
  | .undefined | .null => true
  | _ => false

/-- Whether a condition holds: false, zeros, NaN, the empty string, undefined and null do not. -/
def isTruthy : Primitive → Bool
  | .undefined | .null => false
  | .boolean b => b
  | .number x => x != 0.0 && !x.isNaN
  | .string s => !s.isEmpty
  | .symbol _ => true
  | .bigInt i => i != 0

/-- Equality without conversion: NaN differs from itself, and the two zeros are equal. -/
def strictEquals : Primitive → Primitive → Bool
  | .undefined, .undefined => true
  | .null, .null => true
  | .boolean a, .boolean b => a == b
  | .number a, .number b => a == b
  | .string a, .string b => a == b
  | .symbol a, .symbol b => a == b
  | .bigInt a, .bigInt b => a == b
  | _, _ => false

/-- Sameness: NaN is the same as itself, and the two zeros differ. -/
def sameValue : Primitive → Primitive → Bool
  | .number a, .number b => a.sameValue b
  | p, q => p.strictEquals q

/-- The text of a primitive in messages; a BigInt ends in `n`. -/
def text : Primitive → String
  | .undefined => "undefined"
  | .null => "null"
  | .boolean b => if b then "true" else "false"
  | .number x => x.text
  | .string s => s.text
  | .symbol s => s.text
  | .bigInt i => IntegerFormat.write 10 i ++ "n"

/-- The text of a primitive in messages, in which strings stand in quotes. -/
def quoted : Primitive → String
  | .string s => "\"" ++ s.text ++ "\""
  | p => p.text

end Primitive

/-- A value: a primitive or an object. -/
inductive Value where
  | primitive (p : Primitive)
  | object (o : ObjectRef)
deriving Inhabited

namespace Value

/-- The undefined value. -/
@[match_pattern]
abbrev undefined : Value := .primitive .undefined

/-- The null value. -/
@[match_pattern]
abbrev null : Value := .primitive .null

/-- A boolean as a value. -/
@[match_pattern]
abbrev boolean (b : Bool) : Value := .primitive (.boolean b)

/-- A Number as a value. -/
@[match_pattern]
abbrev number (x : Number) : Value := .primitive (.number x)

/-- A string as a value. -/
@[match_pattern]
abbrev string (s : Units) : Value := .primitive (.string s)

/-- A symbol as a value. -/
@[match_pattern]
abbrev symbol (s : Symbol) : Value := .primitive (.symbol s)

/-- A BigInt as a value. -/
@[match_pattern]
abbrev bigInt (i : Int) : Value := .primitive (.bigInt i)

/-- The string value of a text. -/
def ofText (s : String) : Value :=
  .string (Units.ofString s)

/-- An object, or null in its place. -/
def ofObject? : Option ObjectRef → Value
  | some o => .object o
  | none => .null

/-- The object that a value is, if it is one. -/
def object? : Value → Option ObjectRef
  | .object o => some o
  | .primitive _ => none

def isObject (v : Value) : Bool :=
  v.object?.isSome

def isUndefined : Value → Bool
  | .undefined => true
  | _ => false

/-- Undefined and null. -/
def isNullish : Value → Bool
  | .primitive p => p.isNullish
  | .object _ => false

/-- Whether a condition holds; every object does. -/
def isTruthy : Value → Bool
  | .primitive p => p.isTruthy
  | .object _ => true

/-- Equality without conversion; objects are equal if they are the same object. -/
def strictEquals : Value → Value → Bool
  | .primitive p, .primitive q => p.strictEquals q
  | .object a, .object b => a == b
  | _, _ => false

/-- Sameness, which tells the two zeros apart and takes NaN as the same as itself. -/
def sameValue : Value → Value → Bool
  | .primitive p, .primitive q => p.sameValue q
  | .object a, .object b => a == b
  | _, _ => false

/-- The text of a value in messages. -/
def text : Value → String
  | .primitive p => p.text
  | .object _ => "[object Object]"

end Value

/-- The key of a property. -/
inductive PropertyKey where
  | string (s : Units)
  | symbol (s : Symbol)
deriving Repr, DecidableEq, Inhabited

namespace PropertyKey

instance : Coe String PropertyKey := ⟨fun s => .string (Units.ofString s)⟩

/-- The key of an array index. -/
def ofIndex (i : Nat) : PropertyKey :=
  .string (Units.ofIndex i)

/-- The array index that a key writes. -/
def arrayIndex? : PropertyKey → Option Nat
  | .string s => s.arrayIndex?
  | .symbol _ => none

def isSymbol : PropertyKey → Bool
  | .symbol _ => true
  | .string _ => false

/-- A key as a value. -/
def toValue : PropertyKey → Value
  | .string s => .string s
  | .symbol s => .symbol s

/-- The text of a key in messages. -/
def text : PropertyKey → String
  | .string s => s.text
  | .symbol s => s.text

end PropertyKey

end Ecma
