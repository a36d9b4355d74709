import Ecma.Object.Function
import Ecma.Object.Property

/-! Objects: their own properties and what may be done to them. -/

namespace Ecma

/-- What an object is besides its properties. -/
inductive ObjectKind where
  | ordinary
  | function (f : ScriptFunction)
  | builtin (b : Builtin)
  | arguments
  | error
  | boolean (b : Bool)
  | number (x : Number)
  | string (s : Units)
  | symbol (s : Symbol)
  | bigInt (i : Int)
deriving Inhabited

namespace ObjectKind

/-- The name of the kind. -/
def className : ObjectKind → String
  | .ordinary => "Object"
  | .function _ | .builtin _ => "Function"
  | .arguments => "Arguments"
  | .error => "Error"
  | .boolean _ => "Boolean"
  | .number _ => "Number"
  | .string _ => "String"
  | .symbol _ => "Symbol"
  | .bigInt _ => "BigInt"

def isCallable : ObjectKind → Bool
  | .function _ | .builtin _ => true
  | _ => false

/-- Whether `new` may be applied. -/
def isConstructor : ObjectKind → Bool
  | .function f => f.constructorKind.isSome
  | .builtin b => b.isConstructor
  | _ => false

/-- The kind of the object that stands for a primitive. -/
def wrapping : Primitive → ObjectKind
  | .boolean b => .boolean b
  | .number x => .number x
  | .string s => .string s
  | .symbol s => .symbol s
  | .bigInt i => .bigInt i
  | .undefined | .null => .ordinary

end ObjectKind

/-- The contents of an object; properties are in order of creation. -/
structure ObjectData where
  prototype : Option ObjectRef := none
  extensible : Bool := true
  properties : List (PropertyKey × Property) := []
  kind : ObjectKind := .ordinary
  privateElements : List (PrivateName × PrivateElement) := []
deriving Inhabited

/-- The property of a string under a key: a code unit or the length. -/
def Units.property? (s : Units) (key : PropertyKey) : Option Property :=
  match key.arrayIndex?.bind s.at? with
  | some u => some (.data (.string u) false true false)
  | none =>
    if key = ("length" : PropertyKey) then
      some (.data (.number (Number.ofInt s.length)) false false false)
    else none

namespace ObjectData

/-- The property that an object has by its kind: the contents of a wrapped string. -/
def exoticProperty? (o : ObjectData) (key : PropertyKey) : Option Property :=
  match o.kind with
  | .string s => s.property? key
  | _ => none

/-- The own property under a key. -/
def getOwn? (o : ObjectData) (key : PropertyKey) : Option Property :=
  o.exoticProperty? key <|> o.properties.lookup key

/-- The object has a property of its own under a key. -/
def hasOwn (o : ObjectData) (key : PropertyKey) : Bool :=
  (o.getOwn? key).isSome

/-- The stored properties with the one under a key replaced in its place. -/
def replace (key : PropertyKey) (p : Property) (properties : List (PropertyKey × Property)) :
    List (PropertyKey × Property) :=
  properties.map fun entry => if entry.1 = key then (key, p) else entry

/-- Defines an own property as described; nothing if that is refused. A property that the object
has by its kind is not stored. -/
def define (o : ObjectData) (key : PropertyKey) (d : Descriptor) : Option ObjectData :=
  match o.getOwn? key with
  | none =>
    if o.extensible then some { o with properties := o.properties ++ [(key, d.complete)] } else none
  | some current =>
    if d.allows current then
      if (o.properties.lookup key).isSome then
        some { o with properties := replace key (d.update current) o.properties }
      else some o
    else none

/-- Removes an own property; nothing if it must stay. -/
def delete (o : ObjectData) (key : PropertyKey) : Option ObjectData :=
  match o.getOwn? key with
  | none => some o
  | some p =>
    if p.isConfigurable then some { o with properties := o.properties.filter (·.1 ≠ key) } else none

/-- The array indices among the own keys, in ascending order. -/
def ownIndices (o : ObjectData) : List Nat :=
  let stored := o.properties.filterMap (·.1.arrayIndex?)
  let exotic := match o.kind with
    | .string s => List.range s.length
    | _ => []
  ((stored ++ exotic).mergeSort fun i j => decide (i ≤ j)).eraseReps

/-- The own keys: array indices ascending, then the other strings and then the symbols in order of
creation, where a wrapped string's length comes before all stored strings. -/
def ownKeys (o : ObjectData) : List PropertyKey :=
  let stored := o.properties.map Prod.fst
  let length : List PropertyKey := match o.kind with
    | .string _ => ["length"]
    | _ => []
  o.ownIndices.map PropertyKey.ofIndex ++ length ++
    stored.filter (fun k => !k.isSymbol && k.arrayIndex?.isNone) ++ stored.filter (·.isSymbol)

/-- What the object holds under a private name. -/
def privateElement? (o : ObjectData) (name : PrivateName) : Option PrivateElement :=
  o.privateElements.lookup name

end ObjectData

end Ecma
