import Ecma.Object.Basic

/-! The properties of an object as they are stored: a map from keys to descriptions, and beside it a
list of the keys in order of creation. A description that is stored could lack any of its parts, or
have parts of both kinds, and the list could name other keys than the map. -/

namespace Ecma

namespace Descriptor

def isEnumerable (d : Descriptor) : Bool :=
  d.enumerable == some true

def isConfigurable (d : Descriptor) : Bool :=
  d.configurable == some true

def isWritable (d : Descriptor) : Bool :=
  d.writable == some true

/-- The description with its absent parts filled in, as it is stored where there is no property. -/
def completed (d : Descriptor) : Descriptor :=
  let enumerable := some (d.enumerable.getD false)
  let configurable := some (d.configurable.getD false)
  if d.isAccessor then
    { get := some (d.get.getD .undefined), set := some (d.set.getD .undefined)
      enumerable, configurable }
  else
    { value := some (d.value.getD .undefined), writable := some (d.writable.getD false)
      enumerable, configurable }

/-- A given accessor function is the current one: both are undefined, where an absent one counts as
undefined, or both are one object. -/
def keepsAccessor (given : Value) (current : Option Value) : Bool :=
  match given, current with
  | .undefined, none | .undefined, some .undefined => true
  | .object a, some (.object b) => a == b
  | _, _ => false

/-- The description asks for what the current property, which is not configurable, rules out. -/
def conflicts (d current : Descriptor) : Bool :=
  !current.isConfigurable &&
    (d.isConfigurable || d.enumerable.any (some · != current.enumerable) ||
      (!d.isGeneric && d.isAccessor != current.isAccessor) ||
      if current.isAccessor then
        d.get.any (!keepsAccessor · current.get) || d.set.any (!keepsAccessor · current.set)
      else
        !current.isWritable &&
          (d.isWritable || d.value.any fun v => !current.value.any fun w => w.sameValue v))

/-- The current property with the given parts put in. One that changes its kind keeps its flags
only. -/
def appliedTo (d current : Descriptor) : Descriptor :=
  let enumerable := d.enumerable.or current.enumerable
  let configurable := d.configurable.or current.configurable
  if d.isAccessor && current.isData then
    { get := some (d.get.getD .undefined), set := some (d.set.getD .undefined)
      enumerable, configurable }
  else if d.isData && current.isAccessor then
    { value := some (d.value.getD .undefined), writable := some (d.writable.getD false)
      enumerable, configurable }
  else
    { value := d.value.or current.value, writable := d.writable.or current.writable
      get := d.get.or current.get, set := d.set.or current.set, enumerable, configurable }

end Descriptor

/-- What is stored of an object's properties. -/
structure ObjectTable where
  extensible : Bool
  properties : PropertyKey → Option Descriptor
  order : List PropertyKey
  kind : ObjectKind

namespace ObjectTable

/-- An object without properties. -/
def new (kind : ObjectKind) : ObjectTable where
  extensible := true
  properties _ := none
  order := []
  kind := kind

/-- The properties with one put in the map under a key. -/
def insert (t : ObjectTable) (key : PropertyKey) (d : Descriptor) : ObjectTable :=
  { t with properties := fun k => if k = key then some d else t.properties k }

/-- The own property under a key; a wrapped string shows its code units and its length. -/
def getOwn? (t : ObjectTable) (key : PropertyKey) : Option Descriptor :=
  match t.kind with
  | .string s =>
    match key.arrayIndex?.bind s.at? with
    | some u => some (.data (.string u) false true false)
    | none =>
      if key = ("length" : PropertyKey) then
        some (.data (.number (Number.ofInt s.length)) false false false)
      else t.properties key
  | _ => t.properties key

/-- Defines an own property as described, and tells whether that is done. -/
def define (t : ObjectTable) (key : PropertyKey) (d : Descriptor) : Bool × ObjectTable :=
  match t.getOwn? key with
  | none =>
    if t.extensible then (true, { t.insert key d.completed with order := t.order ++ [key] })
    else (false, t)
  | some current =>
    if d.conflicts current then (false, t)
    -- what a wrapped string shows is not stored
    else if (t.properties key).isNone then (true, t)
    else (true, t.insert key (d.appliedTo current))

/-- Removes an own property, and tells whether none is left. -/
def delete (t : ObjectTable) (key : PropertyKey) : Bool × ObjectTable :=
  match t.getOwn? key with
  | none => (true, t)
  | some current =>
    if current.isConfigurable then
      (true, { t with
        properties := fun k => if k = key then none else t.properties k
        order := t.order.filter (· ≠ key) })
    else (false, t)

/-- The array indices among the own keys. -/
def ownIndices (t : ObjectTable) : List Nat :=
  let stored := t.order.filterMap PropertyKey.arrayIndex?
  let indices := match t.kind with
    | .string s => stored ++ List.range s.length
    | _ => stored
  (indices.mergeSort fun i j => decide (i ≤ j)).eraseReps

/-- The strings among the listed keys that are no array indices. -/
def namedKeys (t : ObjectTable) : List PropertyKey :=
  t.order.filter fun k => !k.isSymbol && k.arrayIndex?.isNone

/-- The symbols among the listed keys. -/
def symbolKeys (t : ObjectTable) : List PropertyKey :=
  t.order.filter (·.isSymbol)

/-- The key that a wrapped string has beside its indices. -/
def lengthKeys (t : ObjectTable) : List PropertyKey :=
  match t.kind with
  | .string _ => ["length"]
  | _ => []

/-- The own keys: array indices, then the other strings and then the symbols. -/
def ownKeys (t : ObjectTable) : List PropertyKey :=
  t.ownIndices.map PropertyKey.ofIndex ++ t.lengthKeys ++ t.namedKeys ++ t.symbolKeys

end ObjectTable

end Ecma
