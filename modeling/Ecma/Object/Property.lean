import Ecma.Value.Basic

/-! Properties as an object stores them, and the partial descriptions that define them. -/

namespace Ecma

/-- A stored property: a value, or a pair of functions that stand for one. -/
inductive Property where
  | data (value : Value) (writable enumerable configurable : Bool)
  | accessor (get set : Value) (enumerable configurable : Bool)
deriving Inhabited

namespace Property

def isEnumerable : Property → Bool
  | .data _ _ enumerable _ => enumerable
  | .accessor _ _ enumerable _ => enumerable

def isConfigurable : Property → Bool
  | .data _ _ _ configurable => configurable
  | .accessor _ _ _ configurable => configurable

def isAccessor : Property → Bool
  | .accessor .. => true
  | .data .. => false

/-- A value that may be changed by assignment. -/
def isWritable : Property → Bool
  | .data _ writable _ _ => writable
  | .accessor .. => false

end Property

/-- A description of a property, of which parts may be absent. -/
structure Descriptor where
  value : Option Value := none
  writable : Option Bool := none
  get : Option Value := none
  set : Option Value := none
  enumerable : Option Bool := none
  configurable : Option Bool := none
deriving Inhabited

namespace Descriptor

/-- The full description of a value. -/
def data (value : Value) (writable enumerable configurable : Bool) : Descriptor where
  value := some value
  writable := some writable
  enumerable := some enumerable
  configurable := some configurable

/-- The full description of a pair of accessors. -/
def accessor (get set : Value) (enumerable configurable : Bool) : Descriptor where
  get := some get
  set := some set
  enumerable := some enumerable
  configurable := some configurable

/-- The full description of a stored property. -/
def ofProperty : Property → Descriptor
  | .data value writable enumerable configurable => data value writable enumerable configurable
  | .accessor get set enumerable configurable => accessor get set enumerable configurable

/-- The names and values of the parts that are present. -/
def fields (d : Descriptor) : List (String × Value) :=
  [("value", d.value), ("writable", d.writable.map .boolean), ("get", d.get), ("set", d.set),
    ("enumerable", d.enumerable.map .boolean),
    ("configurable", d.configurable.map .boolean)].filterMap fun (name, v) => v.map (name, ·)

/-- The attributes of a property that assignment creates. -/
def plain (value : Value) : Descriptor :=
  data value true true true

/-- The attributes of a built-in method: writable and configurable, but not enumerable. -/
def hidden (value : Value) : Descriptor :=
  data value true false true

/-- Asks for a value or its writability. -/
def isData (d : Descriptor) : Bool :=
  d.value.isSome || d.writable.isSome

/-- Asks for an accessor. -/
def isAccessor (d : Descriptor) : Bool :=
  d.get.isSome || d.set.isSome

/-- Asks for neither a value nor an accessor. -/
def isGeneric (d : Descriptor) : Bool :=
  !d.isData && !d.isAccessor

/-- The property that a description makes where there is none: absent parts are undefined or
false. -/
def complete (d : Descriptor) : Property :=
  let enumerable := d.enumerable.getD false
  let configurable := d.configurable.getD false
  if d.isAccessor then
    .accessor (d.get.getD .undefined) (d.set.getD .undefined) enumerable configurable
  else .data (d.value.getD .undefined) (d.writable.getD false) enumerable configurable

/-- An accessor function stays the same: both are undefined, or both are one object. -/
def sameAccessor : Value → Value → Bool
  | .undefined, .undefined => true
  | .object a, .object b => a == b
  | _, _ => false

/-- What may be asked of the contents of a property that is not configurable. -/
def keepsContents (d : Descriptor) : Property → Bool
  | .accessor get set _ _ => d.get.all (sameAccessor · get) && d.set.all (sameAccessor · set)
  | .data value writable _ _ =>
    writable || (d.writable != some true && d.value.all (value.sameValue ·))

/-- Whether a property may be redefined as described. A configurable one always may; another keeps
its kind and its flags, except that it may stop being writable. -/
def allows (d : Descriptor) (current : Property) : Bool :=
  current.isConfigurable ||
    (d.configurable != some true && d.enumerable.all (· == current.isEnumerable) &&
      (d.isGeneric || d.isAccessor == current.isAccessor) && d.keepsContents current)

/-- The property after a redefinition: parts that are given replace those that are there, and a
property that changes its kind starts from undefined and not writable. -/
def update (d : Descriptor) (current : Property) : Property :=
  let enumerable := d.enumerable.getD current.isEnumerable
  let configurable := d.configurable.getD current.isConfigurable
  match current with
  | .data value writable _ _ =>
    if d.isAccessor then
      .accessor (d.get.getD .undefined) (d.set.getD .undefined) enumerable configurable
    else .data (d.value.getD value) (d.writable.getD writable) enumerable configurable
  | .accessor get set _ _ =>
    if d.isData then
      .data (d.value.getD .undefined) (d.writable.getD false) enumerable configurable
    else .accessor (d.get.getD get) (d.set.getD set) enumerable configurable

end Descriptor

end Ecma
