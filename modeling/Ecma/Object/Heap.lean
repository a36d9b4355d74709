import Ecma.Object.Basic

/-! The heap: all objects, found by their references. An object is never removed. -/

namespace Ecma

/-- The objects by reference. -/
structure Heap where
  objects : Array ObjectData
deriving Inhabited

namespace Heap

def empty : Heap := ⟨#[]⟩

/-- The contents of an object. -/
def get (h : Heap) (o : ObjectRef) : ObjectData :=
  h.objects.getD o.index {}

/-- Changes the contents of an object. -/
def modify (h : Heap) (o : ObjectRef) (f : ObjectData → ObjectData) : Heap :=
  ⟨h.objects.modify o.index f⟩

/-- The reference of the next object. -/
def next (h : Heap) : ObjectRef :=
  ⟨h.objects.size⟩

/-- Adds an object. -/
def push (h : Heap) (data : ObjectData) : Heap :=
  ⟨h.objects.push data⟩

/-- At most `fuel` objects from `start` on, each the prototype of the one before. -/
def chainFrom (h : Heap) : (fuel : Nat) → (start : Option ObjectRef) → List ObjectRef
  | 0, _ => []
  | _, none => []
  | fuel + 1, some o => o :: chainFrom h fuel (h.get o).prototype

/-- An object and the prototypes after it. No chain of a heap without cycles is longer than the
heap. -/
def chain (h : Heap) (start : Option ObjectRef) : List ObjectRef :=
  h.chainFrom h.objects.size start

/-- The own property under a key. -/
def getOwn? (h : Heap) (o : ObjectRef) (key : PropertyKey) : Option Property :=
  (h.get o).getOwn? key

/-- The first property under a key on the prototype chain. -/
def find? (h : Heap) (o : ObjectRef) (key : PropertyKey) : Option Property :=
  (h.chain (some o)).findSome? (h.getOwn? · key)

/-- The object or one on its prototype chain has the property. -/
def has (h : Heap) (o : ObjectRef) (key : PropertyKey) : Bool :=
  (h.find? o key).isSome

/-- The object `p` is on the prototype chain behind `o`. -/
def inherits (h : Heap) (o p : ObjectRef) : Bool :=
  (h.chain (h.get o).prototype).contains p

/-- Defines an own property as described; nothing if that is refused. -/
def define (h : Heap) (o : ObjectRef) (key : PropertyKey) (d : Descriptor) : Option Heap :=
  ((h.get o).define key d).map fun data => h.modify o fun _ => data

/-- An object may get a prototype: it has it already, or it is extensible and the chain of the
prototype does not lead back to it. -/
def acceptsPrototype (h : Heap) (o : ObjectRef) (prototype : Option ObjectRef) : Bool :=
  (h.get o).prototype == prototype ||
    ((h.get o).extensible && !(h.chain prototype).contains o)

def isCallable (h : Heap) (o : ObjectRef) : Bool :=
  (h.get o).kind.isCallable

/-- Whether `new` may be applied. -/
def isConstructor (h : Heap) (o : ObjectRef) : Bool :=
  (h.get o).kind.isConstructor

/-- The script function that an object is. -/
def scriptFunction? (h : Heap) (o : ObjectRef) : Option ScriptFunction :=
  match (h.get o).kind with
  | .function f => some f
  | _ => none

/-- The result of `typeof`. -/
def typeName (h : Heap) : Value → String
  | .undefined => "undefined"
  | .null => "object"
  | .boolean _ => "boolean"
  | .number _ => "number"
  | .string _ => "string"
  | .symbol _ => "symbol"
  | .bigInt _ => "bigint"
  | .object o => if h.isCallable o then "function" else "object"

/-- A short text of a value in messages. -/
def describe (h : Heap) : Value → String
  | .primitive p => p.quoted
  | .object o => if h.isCallable o then "function" else "object"

end Heap

end Ecma
