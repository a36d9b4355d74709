import Ecma.Eval.Conversion

/-! What the built-in functions share: their arguments, the primitives that they unwrap and the
objects that they make. -/

namespace Ecma

/-- The arguments of a call of a built-in function; `new` has a target, a plain call has none. -/
structure Invocation where
  this : Value
  args : List Value
  newTarget : Option ObjectRef
deriving Inhabited

namespace Invocation

/-- The argument at a position; undefined if there are fewer. -/
def arg (call : Invocation) (i : Nat) : Value :=
  call.args.getD i .undefined

end Invocation

namespace Eval

/-- The primitive of a value or of the object that wraps it, if it has the right type. -/
def unwrap {α : Type} (ofPrimitive : Primitive → Option α) (ofKind : ObjectKind → Option α)
    (this : Value) (method expected : String) : Eval α := do
  let found ← match this with
    | .primitive p => pure (ofPrimitive p)
    | .object o => heap fun h => ofKind (h.get o).kind
  match found with
  | some a => return a
  | none => raise (.wrongThis method expected)

/-- The boolean of a value or its wrapper. -/
def thisBoolean (this : Value) (method : String) : Eval Bool :=
  unwrap (fun | .boolean b => some b | _ => none) (fun | .boolean b => some b | _ => none)
    this method "a Boolean"

/-- The Number of a value or its wrapper. -/
def thisNumber (this : Value) (method : String) : Eval Number :=
  unwrap (fun | .number x => some x | _ => none) (fun | .number x => some x | _ => none)
    this method "a Number"

/-- The BigInt of a value or its wrapper. -/
def thisBigInt (this : Value) (method : String) : Eval Int :=
  unwrap (fun | .bigInt i => some i | _ => none) (fun | .bigInt i => some i | _ => none)
    this method "a BigInt"

/-- The string of a value or its wrapper. -/
def thisString (this : Value) (method : String) : Eval Units :=
  unwrap (fun | .string s => some s | _ => none) (fun | .string s => some s | _ => none)
    this method "a String"

/-- The symbol of a value or its wrapper. -/
def thisSymbol (this : Value) (method : String) : Eval Symbol :=
  unwrap (fun | .symbol s => some s | _ => none) (fun | .symbol s => some s | _ => none)
    this method "a Symbol"

end Eval

namespace Engine

variable (eng : Engine)

/-- The prototype of an object that a built-in constructor makes. -/
def builtinPrototype (newTarget : Option ObjectRef) (fallback : ObjectRef) : Eval ObjectRef :=
  match newTarget with
  | some target => eng.prototypeFor target fallback
  | none => return fallback

/-- A primitive, or an object that wraps it if there is a target of `new`. -/
def primitiveOrWrapper (p : Primitive) (newTarget : Option ObjectRef) : Eval Value := do
  match newTarget with
  | none => return .primitive p
  | some target =>
    let prototype ← eng.prototypeFor target (Intrinsic.wrapperPrototype p)
    .object <$> Eval.newObject (some prototype) (.wrapping p)

end Engine

end Ecma
