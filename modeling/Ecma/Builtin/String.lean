import Ecma.Builtin.Basic

/-! The constructors and methods of strings and symbols, and the output of text. -/

namespace Ecma

namespace Units

/-- The first position from `start` on, counted by `i`, at which `search` stands. -/
def indexFrom (search : List UInt16) (start i : Nat) : List UInt16 → Option Nat
  | [] => if start ≤ i && search.isEmpty then some i else none
  | u :: rest =>
    if start ≤ i && search.isPrefixOf (u :: rest) then some i
    else indexFrom search start (i + 1) rest

/-- The first position from `start` on at which a string stands in another one. -/
def indexOf? (s search : Units) (start : Nat) : Option Nat :=
  indexFrom search.toList start 0 s.toList

end Units

namespace Number

/-- The position that a Number stands for: its integer part, unless that is negative. An infinite
one is past every end. -/
def position? (x : Number) (size : Nat) : Option Nat :=
  match x.exact with
  | .nan => some 0
  | .infinite negative => if negative then none else some size
  | e@(.finite ..) =>
    match e.trunc?.getD 0 with
    | .ofNat n => some n
    | .negSucc _ => none

end Number

namespace Engine

open Eval (raise)

variable (eng : Engine)

/-! ### Strings -/

/-- The argument of `String`: a symbol has a text here, though it cannot be converted elsewhere. -/
def stringArgument (call : Invocation) : Eval Units :=
  match call.args, call.newTarget with
  | [], _ => return Units.empty
  | .symbol s :: _, none => return s.text
  | v :: _, _ => eng.toUnits v

/-- The function `String(value)`: the text that a value converts to. -/
def stringConstructor (call : Invocation) : Eval Value := do
  eng.primitiveOrWrapper (.string (← eng.stringArgument call)) call.newTarget

/-- The method `toString()` of a string. -/
def stringToString (call : Invocation) : Eval Value :=
  .string <$> Eval.thisString call.this "String.prototype.toString"

/-- The method `valueOf()` of a string. -/
def stringValueOf (call : Invocation) : Eval Value :=
  .string <$> Eval.thisString call.this "String.prototype.valueOf"

/-- The string of `this`, which may be any value but undefined and null. -/
def coercedThis (call : Invocation) (method : String) : Eval Units :=
  if call.this.isNullish then raise (.calledOnNullish method) else eng.toUnits call.this

/-- The method `charAt(position)`: one code unit, or the empty string outside the string. -/
def charAt (call : Invocation) : Eval Value := do
  let s ← eng.coercedThis call "String.prototype.charAt"
  let x ← eng.toNumber (call.arg 0)
  return .string (((x.position? s.length).bind s.at?).getD Units.empty)

/-- The method `charCodeAt(position)`: the code unit as a Number, or NaN outside the string. -/
def charCodeAt (call : Invocation) : Eval Value := do
  let s ← eng.coercedThis call "String.prototype.charCodeAt"
  let x ← eng.toNumber (call.arg 0)
  return .number (match (x.position? s.length).bind (s.toList[·]?) with
    | some u => Float.ofNat u.toNat
    | none => Number.nan)

/-- The method `indexOf(search, start)`; the start is moved into the string. -/
def indexOf (call : Invocation) : Eval Value := do
  let s ← eng.coercedThis call "String.prototype.indexOf"
  let search ← eng.toUnits (call.arg 0)
  let x ← eng.toNumber (call.arg 1)
  let start := min ((x.position? s.length).getD 0) s.length
  return .number (match s.indexOf? search start with
    | some i => Float.ofNat i
    | none => -1.0)

/-! ### Symbols -/

/-- The function `Symbol(description)`: a new symbol at each call, but not under `new`. -/
def symbolFunction (call : Invocation) : Eval Value := do
  if call.newTarget.isSome then raise (.notConstructor "Symbol")
  let description ← match call.arg 0 with
    | .undefined => pure none
    | v => some <$> eng.toUnits v
  .symbol <$> Eval.newSymbol description

/-- The method `toString()` of a symbol. -/
def symbolToString (call : Invocation) : Eval Value := do
  return .ofText (← Eval.thisSymbol call.this "Symbol.prototype.toString").text

/-- The method `valueOf()` of a symbol. -/
def symbolValueOf (call : Invocation) : Eval Value :=
  .symbol <$> Eval.thisSymbol call.this "Symbol.prototype.valueOf"

/-- The description of a symbol. -/
def symbolDescription (call : Invocation) : Eval Value := do
  match (← Eval.thisSymbol call.this "Symbol.prototype.description").description with
  | some d => return .string d
  | none => return .undefined

/-- The conversion method of symbols. -/
def symbolToPrimitive (call : Invocation) : Eval Value :=
  .symbol <$> Eval.thisSymbol call.this "Symbol.prototype [ @@toPrimitive ]"

/-! ### Output -/

/-- The text of a value that is written out. -/
def outputText : Value → Eval String
  | .symbol s => return s.text
  | v => Units.text <$> eng.toUnits v

/-- Writes the arguments on a line, with blanks between them. -/
def writeLine (call : Invocation) : Eval Value := do
  let parts ← call.args.mapM eng.outputText
  Eval.write (" ".intercalate parts ++ "\n")
  return .undefined

end Engine

end Ecma
