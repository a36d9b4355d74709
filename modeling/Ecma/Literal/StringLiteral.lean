import Ecma.Text.Digit
import Ecma.Text.Units

/-! The value of a string literal: its characters with the escape sequences decoded. -/

namespace Ecma

/-- What is wrong with an escape sequence. -/
inductive LiteralError where
  | invalidHexEscape
  | invalidUnicodeEscape
  | codePointOutOfRange
  | octalEscapeInStrict
deriving Repr, DecidableEq, Inhabited

namespace LiteralError

/-- The message of an error. -/
def message : LiteralError → String
  | .invalidHexEscape => "Invalid hexadecimal escape sequence"
  | .invalidUnicodeEscape => "Invalid Unicode escape sequence"
  | .codePointOutOfRange => "Undefined Unicode code-point"
  | .octalEscapeInStrict => "Octal escape sequences are not allowed in strict mode."

end LiteralError

namespace StringLiteral

/-- The code units of a code point; a surrogate stands for itself. -/
def codePointUnits (n : Nat) : List UInt16 :=
  if n.isValidChar then Units.ofChar (Char.ofNat n) else [UInt16.ofNat n]

/-- A single-character escape. -/
def simpleEscape (c : Char) : Option UInt16 :=
  match c with
  | 'n' => some 0x0A
  | 'r' => some 0x0D
  | 't' => some 0x09
  | 'b' => some 0x08
  | 'f' => some 0x0C
  | 'v' => some 0x0B
  | _ => none

/-- Up to `count` more octal digits after `value`, and the text after them. -/
def octalDigits (value : Nat) : (count : Nat) → List Char → Nat × List Char
  | 0, text => (value, text)
  | _ + 1, [] => (value, [])
  | count + 1, c :: rest =>
    match digitIn 8 c with
    | some d => octalDigits (value * 8 + d) count rest
    | none => (value, c :: rest)

/-- Exactly `count` hexadecimal digits, and the text after them. -/
def hexDigits (value : Nat) : (count : Nat) → List Char → Option (Nat × List Char)
  | 0, text => some (value, text)
  | _ + 1, [] => none
  | count + 1, c :: rest =>
    match digitIn 16 c with
    | some d => hexDigits (value * 16 + d) count rest
    | none => none

/-- The hexadecimal digits up to a closing brace, at least one of them unless `started`, and the
text after the brace. -/
def bracedDigits (value : Nat) (started : Bool) :
    List Char → Except LiteralError (Nat × List Char)
  | [] => .error .invalidUnicodeEscape
  | c :: rest =>
    if c = '\x7d' ∧ started = true then .ok (value, rest)
    else
      match digitIn 16 c with
      | none => .error .invalidUnicodeEscape
      | some d =>
        let value := value * 16 + d
        if 0x10FFFF < value then .error .codePointOutOfRange
        else bracedDigits value true rest

/-- The code units of a Unicode escape after its `u`, and the text after it. -/
def unicodeEscape : List Char → Except LiteralError (List UInt16 × List Char)
  | '\x7b' :: rest =>
    (bracedDigits 0 false rest).map fun (n, rest) => (codePointUnits n, rest)
  | text =>
    match hexDigits 0 4 text with
    | some (n, rest) => .ok ([UInt16.ofNat n], rest)
    | none => .error .invalidUnicodeEscape

/-- The code units of an escape sequence that starts with the character `c` after its backslash,
and the text after it. In strict code a zero is the only octal escape, and no digit may follow
it. -/
def escape (strict : Bool) (c : Char) (rest : List Char) :
    Except LiteralError (List UInt16 × List Char) :=
  match simpleEscape c with
  | some u => .ok ([u], rest)
  | none =>
    if c = '0' ∧ !rest.head?.any Char.isDigit then .ok ([0], rest)
    else
      match digitIn 8 c with
      | some d =>
        if strict then .error .octalEscapeInStrict
        else
          let (value, rest) := octalDigits d (if d ≤ 3 then 2 else 1) rest
          .ok ([UInt16.ofNat value], rest)
      | none =>
        if (c = '8' ∨ c = '9') ∧ strict = true then .error .octalEscapeInStrict
        else if c = 'x' then
          match hexDigits 0 2 rest with
          | some (n, rest) => .ok ([UInt16.ofNat n], rest)
          | none => .error .invalidHexEscape
        else if c = 'u' then unicodeEscape rest
        else if c = '\r' then
          match rest with
          | '\n' :: rest => .ok ([], rest)
          | _ => .ok ([], rest)
        else if c = '\n' ∨ c = '\u2028' ∨ c = '\u2029' then .ok ([], rest)
        else .ok (Units.ofChar c, rest)

/-- Decodes the text between the quotes; a backslash at the very end is dropped. Each step takes
at least one character, so the length of the text is fuel enough. -/
def decode (strict : Bool) : (fuel : Nat) → List Char → Except LiteralError (List UInt16)
  | 0, _ => .ok []
  | _ + 1, [] => .ok []
  | fuel + 1, c :: rest =>
    if c = '\\' then
      match rest with
      | [] => .ok []
      | e :: rest =>
        match escape strict e rest with
        | .error err => .error err
        | .ok (units, rest) => (decode strict fuel rest).map (units ++ ·)
    else (decode strict fuel rest).map (Units.ofChar c ++ ·)

/-- The value of a string literal that is given with its quotes. -/
def value (strict : Bool) (text : String) : Except LiteralError Units :=
  let inner := (text.toList.drop 1).dropLast
  (decode strict inner.length inner).map Units.mk

end StringLiteral

end Ecma
