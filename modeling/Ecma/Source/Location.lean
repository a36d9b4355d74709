import Ecma.Text.Class
import Ecma.Text.Digit

/-! Positions in source text. -/

namespace Ecma

/-- A position: the line counted from one and the column in characters counted from zero, in
words that start over past the greatest, and the offset in UTF-8 bytes. -/
structure Location where
  line : UInt32
  column : UInt32
  offset : Nat
deriving Repr, DecidableEq, Inhabited

namespace Location

/-- The start of a source text. -/
def start : Location := ⟨1, 0, 0⟩

/-- The position after a character: a line terminator starts a new line, except that a CR before
an LF leaves that to the LF. -/
def after (l : Location) (c : Char) (next : Option Char) : Location :=
  if isLineTerminator c && !(c == '\r' && next == some '\n') then
    ⟨l.line + 1, 0, l.offset + c.utf8Size⟩
  else ⟨l.line, l.column + 1, l.offset + c.utf8Size⟩

/-- The text `line:column`. -/
def text (l : Location) : String :=
  numeral 10 l.line.toNat ++ ":" ++ numeral 10 l.column.toNat

end Location

end Ecma
