import Ecma.Source.Location

/-! A reading position in source text that keeps the text on both sides. -/

namespace Ecma

/-- Source text split at a position: the scanned characters with the last one first, and the
characters still to come. -/
structure Cursor where
  before : List Char
  rest : List Char
  location : Location
deriving Repr, DecidableEq, Inhabited

namespace Cursor

/-- The cursor at the start of a text. -/
def ofChars (source : List Char) : Cursor :=
  ⟨[], source, Location.start⟩

/-- The cursor at the start of a text. -/
def ofString (source : String) : Cursor :=
  ofChars source.toList

/-- The whole text. -/
def source (c : Cursor) : List Char :=
  c.before.reverseAux c.rest

def isAtEnd (c : Cursor) : Bool :=
  c.rest.isEmpty

/-- The next character. -/
def peek? (c : Cursor) : Option Char :=
  c.rest.head?

/-- The character `n` places after the next one. -/
def peekNth? (c : Cursor) (n : Nat) : Option Char :=
  c.rest[n]?

/-- The text to come starts with the given characters. -/
def startsWith (c : Cursor) (text : List Char) : Bool :=
  text.isPrefixOf c.rest

/-- Moves past one character; at the end the cursor stays. -/
def advance (c : Cursor) : Cursor :=
  match c.rest with
  | [] => c
  | ch :: rest => ⟨ch :: c.before, rest, c.location.after ch rest.head?⟩

/-- Moves past `n` characters, or to the end if there are fewer. -/
def advanceBy (c : Cursor) : Nat → Cursor
  | 0 => c
  | n + 1 => c.advance.advanceBy n

/-- Moves past the given text if it comes next. -/
def eat? (c : Cursor) (text : List Char) : Option Cursor :=
  if c.startsWith text then some (c.advanceBy text.length) else none

/-- The run of characters of a class that comes next. -/
def span (c : Cursor) (p : Char → Bool) : List Char :=
  c.rest.takeWhile p

/-- Moves past the run of characters of a class. -/
def advanceWhile (c : Cursor) (p : Char → Bool) : Cursor :=
  c.advanceBy (c.span p).length

/-- Prepends the scanned characters that lie at or after the byte offset `start` to `acc`, where
`offset` is the end of the scanned text. -/
def sliceBack (start offset : Nat) (acc : List Char) : List Char → List Char
  | [] => acc
  | ch :: before =>
    if offset ≤ start then acc
    else sliceBack start (offset - ch.utf8Size) (ch :: acc) before

/-- The scanned text from a byte offset up to the cursor. -/
def sliceFrom (c : Cursor) (start : Nat) : List Char :=
  sliceBack start c.location.offset [] c.before

end Cursor

end Ecma
