import Ecma.Text.Class
import Ecma.Text.Digit
import Ecma.Text.GraphemeExtend
import Ecma.Text.Unprintable

/-! Quoted text for token listings and tree dumps: double quotes around the text, with quotes,
backslashes, control characters and characters without a form of their own written as escapes. -/

namespace Ecma.Quoted

/-- A code point as a braced hexadecimal escape. -/
def codePoint (c : Char) : List Char :=
  ['\\', 'u', '\x7b'] ++ numeralBefore 16 c.toNat ['\x7d']

/-- A character is written as itself: it has a form and does not combine with its neighbour. -/
def isPlain (c : Char) : Bool :=
  if isAscii c then decide (' ' ≤ c) && decide (c < '\x7f')
  else !inRanges GraphemeExtend.ranges c.toNat && !inRanges Unprintable.ranges c.toNat

/-- One character of quoted text. -/
def encodeChar (c : Char) : List Char :=
  if c = '\x00' then ['\\', '0']
  else if c = '\t' then ['\\', 't']
  else if c = '\r' then ['\\', 'r']
  else if c = '\n' then ['\\', 'n']
  else if c = '\\' then ['\\', '\\']
  else if c = '"' then ['\\', '"']
  else if isPlain c then [c]
  else codePoint c

/-- The quoted form of a text. -/
def encode (s : String) : String :=
  String.ofList ('"' :: (s.toList.flatMap encodeChar ++ ['"']))

end Ecma.Quoted
