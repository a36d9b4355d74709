import Ecma.Source.Location
import Ecma.Token.Keyword
import Ecma.Token.Punctuator

/-! Tokens of source text. -/

namespace Ecma

/-- The category of a token. -/
inductive TokenKind where
  | identifier
  | keyword (k : Keyword)
  | privateName
  | punctuator (p : Punctuator)
  | numericLiteral
  | bigIntLiteral
  | stringLiteral
  | booleanLiteral
  | nullLiteral
  | lineTerminator
deriving Repr, DecidableEq, Inhabited

namespace TokenKind

/-- The text of a category in token listings. -/
def text : TokenKind → String
  | .identifier => "Identifier"
  | .keyword k => "Keyword(" ++ k.name ++ ")"
  | .privateName => "PrivateName"
  | .punctuator p => "Punctuator(" ++ p.name ++ ")"
  | .numericLiteral => "NumericLiteral"
  | .bigIntLiteral => "BigIntLiteral"
  | .stringLiteral => "StringLiteral"
  | .booleanLiteral => "BooleanLiteral"
  | .nullLiteral => "NullLiteral"
  | .lineTerminator => "LineTerminator"

end TokenKind

/-- A token: its category, the slice of source text that it covers, and where that starts. -/
structure Token where
  kind : TokenKind
  text : String
  location : Location
deriving Repr, DecidableEq, Inhabited

namespace Token

/-- The byte offset after the token. -/
def endOffset (t : Token) : Nat :=
  t.location.offset + t.text.utf8ByteSize

/-- How a message shows the token. -/
def shown (t : Token) : String :=
  if t.kind = .lineTerminator then "line terminator" else t.text

/-- Line terminators only matter for semicolon insertion; all other tokens are significant. -/
def isSignificant (t : Token) : Bool :=
  t.kind ≠ .lineTerminator

end Token

end Ecma
