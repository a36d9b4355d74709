/-! Punctuators of the language. -/

namespace Ecma

/-- The punctuators. -/
inductive Punctuator where
  | leftBrace
  | rightBrace
  | leftParen
  | rightParen
  | leftBracket
  | rightBracket
  | dot
  | ellipsis
  | semicolon
  | comma
  | lessThan
  | greaterThan
  | lessThanEqual
  | greaterThanEqual
  | equal
  | notEqual
  | strictEqual
  | strictNotEqual
  | plus
  | minus
  | star
  | percent
  | exponent
  | increment
  | decrement
  | leftShift
  | rightShift
  | unsignedRightShift
  | ampersand
  | pipe
  | caret
  | bang
  | tilde
  | logicalAnd
  | logicalOr
  | nullishCoalescing
  | question
  | optionalChain
  | colon
  | assign
  | plusAssign
  | minusAssign
  | starAssign
  | percentAssign
  | exponentAssign
  | leftShiftAssign
  | rightShiftAssign
  | unsignedRightShiftAssign
  | ampersandAssign
  | pipeAssign
  | caretAssign
  | logicalAndAssign
  | logicalOrAssign
  | nullishAssign
  | arrow
  | slash
  | slashAssign
deriving Repr, DecidableEq, Inhabited

namespace Punctuator

/-- The spelling in source text. -/
def text : Punctuator → String
  | .leftBrace => "\x7b"
  | .rightBrace => "\x7d"
  | .leftParen => "("
  | .rightParen => ")"
  | .leftBracket => "["
  | .rightBracket => "]"
  | .dot => "."
  | .ellipsis => "..."
  | .semicolon => ";"
  | .comma => ","
  | .lessThan => "<"
  | .greaterThan => ">"
  | .lessThanEqual => "<="
  | .greaterThanEqual => ">="
  | .equal => "=="
  | .notEqual => "!="
  | .strictEqual => "==="
  | .strictNotEqual => "!=="
  | .plus => "+"
  | .minus => "-"
  | .star => "*"
  | .percent => "%"
  | .exponent => "**"
  | .increment => "++"
  | .decrement => "--"
  | .leftShift => "<<"
  | .rightShift => ">>"
  | .unsignedRightShift => ">>>"
  | .ampersand => "&"
  | .pipe => "|"
  | .caret => "^"
  | .bang => "!"
  | .tilde => "~"
  | .logicalAnd => "&&"
  | .logicalOr => "||"
  | .nullishCoalescing => "??"
  | .question => "?"
  | .optionalChain => "?."
  | .colon => ":"
  | .assign => "="
  | .plusAssign => "+="
  | .minusAssign => "-="
  | .starAssign => "*="
  | .percentAssign => "%="
  | .exponentAssign => "**="
  | .leftShiftAssign => "<<="
  | .rightShiftAssign => ">>="
  | .unsignedRightShiftAssign => ">>>="
  | .ampersandAssign => "&="
  | .pipeAssign => "|="
  | .caretAssign => "^="
  | .logicalAndAssign => "&&="
  | .logicalOrAssign => "||="
  | .nullishAssign => "??="
  | .arrow => "=>"
  | .slash => "/"
  | .slashAssign => "/="

/-- The name in token listings. -/
def name : Punctuator → String
  | .leftBrace => "LeftBrace"
  | .rightBrace => "RightBrace"
  | .leftParen => "LeftParen"
  | .rightParen => "RightParen"
  | .leftBracket => "LeftBracket"
  | .rightBracket => "RightBracket"
  | .dot => "Dot"
  | .ellipsis => "Ellipsis"
  | .semicolon => "Semicolon"
  | .comma => "Comma"
  | .lessThan => "LessThan"
  | .greaterThan => "GreaterThan"
  | .lessThanEqual => "LessThanEqual"
  | .greaterThanEqual => "GreaterThanEqual"
  | .equal => "Equal"
  | .notEqual => "NotEqual"
  | .strictEqual => "StrictEqual"
  | .strictNotEqual => "StrictNotEqual"
  | .plus => "Plus"
  | .minus => "Minus"
  | .star => "Star"
  | .percent => "Percent"
  | .exponent => "Exponent"
  | .increment => "Increment"
  | .decrement => "Decrement"
  | .leftShift => "LeftShift"
  | .rightShift => "RightShift"
  | .unsignedRightShift => "UnsignedRightShift"
  | .ampersand => "Ampersand"
  | .pipe => "Pipe"
  | .caret => "Caret"
  | .bang => "Bang"
  | .tilde => "Tilde"
  | .logicalAnd => "LogicalAnd"
  | .logicalOr => "LogicalOr"
  | .nullishCoalescing => "NullishCoalescing"
  | .question => "Question"
  | .optionalChain => "OptionalChain"
  | .colon => "Colon"
  | .assign => "Assign"
  | .plusAssign => "PlusAssign"
  | .minusAssign => "MinusAssign"
  | .starAssign => "StarAssign"
  | .percentAssign => "PercentAssign"
  | .exponentAssign => "ExponentAssign"
  | .leftShiftAssign => "LeftShiftAssign"
  | .rightShiftAssign => "RightShiftAssign"
  | .unsignedRightShiftAssign => "UnsignedRightShiftAssign"
  | .ampersandAssign => "AmpersandAssign"
  | .pipeAssign => "PipeAssign"
  | .caretAssign => "CaretAssign"
  | .logicalAndAssign => "LogicalAndAssign"
  | .logicalOrAssign => "LogicalOrAssign"
  | .nullishAssign => "NullishAssign"
  | .arrow => "Arrow"
  | .slash => "Slash"
  | .slashAssign => "SlashAssign"

/-- All punctuators, longer spellings first, so that the first one that fits is the longest. -/
def byLength : List Punctuator :=
  [.unsignedRightShiftAssign, .ellipsis, .strictEqual, .strictNotEqual, .exponentAssign,
   .leftShiftAssign, .rightShiftAssign, .unsignedRightShift, .logicalAndAssign, .logicalOrAssign,
   .nullishAssign, .arrow, .equal, .notEqual, .lessThanEqual, .greaterThanEqual, .exponent,
   .increment, .decrement, .leftShift, .rightShift, .logicalAnd, .logicalOr, .nullishCoalescing,
   .optionalChain, .plusAssign, .minusAssign, .starAssign, .percentAssign, .ampersandAssign,
   .pipeAssign, .caretAssign, .slashAssign, .leftBrace, .rightBrace, .leftParen, .rightParen,
   .leftBracket, .rightBracket, .dot, .semicolon, .comma, .lessThan, .greaterThan, .plus, .minus,
   .star, .percent, .ampersand, .pipe, .caret, .bang, .tilde, .question, .colon, .assign, .slash]

end Punctuator

end Ecma
