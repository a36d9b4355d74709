import Ecma.Source.Cursor
import Ecma.Token.Basic

/-! Splitting source text into tokens. White space and comments are dropped, line terminators are
kept as tokens, and the first error ends the scan. -/

namespace Ecma

/-- What is wrong with a piece of source text. -/
inductive LexErrorKind where
  | unexpectedCharacter (c : Char)
  | unterminatedString
  | unterminatedComment
  | invalidNumber
  | invalidSeparator
  | templateLiteral
  | identifierEscape
deriving Repr, DecidableEq, Inhabited

namespace LexErrorKind

/-- The message of an error. -/
def message : LexErrorKind → String
  | .unexpectedCharacter c => "Invalid or unexpected token '" ++ c.toString ++ "'"
  | .unterminatedString => "Invalid or unexpected token"
  | .unterminatedComment => "Unterminated comment"
  | .invalidNumber => "Invalid or unexpected token"
  | .invalidSeparator => "Numeric separators are not allowed here"
  | .templateLiteral => "Template literals are not supported"
  | .identifierEscape => "Unicode escapes in identifiers are not supported"

end LexErrorKind

/-- A lexical error and where it was found. -/
structure LexError where
  kind : LexErrorKind
  location : Location
deriving Repr, DecidableEq, Inhabited

namespace LexError

/-- The message with its position. -/
def message (e : LexError) : String :=
  e.kind.message ++ " (" ++ e.location.text ++ ")"

end LexError

/-- A scan: it moves the cursor and may fail, and then the cursor stays where it had reached. -/
abbrev Scan := EStateM LexError Cursor

namespace Scan

/-- Fails at the cursor. -/
def fail {α : Type} (kind : LexErrorKind) : Scan α := do
  throw ⟨kind, (← get).location⟩

/-- Moves past `n` characters. -/
def skip (n : Nat) : Scan Unit :=
  modify fun c => c.advanceBy n

/-- Moves past the run of characters of a class, and gives the run. -/
def take (p : Char → Bool) : Scan (List Char) := do
  let c ← get
  let run := c.span p
  skip run.length
  return run

/-- Moves past one character if it is the given one. -/
def eat (ch : Char) : Scan Bool := do
  if (← get).peek? == some ch then
    skip 1
    return true
  else return false

/-- The length of a string literal after its opening quote, and whether its closing quote was
found. A line break must be escaped, and an escaped CR LF is one escape. -/
def stringLength (quote : Char) : List Char → Nat × Bool
  | [] => (0, false)
  | ['\\'] => (1, false)
  | '\\' :: '\r' :: '\n' :: rest =>
    let (n, closed) := stringLength quote rest
    (n + 3, closed)
  | '\\' :: _ :: rest =>
    let (n, closed) := stringLength quote rest
    (n + 2, closed)
  | ch :: rest =>
    if ch = '\n' ∨ ch = '\r' then (0, false)
    else if ch = quote then (1, true)
    else
      let (n, closed) := stringLength quote rest
      (n + 1, closed)

/-- A string literal from its opening quote on. -/
def stringLiteral (quote : Char) : Scan TokenKind := do
  skip 1
  let (n, closed) := stringLength quote (← get).rest
  skip n
  if closed then return .stringLiteral else fail .unterminatedString

/-- Two underscores stand next to each other. -/
def hasDoubleSeparator : List Char → Bool
  | '_' :: '_' :: _ => true
  | _ :: rest => hasDoubleSeparator rest
  | [] => false

/-- A run of digits is not empty, and an underscore stands only between two digits. -/
def checkSeparators (digits : List Char) : Scan Unit := do
  if digits.isEmpty then fail .invalidNumber
  else if digits.head? == some '_' || digits.getLast? == some '_' || hasDoubleSeparator digits then
    fail .invalidSeparator

/-- A decimal digit or a separator. -/
def isDigitOrSeparator (c : Char) : Bool :=
  c.isDigit || c == '_'

/-- A literal with a radix mark. -/
def radixLiteral (radix : Nat) : Scan TokenKind := do
  skip 2
  let digits ← take fun c => isDigitIn radix c || c == '_'
  checkSeparators digits
  if ← eat 'n' then return .bigIntLiteral else return .numericLiteral

/-- The fraction of a decimal literal, if there is one. -/
def fractionPart : Scan Bool := do
  if ← eat '.' then
    let fraction ← take isDigitOrSeparator
    if !fraction.isEmpty then checkSeparators fraction
    return true
  else return false

/-- Digits with an optional sign. -/
def signedDigits : Scan Unit := do
  if !(← eat '+') then
    let _ ← eat '-'
  let digits ← take isDigitOrSeparator
  checkSeparators digits

/-- The exponent of a decimal literal, if there is one. -/
def exponentPart : Scan Bool := do
  match (← get).peek? with
  | some c =>
    if c = 'e' ∨ c = 'E' then
      skip 1
      signedDigits
      return true
    else return false
  | none => return false

/-- The rest of a decimal literal, after the digits before the point. -/
def decimalRest (legacy : Bool) : Scan TokenKind := do
  let fraction ← fractionPart
  let exponent ← exponentPart
  if !fraction && !exponent && !legacy then
    if ← eat 'n' then return .bigIntLiteral
  return .numericLiteral

/-- A literal without a radix mark. A leading zero before another digit makes it a legacy octal
literal if all its digits are below eight, and a decimal one without separators otherwise. -/
def decimalLiteral : Scan TokenKind := do
  let integer ← take isDigitOrSeparator
  let legacy := hasLeadingZero integer
  if legacy && integer.contains '_' then fail .invalidSeparator
  if !integer.isEmpty then checkSeparators integer
  if legacy && integer.all (fun c => c < '8') then return .numericLiteral
  decimalRest legacy

/-- A numeric literal, which no identifier character or digit may follow directly. -/
def numericLiteral [XidTable] : Scan TokenKind := do
  let kind ←
    match splitRadix? (← get).rest with
    | some (radix, _) => radixLiteral radix
    | none => decimalLiteral
  if (← get).peek?.any fun c => isIdentifierStart c || c.isDigit then fail .invalidNumber
  return kind

/-- The category of an identifier-like word. -/
def wordKind (word : String) : TokenKind :=
  if word == "true" || word == "false" then .booleanLiteral
  else if word == "null" then .nullLiteral
  else
    match Keyword.ofText? word with
    | some k => .keyword k
    | none => .identifier

/-- An identifier, a reserved word, or a literal that is spelled as a word. -/
def word [XidTable] : Scan TokenKind := do
  let text ← take isIdentifierContinue
  if (← get).peek? == some '\\' then fail .identifierEscape
  return wordKind (String.ofList text)

/-- The longest punctuator that comes next; a question mark before a point and a digit stands
alone. -/
def punctuator (ch : Char) : Scan TokenKind := do
  let c ← get
  if c.startsWith ['?', '.'] && (c.peekNth? 2).any Char.isDigit then
    skip 1
    return .punctuator .question
  match Punctuator.byLength.find? fun p => c.startsWith p.text.toList with
  | some p =>
    skip p.text.length
    return .punctuator p
  | none => fail (.unexpectedCharacter ch)

/-- The length of a block comment after its opening mark, and whether its end was found. -/
def commentLength : List Char → Nat × Bool
  | [] => (0, false)
  | '*' :: '/' :: _ => (2, true)
  | _ :: rest =>
    let (n, closed) := commentLength rest
    (n + 1, closed)

/-- The length of the line break at the head of a text. -/
def breakLength : List Char → Nat
  | '\r' :: '\n' :: _ => 2
  | _ => 1

/-- The token that covers the text from `start` to the cursor. -/
def tokenFrom (start : Cursor) (kind : TokenKind) (c : Cursor) : Token :=
  ⟨kind, String.ofList (c.sliceFrom start.location.offset), start.location⟩

/-- The token of the line break at a cursor. -/
def lineBreakAt (c : Cursor) : Token :=
  tokenFrom c .lineTerminator (c.advanceBy (breakLength c.rest))

/-- Skips a block comment. One that spans lines counts as the first line break in it. -/
def blockComment : Scan (Option Token) := do
  let opened ← get
  let body := opened.advanceBy 2
  let (n, closed) := commentLength body.rest
  set (body.advanceBy n)
  if !closed then throw ⟨.unterminatedComment, opened.location⟩
  match (body.rest.take n).findIdx? isLineTerminator with
  | some i => return some (lineBreakAt (body.advanceBy i))
  | none => return none

/-- Skips the rest of a line. -/
def lineComment : Scan Unit := do
  let _ ← take fun c => !isLineTerminator c

/-- A token that is neither a line break nor dropped, by its first character. -/
def significant [XidTable] (ch : Char) : Scan TokenKind := do
  let next := (← get).peekNth? 1
  if ch = '\'' ∨ ch = '"' then stringLiteral ch
  else if ch.isDigit then numericLiteral
  else if ch = '.' ∧ next.any Char.isDigit then numericLiteral
  else if ch = '#' ∧ next.any isIdentifierStart then
    skip 1
    let _ ← take isIdentifierContinue
    return .privateName
  else if ch = '\x60' then fail .templateLiteral
  else if isIdentifierStart ch then word
  else punctuator ch

/-- What one step of a scan gives. -/
inductive Step where
  | atEnd
  | dropped
  | found (t : Token)

/-- Scans one segment: white space, a comment, or a token. -/
def step [XidTable] : Scan Step := do
  let c ← get
  match c.peek? with
  | none => return .atEnd
  | some ch =>
    if isWhitespace ch then
      let _ ← take isWhitespace
      return .dropped
    else if isLineTerminator ch then
      let t := lineBreakAt c
      skip (breakLength c.rest)
      return .found t
    else if c.startsWith ['/', '/'] then
      lineComment
      return .dropped
    else if c.startsWith ['/', '*'] then
      match ← blockComment with
      | some t => return .found t
      | none => return .dropped
    else if c.location.offset = 0 ∧ c.startsWith ['#', '!'] then
      lineComment
      return .dropped
    else
      let kind ← significant ch
      return .found (tokenFrom c kind (← get))

end Scan

/-- The tokens of a source text up to the first error, where the scan ended, and the error. -/
structure Lexed where
  tokens : List Token
  finish : Location
  error : Option LexError
deriving Repr, DecidableEq, Inhabited

namespace Lexed

/-- Scans segments one after the other; `tokens` holds those found so far, last one first. Every
segment has at least one character, so a fuel above the length of the text never runs out. -/
def scan [XidTable] (c : Cursor) (tokens : List Token) : (fuel : Nat) → Lexed
  | 0 => ⟨tokens.reverse, c.location, none⟩
  | fuel + 1 =>
    match Scan.step c with
    | .ok .atEnd c' => ⟨tokens.reverse, c'.location, none⟩
    | .ok .dropped c' => scan c' tokens fuel
    | .ok (.found t) c' => scan c' (t :: tokens) fuel
    | .error e c' => ⟨tokens.reverse, c'.location, some e⟩

/-- The tokens of a source text. -/
def ofString [XidTable] (source : String) : Lexed :=
  let c := Cursor.ofString source
  scan c [] (c.rest.length + 1)

end Lexed

end Ecma
