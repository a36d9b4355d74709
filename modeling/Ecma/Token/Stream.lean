import Ecma.Token.Lexer

/-! A reading position in a token sequence. Line terminators stay in the sequence, but looking
ahead and moving on pass over them. -/

namespace Ecma

/-- The tokens still to come, line terminators included, with the end of the source text and the
byte offset after the last significant token that was taken. -/
structure TokenStream where
  rest : List Token
  finish : Location
  previousEnd : Nat
  /-- The number of tokens in the whole sequence. -/
  size : Nat
deriving Repr, DecidableEq, Inhabited

namespace TokenStream

/-- The stream at the start of a source text that lexes. -/
def ofString (source : String) : Except LexError TokenStream :=
  let lexed := Lexed.ofString source
  match lexed.error with
  | some e => .error e
  | none => .ok ⟨lexed.tokens, lexed.finish, 0, lexed.tokens.length⟩

/-- The next significant token and the tokens after it. -/
def firstSignificant : List Token → Option (Token × List Token)
  | [] => none
  | t :: rest => if t.isSignificant then some (t, rest) else firstSignificant rest

/-- The next significant token. -/
def peek? (s : TokenStream) : Option Token :=
  (firstSignificant s.rest).map Prod.fst

/-- The significant token after `n` others. -/
def nthSignificant : List Token → (n : Nat) → Option Token
  | [], _ => none
  | t :: rest, n =>
    if t.isSignificant then
      match n with
      | 0 => some t
      | n + 1 => nthSignificant rest n
    else nthSignificant rest n

/-- The significant token `n` places after the next one. -/
def peekNth? (s : TokenStream) (n : Nat) : Option Token :=
  nthSignificant s.rest n

/-- The category of the next significant token. -/
def peekKind? (s : TokenStream) : Option TokenKind :=
  s.peek?.map Token.kind

/-- The next significant token has the given category. -/
def check (s : TokenStream) (kind : TokenKind) : Bool :=
  s.peekKind? == some kind

/-- Takes the next significant token. -/
def next? (s : TokenStream) : Option (Token × TokenStream) :=
  (firstSignificant s.rest).map fun (t, rest) =>
    (t, { s with rest, previousEnd := t.endOffset })

/-- Takes the next significant token if it has the given category. -/
def eat? (s : TokenStream) (kind : TokenKind) : Option TokenStream :=
  if s.check kind then s.next?.map Prod.snd else none

/-- A line terminator stands before the next significant token. -/
def lineTerminatorBefore (s : TokenStream) : Bool :=
  match s.rest with
  | t :: _ => t.kind == .lineTerminator
  | [] => false

/-- No significant token is left. -/
def isAtEnd (s : TokenStream) : Bool :=
  s.peek?.isNone

/-- The number of significant tokens that are left. -/
def remaining (s : TokenStream) : Nat :=
  s.rest.countP Token.isSignificant

/-- Where the next significant token starts, or the end of the source text. -/
def location (s : TokenStream) : Location :=
  match s.peek? with
  | some t => t.location
  | none => s.finish

end TokenStream

end Ecma
