import Ecma.Literal.StringLiteral
import Ecma.Token.Lexer

/-! Syntax errors: their causes and messages. -/

namespace Ecma

/-- Why a source text is not a script. -/
inductive SyntaxErrorKind where
  | unexpectedToken (shown : String)
  | unexpectedEnd
  | constWithoutInitializer
  | tryWithoutCatchOrFinally
  | unaryBeforeExponentiation
  | invalidAssignmentTarget
  | invalidUpdateTarget (first : Bool)
  | illegalBreak
  | illegalContinue
  | undefinedLabel (label : String)
  | duplicateLabel (label : String)
  | illegalReturn
  | newlineAfterThrow
  | duplicateDeclaration (declared : String)
  | lexicalInSingleStatement
  | multipleDefaults
  | unexpectedSuper
  | duplicateConstructor
  | constructorAccessor
  | staticPrototype
  | privateConstructor
  | getterArity
  | setterArity
  | letInLexicalBinding
  | undeclaredPrivateName (used : String)
  | duplicatePrivateName (declared : String)
  | strictEvalOrArguments
  | strictReservedWord
  | strictDelete
  | privateDelete
  | strictOctalLiteral
  | duplicateParameter
  | literal (e : LiteralError)
  | lex (e : LexErrorKind)
  | unsupported (construct : String)
deriving Repr, DecidableEq, Inhabited

namespace SyntaxErrorKind

/-- The message of an error. -/
def message : SyntaxErrorKind → String
  | .unexpectedToken shown => "Unexpected token '" ++ shown ++ "'"
  | .unexpectedEnd => "Unexpected end of input"
  | .constWithoutInitializer => "Missing initializer in const declaration"
  | .tryWithoutCatchOrFinally => "Missing catch or finally after try"
  | .unaryBeforeExponentiation =>
    "Unary operator used immediately before exponentiation expression. " ++
      "Parenthesis must be used to disambiguate operator precedence"
  | .invalidAssignmentTarget => "Invalid left-hand side in assignment"
  | .invalidUpdateTarget first =>
    "Invalid left-hand side expression in " ++ (if first then "prefix" else "postfix") ++
      " operation"
  | .illegalBreak => "Illegal break statement"
  | .illegalContinue => "Illegal continue statement: no surrounding iteration statement"
  | .undefinedLabel label => "Undefined label '" ++ label ++ "'"
  | .duplicateLabel label => "Label '" ++ label ++ "' has already been declared"
  | .illegalReturn => "Illegal return statement"
  | .newlineAfterThrow => "Illegal newline after throw"
  | .duplicateDeclaration declared => "Identifier '" ++ declared ++ "' has already been declared"
  | .lexicalInSingleStatement => "Lexical declaration cannot appear in a single-statement context"
  | .multipleDefaults => "More than one default clause in switch statement"
  | .unexpectedSuper => "'super' keyword unexpected here"
  | .duplicateConstructor => "A class may only have one constructor"
  | .constructorAccessor => "Class constructor may not be an accessor"
  | .staticPrototype => "Classes may not have a static property named 'prototype'"
  | .privateConstructor => "Classes may not have a private field named '#constructor'"
  | .getterArity => "Getter must not have any formal parameters."
  | .setterArity => "Setter must have exactly one formal parameter."
  | .letInLexicalBinding => "let is disallowed as a lexically bound name"
  | .undeclaredPrivateName used =>
    "Private field '#" ++ used ++ "' must be declared in an enclosing class"
  | .duplicatePrivateName declared => "Identifier '#" ++ declared ++ "' has already been declared"
  | .strictEvalOrArguments => "Unexpected eval or arguments in strict mode"
  | .strictReservedWord => "Unexpected strict mode reserved word"
  | .strictDelete => "Delete of an unqualified identifier in strict mode."
  | .privateDelete => "Private fields can not be deleted"
  | .strictOctalLiteral => "Octal literals are not allowed in strict mode."
  | .duplicateParameter => "Duplicate parameter name not allowed in this context"
  | .literal e => e.message
  | .lex e => e.message
  | .unsupported construct => construct ++ " are not supported"

end SyntaxErrorKind

/-- A syntax error and where it was found. -/
structure SyntaxError where
  kind : SyntaxErrorKind
  location : Location
deriving Repr, DecidableEq, Inhabited

namespace SyntaxError

/-- The message of a thrown error object. -/
def message (e : SyntaxError) : String :=
  e.kind.message

/-- The message with the name of the error and its position. -/
def report (e : SyntaxError) : String :=
  "SyntaxError: " ++ e.message ++ " (" ++ e.location.text ++ ")"

/-- A lexical error as a syntax error. -/
def ofLexError (e : LexError) : SyntaxError :=
  ⟨.lex e.kind, e.location⟩

end SyntaxError

end Ecma
