/-! Reserved words of the language. -/

namespace Ecma

/-- The keywords. -/
inductive Keyword where
  | breakKw
  | caseKw
  | catchKw
  | classKw
  | constKw
  | continueKw
  | debuggerKw
  | defaultKw
  | deleteKw
  | doKw
  | elseKw
  | enumKw
  | exportKw
  | extendsKw
  | finallyKw
  | forKw
  | functionKw
  | ifKw
  | importKw
  | inKw
  | instanceofKw
  | letKw
  | newKw
  | returnKw
  | superKw
  | switchKw
  | thisKw
  | throwKw
  | tryKw
  | typeofKw
  | varKw
  | voidKw
  | whileKw
  | withKw
deriving Repr, DecidableEq, Inhabited

namespace Keyword

/-- The spelling in source text. -/
def text : Keyword → String
  | .breakKw => "break"
  | .caseKw => "case"
  | .catchKw => "catch"
  | .classKw => "class"
  | .constKw => "const"
  | .continueKw => "continue"
  | .debuggerKw => "debugger"
  | .defaultKw => "default"
  | .deleteKw => "delete"
  | .doKw => "do"
  | .elseKw => "else"
  | .enumKw => "enum"
  | .exportKw => "export"
  | .extendsKw => "extends"
  | .finallyKw => "finally"
  | .forKw => "for"
  | .functionKw => "function"
  | .ifKw => "if"
  | .importKw => "import"
  | .inKw => "in"
  | .instanceofKw => "instanceof"
  | .letKw => "let"
  | .newKw => "new"
  | .returnKw => "return"
  | .superKw => "super"
  | .switchKw => "switch"
  | .thisKw => "this"
  | .throwKw => "throw"
  | .tryKw => "try"
  | .typeofKw => "typeof"
  | .varKw => "var"
  | .voidKw => "void"
  | .whileKw => "while"
  | .withKw => "with"

/-- The name in token listings: the spelling with a capital letter. -/
def name (k : Keyword) : String :=
  k.text.capitalize

/-- All keywords. -/
def all : List Keyword :=
  [.breakKw, .caseKw, .catchKw, .classKw, .constKw, .continueKw, .debuggerKw, .defaultKw,
   .deleteKw, .doKw, .elseKw, .enumKw, .exportKw, .extendsKw, .finallyKw, .forKw, .functionKw,
   .ifKw, .importKw, .inKw, .instanceofKw, .letKw, .newKw, .returnKw, .superKw, .switchKw,
   .thisKw, .throwKw, .tryKw, .typeofKw, .varKw, .voidKw, .whileKw, .withKw]

/-- The keyword with a spelling. -/
def ofText? (word : String) : Option Keyword :=
  all.find? fun k => k.text == word

end Keyword

/-- The words that are reserved in strict code only. -/
def isStrictReservedWord (word : String) : Bool :=
  ["implements", "interface", "package", "private", "protected", "public", "static",
    "yield"].contains word

end Ecma
