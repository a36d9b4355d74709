import Ecma.Grammar.Statement

/-! Expressions of operators printed with as few parentheses as the precedence of the operators
allows. -/

namespace Ecma

/-- What a token shows: its category and its spelling. -/
abbrev Lexeme := TokenKind × String

namespace Lexeme

def punct (p : Punctuator) : Lexeme :=
  (.punctuator p, p.text)

def word (text : String) : Lexeme :=
  (Scan.wordKind text, text)

end Lexeme

open Lexeme

/-! ### Levels -/

/-! The levels of expressions, loosest first; the levels from `bitwiseOr` to `multiplicative` are
those of `Grammar.binaryLevels`. -/

namespace Level

@[match_pattern, simp] abbrev assignment : Nat := 1
@[match_pattern, simp] abbrev conditional : Nat := 2
@[match_pattern, simp] abbrev logicalOr : Nat := 3
@[match_pattern, simp] abbrev logicalAnd : Nat := 4
@[match_pattern, simp] abbrev bitwiseOr : Nat := 5
@[match_pattern, simp] abbrev bitwiseXor : Nat := 6
@[match_pattern, simp] abbrev bitwiseAnd : Nat := 7
@[match_pattern, simp] abbrev equality : Nat := 8
@[match_pattern, simp] abbrev relational : Nat := 9
@[match_pattern, simp] abbrev shift : Nat := 10
@[match_pattern, simp] abbrev additive : Nat := 11
@[match_pattern, simp] abbrev multiplicative : Nat := 12
@[match_pattern, simp] abbrev exponentiation : Nat := 13
@[match_pattern, simp] abbrev unary : Nat := 14
@[match_pattern, simp] abbrev update : Nat := 15
@[match_pattern, simp] abbrev call : Nat := 16
@[match_pattern, simp] abbrev member : Nat := 17
@[match_pattern, simp] abbrev primary : Nat := 18

end Level

def UnaryOp.lexeme : UnaryOp → Lexeme
  | .minus => punct .minus
  | .plus => punct .plus
  | .not => punct .bang
  | .bitNot => punct .tilde

def UpdateOp.lexeme : UpdateOp → Lexeme
  | .increment => punct .increment
  | .decrement => punct .decrement

def BinaryOp.lexeme : BinaryOp → Lexeme
  | .add => punct .plus
  | .sub => punct .minus
  | .mul => punct .star
  | .div => punct .slash
  | .mod => punct .percent
  | .exp => punct .exponent
  | .eq => punct .equal
  | .notEq => punct .notEqual
  | .strictEq => punct .strictEqual
  | .strictNotEq => punct .strictNotEqual
  | .lt => punct .lessThan
  | .gt => punct .greaterThan
  | .ltEq => punct .lessThanEqual
  | .gtEq => punct .greaterThanEqual
  | .lShift => punct .leftShift
  | .rShift => punct .rightShift
  | .uRShift => punct .unsignedRightShift
  | .bitAnd => punct .ampersand
  | .bitOr => punct .pipe
  | .bitXor => punct .caret
  | .inside => word "in"
  | .instanceOf => word "instanceof"

def LogicalOp.lexeme : LogicalOp → Lexeme
  | .and => punct .logicalAnd
  | .or => punct .logicalOr

def AssignOp.lexeme : AssignOp → Lexeme
  | .assign => punct .assign
  | .addAssign => punct .plusAssign
  | .subAssign => punct .minusAssign
  | .mulAssign => punct .starAssign
  | .divAssign => punct .slashAssign
  | .modAssign => punct .percentAssign
  | .expAssign => punct .exponentAssign
  | .lShiftAssign => punct .leftShiftAssign
  | .rShiftAssign => punct .rightShiftAssign
  | .uRShiftAssign => punct .unsignedRightShiftAssign
  | .bitAndAssign => punct .ampersandAssign
  | .bitOrAssign => punct .pipeAssign
  | .bitXorAssign => punct .caretAssign
  | .logicalAndAssign => punct .logicalAndAssign
  | .logicalOrAssign => punct .logicalOrAssign

def BinaryOp.level : BinaryOp → Nat
  | .bitOr => Level.bitwiseOr
  | .bitXor => Level.bitwiseXor
  | .bitAnd => Level.bitwiseAnd
  | .eq | .notEq | .strictEq | .strictNotEq => Level.equality
  | .lt | .gt | .ltEq | .gtEq | .inside | .instanceOf => Level.relational
  | .lShift | .rShift | .uRShift => Level.shift
  | .add | .sub => Level.additive
  | .mul | .div | .mod => Level.multiplicative
  | .exp => Level.exponentiation

def LogicalOp.level : LogicalOp → Nat
  | .or => Level.logicalOr
  | .and => Level.logicalAnd

/-- The level of an expression by its outermost operator. A property access of a call is itself as
loose as a call, since it cannot be the callee of `new`. -/
def Expr.level : Expr → Nat
  | .assign .. => Level.assignment
  | .conditional .. => Level.conditional
  | .logical op .. => op.level
  | .binary op .. => op.level
  | .unary .. | .typeOf _ | .voidOf _ | .delete _ => Level.unary
  | .update .. => Level.update
  | .call .. | .superCall _ => Level.call
  | .member owner _ => if owner.level = Level.call then Level.call else Level.member
  | .construct .. | .superMember _ => Level.member
  | _ => Level.primary

/-! ### Printing -/

/-- A printed expression, and whether parentheses that it needs are left out. -/
structure Printout where
  lexemes : List Lexeme
  lacking : Bool

namespace Printout

instance : Append Printout :=
  ⟨fun p q => ⟨p.lexemes ++ q.lexemes, p.lacking || q.lacking⟩⟩

/-- A lexeme. -/
@[coe] def one (x : Lexeme) : Printout :=
  ⟨[x], false⟩

instance : Coe Lexeme Printout :=
  ⟨one⟩

/-- In parentheses. -/
def enclosed (p : Printout) : Printout :=
  punct .leftParen ++ p ++ punct .rightParen

/-- An expression of a level where one of another level is needed. -/
def fit (p : Printout) (level needed : Nat) : Printout :=
  if level < needed then p.enclosed else p

/-- The base of a power. The parentheses of an operator with one operand may be left out by
mistake. -/
def base (p : Printout) (level : Nat) (mistaken : Bool) : Printout :=
  if level = Level.unary ∧ mistaken then ⟨p.lexemes, true⟩ else p.fit level Level.update

end Printout

/-- The choice for the subtree `i` of a node. -/
def within (mistakes : List Nat → Bool) (i : Nat) : List Nat → Bool :=
  fun path => mistakes (i :: path)

mutual

/-- Prints an expression with parentheses only where an operand is looser than its place needs.
`mistakes` are the paths to the powers that lose the parentheses of their base. -/
def Expr.print (mistakes : List Nat → Bool) : Expr → Printout
  | .identifier name => word name
  | .unary op e => op.lexeme ++ (e.print (within mistakes 0)).fit e.level Level.unary
  | .typeOf e => word "typeof" ++ (e.print (within mistakes 0)).fit e.level Level.unary
  | .voidOf e => word "void" ++ (e.print (within mistakes 0)).fit e.level Level.unary
  | .update op true e => op.lexeme ++ (e.print (within mistakes 0)).fit e.level Level.unary
  | .update op false e => (e.print (within mistakes 0)).fit e.level Level.call ++ op.lexeme
  | .binary .exp left right =>
    (left.print (within mistakes 0)).base left.level (mistakes []) ++ BinaryOp.exp.lexeme ++
      (right.print (within mistakes 1)).fit right.level Level.exponentiation
  | .binary op left right =>
    (left.print (within mistakes 0)).fit left.level op.level ++ op.lexeme ++
      (right.print (within mistakes 1)).fit right.level (op.level + 1)
  | .logical op left right =>
    (left.print (within mistakes 0)).fit left.level op.level ++ op.lexeme ++
      (right.print (within mistakes 1)).fit right.level (op.level + 1)
  | .conditional test yes no =>
    (test.print (within mistakes 0)).fit test.level Level.logicalOr ++ punct .question ++
      (yes.print (within mistakes 1)).fit yes.level Level.assignment ++ punct .colon ++
      (no.print (within mistakes 2)).fit no.level Level.assignment
  | .assign op target value =>
    (target.print (within mistakes 0)).fit target.level Level.call ++ op.lexeme ++
      (value.print (within mistakes 1)).fit value.level Level.assignment
  | .call callee args =>
    (callee.print (within mistakes 0)).fit callee.level Level.call ++ punct .leftParen ++
      Expr.printAll mistakes 1 args
  | .construct callee args =>
    word "new" ++ (callee.print (within mistakes 0)).fit callee.level Level.member ++
      punct .leftParen ++ Expr.printAll mistakes 1 args
  | .member owner key =>
    (owner.print (within mistakes 0)).fit owner.level Level.call ++ key.print (within mistakes 1)
  | _ => ⟨[], false⟩

def MemberKey.print (mistakes : List Nat → Bool) : MemberKey → Printout
  | .dot name => punct .dot ++ (word name : Printout)
  | .computed e => punct .leftBracket ++ (e.print (within mistakes 0)).fit e.level Level.assignment ++
      punct .rightBracket
  | .privateName _ => ⟨[], false⟩

/-- Arguments from the one with index `i` on, with the closing parenthesis. -/
def Expr.printAll (mistakes : List Nat → Bool) (i : Nat) : List Expr → Printout
  | [] => punct .rightParen
  | [e] => (e.print (within mistakes i)).fit e.level Level.assignment ++ punct .rightParen
  | e :: rest => (e.print (within mistakes i)).fit e.level Level.assignment ++ punct .comma ++
      Expr.printAll mistakes (i + 1) rest

end

/-- The printed text, with a space between lexemes. -/
def Printout.text (p : Printout) : String :=
  " ".intercalate (p.lexemes.map Prod.snd)

/-! ### Expressions of operators -/

/-- A word is spelled with the characters of identifiers. -/
def isWord [XidTable] (text : String) : Bool :=
  match text.toList with
  | [] => false
  | first :: rest => isIdentifierStart first && rest.all isIdentifierContinue

/-- What operators assign to here: a variable or a property. -/
def Expr.isTarget : Expr → Bool
  | .identifier _ | .member .. => true
  | _ => false

/-- Expressions that are built from variables with operators, property accesses, calls and `new`. -/
inductive Expr.Plain : Expr → Prop
  | identifier {name : String} (hword : isWord name = true)
    (hkind : Scan.wordKind name = .identifier) : Plain (.identifier name)
  | unary (op : UnaryOp) {e : Expr} (he : e.Plain) : Plain (.unary op e)
  | typeOf {e : Expr} (he : e.Plain) : Plain (.typeOf e)
  | voidOf {e : Expr} (he : e.Plain) : Plain (.voidOf e)
  | update (op : UpdateOp) (first : Bool) {target : Expr} (htarget : target.isTarget = true)
    (he : target.Plain) : Plain (.update op first target)
  | binary (op : BinaryOp) {left right : Expr} (hl : left.Plain) (hr : right.Plain) :
    Plain (.binary op left right)
  | logical (op : LogicalOp) {left right : Expr} (hl : left.Plain) (hr : right.Plain) :
    Plain (.logical op left right)
  | conditional {test yes no : Expr} (ht : test.Plain) (hy : yes.Plain) (hn : no.Plain) :
    Plain (.conditional test yes no)
  | assign (op : AssignOp) {target value : Expr} (htarget : target.isTarget = true)
    (ht : target.Plain) (hv : value.Plain) : Plain (.assign op target value)
  | call {callee : Expr} {args : List Expr} (hc : callee.Plain) (ha : ∀ e ∈ args, e.Plain) :
    Plain (.call callee args)
  | construct {callee : Expr} {args : List Expr} (hc : callee.Plain) (ha : ∀ e ∈ args, e.Plain) :
    Plain (.construct callee args)
  | dot {owner : Expr} {name : String} (ho : owner.Plain) (hword : isWord name = true) :
    Plain (.member owner (.dot name))
  | computed {owner key : Expr} (ho : owner.Plain) (hk : key.Plain) :
    Plain (.member owner (.computed key))

end Ecma
