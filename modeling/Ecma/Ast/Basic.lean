import Ecma.Ast.Operator
import Ecma.Number.Exact
import Ecma.Text.Units

/-! Syntax trees of scripts. -/

namespace Ecma

/-- A literal value. -/
inductive Literal where
  | null
  | boolean (b : Bool)
  | number (x : Number)
  | string (s : Units)
  | bigInt (i : Int)
deriving Inhabited

mutual

/-- Expressions. -/
inductive Expr where
  | literal (l : Literal)
  | identifier (name : String)
  | thisValue
  | object (properties : List PropertyDef)
  | function (f : FunctionDef)
  | classExpr (c : ClassDef)
  | unary (op : UnaryOp) (e : Expr)
  | binary (op : BinaryOp) (left right : Expr)
  | logical (op : LogicalOp) (left right : Expr)
  /-- The flag `first` tells `++x` from `x++`. -/
  | update (op : UpdateOp) (first : Bool) (target : Expr)
  | assign (op : AssignOp) (target value : Expr)
  | conditional (test yes no : Expr)
  | call (callee : Expr) (args : List Expr)
  | superCall (args : List Expr)
  | construct (callee : Expr) (args : List Expr)
  | member (object : Expr) (key : MemberKey)
  | superMember (key : MemberKey)
  | typeOf (e : Expr)
  | voidOf (e : Expr)
  | delete (e : Expr)

/-- What follows the object of a property access. -/
inductive MemberKey where
  | dot (name : String)
  | computed (e : Expr)
  | privateName (name : String)

/-- The name of a property in a literal or a class. -/
inductive PropertyName where
  | identifier (name : String)
  | string (s : Units)
  | number (x : Number)
  | computed (e : Expr)

/-- A property of an object literal. -/
inductive PropertyDef where
  | init (key : PropertyName) (value : Expr)
  | method (key : PropertyName) (f : FunctionDef)
  | getter (key : PropertyName) (f : FunctionDef)
  | setter (key : PropertyName) (f : FunctionDef)

/-- A function: `varNames` are the names declared with `var` in its body outside nested functions,
and `source` is the text that it was written as. -/
structure FunctionDef where
  name : Option String
  kind : FunctionKind
  params : List String
  body : List Stmt
  strict : Bool
  varNames : List String
  source : String

/-- A method or accessor of a class, under a property name or a private name. -/
inductive ClassElement where
  | publicElement (key : PropertyName) (kind : MethodKind) (value : FunctionDef) (isStatic : Bool)
  | privateElement (name : String) (kind : MethodKind) (value : FunctionDef) (isStatic : Bool)

/-- A class; the element named `constructor` stands apart. -/
structure ClassDef where
  name : Option String
  heritage : Option Expr
  constructorDef : Option FunctionDef
  elements : List ClassElement
  source : String

/-- One name of a variable declaration. -/
structure Declarator where
  name : String
  init : Option Expr

/-- The first part of a `for` head. -/
inductive ForInit where
  | absent
  | variables (kind : VarKind) (declarators : List Declarator)
  | expression (e : Expr)

/-- A clause of a `switch` statement; the default clause has no test. -/
structure SwitchCase where
  test : Option Expr
  body : List Stmt

/-- Statements and declarations. -/
inductive Stmt where
  | empty
  | expression (e : Expr)
  | block (body : List Stmt)
  | variables (kind : VarKind) (declarators : List Declarator)
  | ifThen (test : Expr) (yes : Stmt)
  | ifElse (test : Expr) (yes no : Stmt)
  | whileLoop (test : Expr) (body : Stmt)
  | doLoop (body : Stmt) (test : Expr)
  | forLoop (init : ForInit) (test update : Option Expr) (body : Stmt)
  | returns (e : Option Expr)
  | breaks (label : Option String)
  | continues (label : Option String)
  | throws (e : Expr)
  | tryCatch (block : List Stmt) (param : Option String) (handler : List Stmt)
  | tryFinally (block : List Stmt) (finalizer : List Stmt)
  | tryCatchFinally (block : List Stmt) (param : Option String) (handler finalizer : List Stmt)
  | switch (subject : Expr) (cases : List SwitchCase)
  | labeled (label : String) (body : Stmt)
  | debugger
  | function (f : FunctionDef)
  | classDecl (c : ClassDef)

end

instance : Inhabited Expr := ⟨.thisValue⟩
instance : Inhabited Stmt := ⟨.empty⟩

/-- A script: `varNames` are the names declared with `var` outside functions. -/
structure Program where
  body : List Stmt
  strict : Bool
  varNames : List String
deriving Inhabited

namespace Expr

/-- A function or class expression without a name of its own, which takes the name of what it is
assigned to. -/
def isAnonymousFunction : Expr → Bool
  | .function f => f.name.isNone
  | .classExpr c => c.name.isNone
  | _ => false

end Expr

end Ecma
