import Ecma.Ast.Basic

/-! The names that statements declare: lexical names belong to the statement list that declares
them, `var` names to the whole function or script. -/

namespace Ecma

namespace Stmt

/-- The declared names in order, repeats included. -/
def declaratorNames (declarators : List Declarator) : List String :=
  declarators.map Declarator.name

/-- The names that a declaration binds in its statement list. -/
def boundNames : Stmt → List String
  | .variables kind declarators => if kind = .var then [] else declaratorNames declarators
  | .function f => f.name.toList
  | .classDecl c => c.name.toList
  | _ => []

/-- The names that the declarations directly in a statement list bind, in order. -/
def declaredNames (body : List Stmt) : List String :=
  body.flatMap boundNames

/-- The functions declared directly in a statement list. -/
def functionsOf (body : List Stmt) : List FunctionDef :=
  body.filterMap fun
    | .function f => some f
    | _ => none

/-- The names that a `let`, `const` or `class` declaration binds. -/
def lexicalNames : Stmt → List String
  | .function _ => []
  | s => s.boundNames

/-- The names that `let`, `const` and `class` bind directly in a statement list. -/
def lexicalNamesOf (body : List Stmt) : List String :=
  body.flatMap lexicalNames

/-- The names that a `let`, `const` or `class` declaration binds, and how; a class is bound as by
`let`. -/
def lexicalBindings : Stmt → List (String × VarKind)
  | .variables .var _ => []
  | .variables kind declarators => declarators.map fun d => (d.name, kind)
  | .classDecl c => c.name.toList.map fun name => (name, .letVar)
  | _ => []

/-- The names that `let`, `const` and `class` bind directly in a statement list, and how. -/
def lexicalBindingsOf (body : List Stmt) : List (String × VarKind) :=
  body.flatMap lexicalBindings

end Stmt

/-- The names declared with `var` in the head of a loop. -/
def ForInit.varNames : ForInit → List String
  | .variables .var declarators => Stmt.declaratorNames declarators
  | _ => []

mutual

/-- The names declared with `var` in a statement at any depth outside functions, in source order,
repeats included. -/
def Stmt.varNames : Stmt → List String
  | .block body => Stmt.varNamesOf body
  | .variables kind declarators => if kind = .var then Stmt.declaratorNames declarators else []
  | .ifThen _ yes => yes.varNames
  | .ifElse _ yes no => yes.varNames ++ no.varNames
  | .whileLoop _ body => body.varNames
  | .doLoop body _ => body.varNames
  | .forLoop init _ _ body => init.varNames ++ body.varNames
  | .tryCatch block _ handler => Stmt.varNamesOf block ++ Stmt.varNamesOf handler
  | .tryFinally block finalizer => Stmt.varNamesOf block ++ Stmt.varNamesOf finalizer
  | .tryCatchFinally block _ handler finalizer =>
    Stmt.varNamesOf block ++ Stmt.varNamesOf handler ++ Stmt.varNamesOf finalizer
  | .switch _ cases => Stmt.varNamesOfCases cases
  | .labeled _ body => body.varNames
  | _ => []

/-- The names declared with `var` in a statement list. -/
def Stmt.varNamesOf : List Stmt → List String
  | [] => []
  | s :: rest => s.varNames ++ Stmt.varNamesOf rest

/-- The names declared with `var` in the clauses of a `switch` statement. -/
def Stmt.varNamesOfCases : List SwitchCase → List String
  | [] => []
  | c :: rest => c.varNames ++ Stmt.varNamesOfCases rest

/-- The names declared with `var` in a clause. -/
def SwitchCase.varNames : SwitchCase → List String
  | ⟨_, body⟩ => Stmt.varNamesOf body

end

/-- A name is put at the end of a list, unless it is there. -/
def addName (names : List String) (name : String) : List String :=
  if names.contains name then names else names ++ [name]

/-- The names of a list, each once, in order of first occurrence. -/
def distinctNames (names : List String) : List String :=
  names.foldl addName []

end Ecma
