import Ecma.Ast.Basic
import Ecma.Number.Text
import Ecma.Text.Outline
import Ecma.Text.Quoted

/-! Outlines of syntax trees. -/

namespace Ecma

namespace Outline

/-- A text in quotes. -/
def quoted (s : String) : Outline :=
  .atom (Quoted.encode s)

/-- Names in quotes. -/
def names (l : List String) : Outline :=
  .list (l.map quoted)

/-- A string value by its code units. -/
def units (s : Units) : Outline :=
  .record "JsString"
    [.field "code_units" (.list (s.toList.map fun u => .atom (numeral 10 u.toNat)))]

/-- A Number in the layout of dumps. -/
def number (x : Number) : Outline :=
  .atom (NumberLayout.dump.text x)

/-- An optional name in quotes. -/
def optionalName (name : Option String) : Outline :=
  .option (name.map quoted)

end Outline

namespace Literal

def outline : Literal → Outline
  | .null => .atom "Null"
  | .boolean b => .node "Boolean" [.bool b]
  | .number x => .node "Number" [.number x]
  | .string s => .node "String" [.units s]
  | .bigInt i => .node "BigInt" [.atom (IntegerFormat.write 10 i)]

end Literal

mutual

/-- The outline of an expression. -/
def Expr.outline : Expr → Outline
  | .literal l => .node "Literal" [l.outline]
  | .identifier name => .node "Identifier" [.quoted name]
  | .thisValue => .atom "This"
  | .object properties => .node "Object" [.list (PropertyDef.outlines properties)]
  | .function f => .node "Function" [f.outline]
  | .classExpr c => .node "Class" [c.outline]
  | .unary op e => .node "Unary" [.atom op.name, e.outline]
  | .binary op l r => .node "Binary" [.atom op.name, l.outline, r.outline]
  | .logical op l r => .node "Logical" [.atom op.name, l.outline, r.outline]
  | .update op first e => .node "Update" [.atom op.name, .bool first, e.outline]
  | .assign op target value => .node "Assign" [.atom op.name, target.outline, value.outline]
  | .conditional test yes no => .node "Conditional" [test.outline, yes.outline, no.outline]
  | .call f args => .node "Call" [f.outline, .list (Expr.outlines args)]
  | .superCall args => .node "SuperCall" [.list (Expr.outlines args)]
  | .construct f args => .node "New" [f.outline, .list (Expr.outlines args)]
  | .member e key => .node "Member" [e.outline, key.outline]
  | .superMember key => .node "SuperMember" [key.outline]
  | .typeOf e => .node "Typeof" [e.outline]
  | .voidOf e => .node "Void" [e.outline]
  | .delete e => .node "Delete" [e.outline]

/-- The outlines of expressions. -/
def Expr.outlines : List Expr → List Outline
  | [] => []
  | e :: rest => e.outline :: Expr.outlines rest

/-- The outline of an optional expression. -/
def Expr.optionalOutline : Option Expr → Outline
  | none => .option none
  | some e => .option (some e.outline)

/-- The outline of what follows the object of a property access. -/
def MemberKey.outline : MemberKey → Outline
  | .dot name => .node "Dot" [.quoted name]
  | .computed e => .node "Computed" [e.outline]
  | .privateName name => .node "Private" [.quoted name]

/-- The outline of the name of a property. -/
def PropertyName.outline : PropertyName → Outline
  | .identifier name => .node "Identifier" [.quoted name]
  | .string s => .node "String" [.units s]
  | .number x => .node "Number" [.number x]
  | .computed e => .node "Computed" [e.outline]

/-- The outline of a property of an object literal. -/
def PropertyDef.outline : PropertyDef → Outline
  | .init key e =>
    .record "Property" [.field "key" key.outline, .field "value" (.node "Init" [e.outline])]
  | .method key f =>
    .record "Property" [.field "key" key.outline, .field "value" (.node "Method" [f.outline])]
  | .getter key f =>
    .record "Property" [.field "key" key.outline, .field "value" (.node "Get" [f.outline])]
  | .setter key f =>
    .record "Property" [.field "key" key.outline, .field "value" (.node "Set" [f.outline])]

/-- The outlines of the properties of an object literal. -/
def PropertyDef.outlines : List PropertyDef → List Outline
  | [] => []
  | p :: rest => p.outline :: PropertyDef.outlines rest

/-- The outline of a function. -/
def FunctionDef.outline : FunctionDef → Outline
  | ⟨name, kind, params, body, strict, varNames, source⟩ =>
    .record "FunctionDef"
      [.field "name" (.optionalName name), .field "kind" (.atom kind.name),
        .field "params" (.names params), .field "body" (.list (Stmt.outlines body)),
        .field "strict" (.bool strict), .field "var_names" (.names varNames),
        .field "source_text" (.quoted source)]

/-- The outline of an optional function. -/
def FunctionDef.optionalOutline : Option FunctionDef → Outline
  | none => .option none
  | some f => .option (some f.outline)

/-- The outline of an element of a class. -/
def ClassElement.outline : ClassElement → Outline
  | .publicElement key kind f isStatic =>
    .record "ClassMethod"
      [.field "key" (.node "Public" [key.outline]), .field "kind" (.atom kind.name),
        .field "value" f.outline, .field "is_static" (.bool isStatic)]
  | .privateElement name kind f isStatic =>
    .record "ClassMethod"
      [.field "key" (.node "Private" [.quoted name]), .field "kind" (.atom kind.name),
        .field "value" f.outline, .field "is_static" (.bool isStatic)]

/-- The outlines of the elements of a class. -/
def ClassElement.outlines : List ClassElement → List Outline
  | [] => []
  | e :: rest => e.outline :: ClassElement.outlines rest

/-- The outline of a class. -/
def ClassDef.outline : ClassDef → Outline
  | ⟨name, heritage, constructorDef, elements, source⟩ =>
    .record "ClassDef"
      [.field "name" (.optionalName name), .field "super_class" (Expr.optionalOutline heritage),
        .field "constructor" (FunctionDef.optionalOutline constructorDef),
        .field "body" (.list (ClassElement.outlines elements)),
        .field "source_text" (.quoted source)]

/-- The outline of one name of a variable declaration. -/
def Declarator.outline : Declarator → Outline
  | ⟨name, init⟩ =>
    .record "VariableDeclarator"
      [.field "name" (.quoted name), .field "init" (Expr.optionalOutline init)]

/-- The outlines of the names of a variable declaration. -/
def Declarator.outlines : List Declarator → List Outline
  | [] => []
  | d :: rest => d.outline :: Declarator.outlines rest

/-- The outline of the first part of a `for` head. -/
def ForInit.outline : ForInit → Outline
  | .absent => .option none
  | .variables kind declarators =>
    .option (some (.node "Variable" [.record "VariableDeclaration"
      [.field "kind" (.atom kind.name),
        .field "declarations" (.list (Declarator.outlines declarators))]]))
  | .expression e => .option (some (.node "Expression" [e.outline]))

/-- The outline of a clause of a `switch` statement. -/
def SwitchCase.outline : SwitchCase → Outline
  | ⟨test, body⟩ =>
    .record "SwitchCase"
      [.field "test" (Expr.optionalOutline test), .field "consequent" (.list (Stmt.outlines body))]

/-- The outlines of the clauses of a `switch` statement. -/
def SwitchCase.outlines : List SwitchCase → List Outline
  | [] => []
  | c :: rest => c.outline :: SwitchCase.outlines rest

/-- The outline of a statement. -/
def Stmt.outline : Stmt → Outline
  | .empty => .atom "Empty"
  | .expression e => .node "Expression" [e.outline]
  | .block body => .node "Block" [.list (Stmt.outlines body)]
  | .variables kind declarators =>
    let declaration := .record "VariableDeclaration"
      [.field "kind" (.atom kind.name),
        .field "declarations" (.list (Declarator.outlines declarators))]
    if kind = .var then .node "Variable" [declaration]
    else .node "Declaration" [.node "Lexical" [declaration]]
  | .ifThen test yes =>
    .node "If" [.record "IfStatement"
      [.field "test" test.outline, .field "consequent" yes.outline,
        .field "alternate" (.option none)]]
  | .ifElse test yes no =>
    .node "If" [.record "IfStatement"
      [.field "test" test.outline, .field "consequent" yes.outline,
        .field "alternate" (.option (some no.outline))]]
  | .whileLoop test body =>
    .node "While" [.record "WhileStatement"
      [.field "test" test.outline, .field "body" body.outline]]
  | .doLoop body test =>
    .node "DoWhile" [.record "DoWhileStatement"
      [.field "test" test.outline, .field "body" body.outline]]
  | .forLoop init test update body =>
    .node "For" [.record "ForStatement"
      [.field "init" init.outline, .field "test" (Expr.optionalOutline test),
        .field "update" (Expr.optionalOutline update), .field "body" body.outline]]
  | .returns e => .node "Return" [Expr.optionalOutline e]
  | .breaks label => .node "Break" [.optionalName label]
  | .continues label => .node "Continue" [.optionalName label]
  | .throws e => .node "Throw" [e.outline]
  | .tryCatch block param handler =>
    .node "Try" [.record "TryStatement"
      [.field "block" (.list (Stmt.outlines block)),
        .field "handler" (.option (some (.record "CatchClause"
          [.field "param" (.optionalName param), .field "body" (.list (Stmt.outlines handler))]))),
        .field "finalizer" (.option none)]]
  | .tryFinally block finalizer =>
    .node "Try" [.record "TryStatement"
      [.field "block" (.list (Stmt.outlines block)), .field "handler" (.option none),
        .field "finalizer" (.option (some (.list (Stmt.outlines finalizer))))]]
  | .tryCatchFinally block param handler finalizer =>
    .node "Try" [.record "TryStatement"
      [.field "block" (.list (Stmt.outlines block)),
        .field "handler" (.option (some (.record "CatchClause"
          [.field "param" (.optionalName param), .field "body" (.list (Stmt.outlines handler))]))),
        .field "finalizer" (.option (some (.list (Stmt.outlines finalizer))))]]
  | .switch subject cases =>
    .node "Switch" [.record "SwitchStatement"
      [.field "discriminant" subject.outline, .field "cases" (.list (SwitchCase.outlines cases))]]
  | .labeled label body => .node "Labeled" [.quoted label, body.outline]
  | .debugger => .atom "Debugger"
  | .function f => .node "Declaration" [.node "Function" [f.outline]]
  | .classDecl c => .node "Declaration" [.node "Class" [c.outline]]

/-- The outlines of statements. -/
def Stmt.outlines : List Stmt → List Outline
  | [] => []
  | s :: rest => s.outline :: Stmt.outlines rest

end

namespace Program

/-- The outline of a script. -/
def outline (p : Program) : Outline :=
  .record "Program"
    [.field "body" (.list (Stmt.outlines p.body)), .field "strict" (.bool p.strict),
      .field "var_names" (.names p.varNames)]

end Program

end Ecma
