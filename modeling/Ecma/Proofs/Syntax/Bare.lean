import Mathlib
import Ecma.Grammar.Statement

/-! What is left of tokens and trees without positions and source texts. A tree without source texts
declares the same names. -/

namespace Ecma

/-! ### Trees -/

mutual

/-- The expression without the source texts of its functions and classes. -/
def Expr.bare : Expr → Expr
  | .literal l => .literal l
  | .identifier name => .identifier name
  | .thisValue => .thisValue
  | .object properties => .object (PropertyDef.bareAll properties)
  | .function f => .function f.bare
  | .classExpr c => .classExpr c.bare
  | .unary op e => .unary op e.bare
  | .binary op left right => .binary op left.bare right.bare
  | .logical op left right => .logical op left.bare right.bare
  | .update op first target => .update op first target.bare
  | .assign op target value => .assign op target.bare value.bare
  | .conditional test yes no => .conditional test.bare yes.bare no.bare
  | .call callee args => .call callee.bare (Expr.bareAll args)
  | .superCall args => .superCall (Expr.bareAll args)
  | .construct callee args => .construct callee.bare (Expr.bareAll args)
  | .member object key => .member object.bare key.bare
  | .superMember key => .superMember key.bare
  | .typeOf e => .typeOf e.bare
  | .voidOf e => .voidOf e.bare
  | .delete e => .delete e.bare

def Expr.bareAll : List Expr → List Expr
  | [] => []
  | e :: rest => e.bare :: Expr.bareAll rest

def Expr.bare? : Option Expr → Option Expr
  | none => none
  | some e => some e.bare

def MemberKey.bare : MemberKey → MemberKey
  | .dot name => .dot name
  | .computed e => .computed e.bare
  | .privateName name => .privateName name

def PropertyName.bare : PropertyName → PropertyName
  | .identifier name => .identifier name
  | .string s => .string s
  | .number x => .number x
  | .computed e => .computed e.bare

def PropertyDef.bare : PropertyDef → PropertyDef
  | .init key value => .init key.bare value.bare
  | .method key f => .method key.bare f.bare
  | .getter key f => .getter key.bare f.bare
  | .setter key f => .setter key.bare f.bare

def PropertyDef.bareAll : List PropertyDef → List PropertyDef
  | [] => []
  | p :: rest => p.bare :: PropertyDef.bareAll rest

def FunctionDef.bare : FunctionDef → FunctionDef
  | ⟨name, kind, params, body, strict, varNames, _⟩ =>
    ⟨name, kind, params, Stmt.bareAll body, strict, varNames, ""⟩

def FunctionDef.bare? : Option FunctionDef → Option FunctionDef
  | none => none
  | some f => some f.bare

def ClassElement.bare : ClassElement → ClassElement
  | .publicElement key kind value isStatic => .publicElement key.bare kind value.bare isStatic
  | .privateElement name kind value isStatic => .privateElement name kind value.bare isStatic

def ClassElement.bareAll : List ClassElement → List ClassElement
  | [] => []
  | e :: rest => e.bare :: ClassElement.bareAll rest

def ClassDef.bare : ClassDef → ClassDef
  | ⟨name, heritage, constructorDef, elements, _⟩ =>
    ⟨name, Expr.bare? heritage, FunctionDef.bare? constructorDef, ClassElement.bareAll elements, ""⟩

def Declarator.bare : Declarator → Declarator
  | ⟨name, init⟩ => ⟨name, Expr.bare? init⟩

def Declarator.bareAll : List Declarator → List Declarator
  | [] => []
  | d :: rest => d.bare :: Declarator.bareAll rest

def ForInit.bare : ForInit → ForInit
  | .absent => .absent
  | .variables kind declarators => .variables kind (Declarator.bareAll declarators)
  | .expression e => .expression e.bare

def SwitchCase.bare : SwitchCase → SwitchCase
  | ⟨test, body⟩ => ⟨Expr.bare? test, Stmt.bareAll body⟩

def SwitchCase.bareAll : List SwitchCase → List SwitchCase
  | [] => []
  | c :: rest => c.bare :: SwitchCase.bareAll rest

/-- The statement without the source texts of its functions and classes. -/
def Stmt.bare : Stmt → Stmt
  | .empty => .empty
  | .expression e => .expression e.bare
  | .block body => .block (Stmt.bareAll body)
  | .variables kind declarators => .variables kind (Declarator.bareAll declarators)
  | .ifThen test yes => .ifThen test.bare yes.bare
  | .ifElse test yes no => .ifElse test.bare yes.bare no.bare
  | .whileLoop test body => .whileLoop test.bare body.bare
  | .doLoop body test => .doLoop body.bare test.bare
  | .forLoop init test update body =>
    .forLoop init.bare (Expr.bare? test) (Expr.bare? update) body.bare
  | .returns e => .returns (Expr.bare? e)
  | .breaks label => .breaks label
  | .continues label => .continues label
  | .throws e => .throws e.bare
  | .tryCatch block param handler => .tryCatch (Stmt.bareAll block) param (Stmt.bareAll handler)
  | .tryFinally block finalizer => .tryFinally (Stmt.bareAll block) (Stmt.bareAll finalizer)
  | .tryCatchFinally block param handler finalizer =>
    .tryCatchFinally (Stmt.bareAll block) param (Stmt.bareAll handler) (Stmt.bareAll finalizer)
  | .switch subject cases => .switch subject.bare (SwitchCase.bareAll cases)
  | .labeled label body => .labeled label body.bare
  | .debugger => .debugger
  | .function f => .function f.bare
  | .classDecl c => .classDecl c.bare

def Stmt.bareAll : List Stmt → List Stmt
  | [] => []
  | t :: rest => t.bare :: Stmt.bareAll rest

end

@[simp] theorem Expr.bareAll_eq (args : List Expr) : Expr.bareAll args = args.map Expr.bare := by
  induction args with
  | nil => rfl
  | cons e rest ih => rw [bareAll, ih, List.map_cons]

@[simp] theorem PropertyDef.bareAll_eq (properties : List PropertyDef) :
    PropertyDef.bareAll properties = properties.map PropertyDef.bare := by
  induction properties with
  | nil => rfl
  | cons p rest ih => rw [bareAll, ih, List.map_cons]

@[simp] theorem ClassElement.bareAll_eq (elements : List ClassElement) :
    ClassElement.bareAll elements = elements.map ClassElement.bare := by
  induction elements with
  | nil => rfl
  | cons e rest ih => rw [bareAll, ih, List.map_cons]

@[simp] theorem Declarator.bareAll_eq (declarators : List Declarator) :
    Declarator.bareAll declarators = declarators.map Declarator.bare := by
  induction declarators with
  | nil => rfl
  | cons d rest ih => rw [bareAll, ih, List.map_cons]

@[simp] theorem SwitchCase.bareAll_eq (cases : List SwitchCase) :
    SwitchCase.bareAll cases = cases.map SwitchCase.bare := by
  induction cases with
  | nil => rfl
  | cons c rest ih => rw [bareAll, ih, List.map_cons]

@[simp] theorem Stmt.bareAll_eq (body : List Stmt) : Stmt.bareAll body = body.map Stmt.bare := by
  induction body with
  | nil => rfl
  | cons t rest ih => rw [bareAll, ih, List.map_cons]

@[simp] theorem Expr.bare?_eq (e : Option Expr) : Expr.bare? e = e.map Expr.bare := by
  cases e <;> rfl

@[simp] theorem FunctionDef.bare?_eq (f : Option FunctionDef) :
    FunctionDef.bare? f = f.map FunctionDef.bare := by
  cases f <;> rfl

/-! ### Declared names -/

@[simp] theorem FunctionDef.bare_name (f : FunctionDef) : f.bare.name = f.name := by
  cases f; rfl

@[simp] theorem FunctionDef.bare_params (f : FunctionDef) : f.bare.params = f.params := by
  cases f; rfl

@[simp] theorem ClassDef.bare_name (c : ClassDef) : c.bare.name = c.name := by
  cases c; rfl

@[simp] theorem Declarator.bare_name (d : Declarator) : d.bare.name = d.name := by
  cases d; rfl

theorem Stmt.declaratorNames_bare (declarators : List Declarator) :
    declaratorNames (declarators.map Declarator.bare) = declaratorNames declarators := by
  rw [declaratorNames, List.map_map]
  exact List.map_congr_left fun d _ => d.bare_name

theorem Stmt.boundNames_bare (t : Stmt) : t.bare.boundNames = t.boundNames := by
  cases t with
  | «variables» kind declarators =>
    rw [bare, Declarator.bareAll_eq, boundNames, declaratorNames_bare, boundNames]
  | function f => rw [bare, boundNames, f.bare_name, boundNames]
  | classDecl c => rw [bare, boundNames, c.bare_name, boundNames]
  | _ => rfl

theorem Stmt.lexicalNames_bare (t : Stmt) : t.bare.lexicalNames = t.lexicalNames := by
  have h := t.boundNames_bare
  cases t with
  | function f => rfl
  | _ => exact h

theorem Stmt.declaredNames_bare (body : List Stmt) :
    declaredNames (body.map bare) = declaredNames body := by
  rw [declaredNames, List.flatMap_map]
  exact List.flatMap_congr fun t _ => t.boundNames_bare

theorem Stmt.lexicalNamesOf_bare (body : List Stmt) :
    lexicalNamesOf (body.map bare) = lexicalNamesOf body := by
  rw [lexicalNamesOf, List.flatMap_map]
  exact List.flatMap_congr fun t _ => t.lexicalNames_bare

theorem Stmt.functionsOf_bare (body : List Stmt) :
    functionsOf (body.map bare) = (functionsOf body).map FunctionDef.bare := by
  rw [functionsOf, List.filterMap_map, functionsOf, List.map_filterMap]
  refine List.filterMap_congr fun t _ => ?_
  cases t <;> rfl

theorem ForInit.varNames_bare (init : ForInit) : init.bare.varNames = init.varNames := by
  cases init with
  | «variables» kind declarators =>
    rw [bare, Declarator.bareAll_eq]
    cases kind with
    | var => exact Stmt.declaratorNames_bare declarators
    | letVar | const => rfl
  | _ => rfl

mutual

theorem Stmt.varNames_bare (t : Stmt) : t.bare.varNames = t.varNames := by
  cases t with
  | «variables» kind declarators =>
    rw [Stmt.bare, Declarator.bareAll_eq, Stmt.varNames, Stmt.declaratorNames_bare, Stmt.varNames]
  | block body => exact Stmt.varNamesOf_bareAll body
  | ifThen test yes => exact Stmt.varNames_bare yes
  | ifElse test yes no =>
    rw [Stmt.bare, Stmt.varNames, Stmt.varNames_bare yes, Stmt.varNames_bare no, Stmt.varNames]
  | whileLoop test body => exact Stmt.varNames_bare body
  | doLoop body test => exact Stmt.varNames_bare body
  | forLoop init test update body =>
    rw [Stmt.bare, Stmt.varNames, ForInit.varNames_bare, Stmt.varNames_bare body, Stmt.varNames]
  | tryCatch block param handler =>
    rw [Stmt.bare, Stmt.varNames, Stmt.varNamesOf_bareAll block, Stmt.varNamesOf_bareAll handler,
      Stmt.varNames]
  | tryFinally block finalizer =>
    rw [Stmt.bare, Stmt.varNames, Stmt.varNamesOf_bareAll block, Stmt.varNamesOf_bareAll finalizer,
      Stmt.varNames]
  | tryCatchFinally block param handler finalizer =>
    rw [Stmt.bare, Stmt.varNames, Stmt.varNamesOf_bareAll block, Stmt.varNamesOf_bareAll handler,
      Stmt.varNamesOf_bareAll finalizer, Stmt.varNames]
  | switch subject cases => exact Stmt.varNamesOfCases_bareAll cases
  | labeled label body => exact Stmt.varNames_bare body
  | _ => rfl

theorem Stmt.varNamesOf_bareAll (body : List Stmt) :
    Stmt.varNamesOf (Stmt.bareAll body) = Stmt.varNamesOf body := by
  cases body with
  | nil => rfl
  | cons t rest =>
    rw [Stmt.bareAll, Stmt.varNamesOf, Stmt.varNames_bare t, Stmt.varNamesOf_bareAll rest,
      Stmt.varNamesOf]

theorem Stmt.varNamesOfCases_bareAll (cases : List SwitchCase) :
    Stmt.varNamesOfCases (SwitchCase.bareAll cases) = Stmt.varNamesOfCases cases := by
  cases cases with
  | nil => rfl
  | cons c rest =>
    obtain ⟨test, body⟩ := c
    rw [SwitchCase.bareAll, Stmt.varNamesOfCases, SwitchCase.bare, SwitchCase.varNames,
      Stmt.varNamesOf_bareAll body, Stmt.varNamesOfCases_bareAll rest, Stmt.varNamesOfCases,
      SwitchCase.varNames]

end

end Ecma
