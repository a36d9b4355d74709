import Ecma.Eval.Statement
import Ecma.Grammar.Statement

/-! Legal trees: every jump has its target, every private name its class, `super` stands where a
home object or a parent constructor is at hand, and every declaration stands in a list that binds
each of its names once. Legality is relative to what surrounds a tree: the `Rights` of its
expressions and the `Exits` of its statements. -/

namespace Ecma

/-- What the code around an expression grants it. -/
structure Rights where
  /-- The code is strict, and with it all functions in it. -/
  strict : Bool
  /-- `super.name` may be used. -/
  superProperty : Bool
  /-- `super()` may be used. -/
  superCall : Bool
  /-- The private names of the classes around it. -/
  privates : List String

namespace Rights

/-- The rights of a script. -/
def ofScript (strict : Bool) : Rights := ⟨strict, false, false, []⟩

/-- The rights of the body of a function: its own use of `super`, and the private names around
it. -/
def forBody (r : Rights) (superProperty superCall : Bool) : Rights :=
  { r with superProperty, superCall }

/-- The rights of the body of a class that declares private names. -/
def declaring (r : Rights) (names : List String) : Rights :=
  { r with privates := names ++ r.privates }

/-- The same rights in code that is strict or not. -/
def coded (r : Rights) (strict : Bool) : Rights :=
  { r with strict }

end Rights

/-- Where the jumps of a statement may lead. -/
structure Exits where
  /-- The labels around it, and whether each is on a loop. -/
  labels : List (String × Bool)
  inFunction : Bool
  inLoop : Bool
  inSwitch : Bool

namespace Exits

/-- The exits of a script. -/
def ofScript : Exits := ⟨[], false, false, false⟩

/-- The exits of the body of a function. -/
def ofFunction : Exits := ⟨[], true, false, false⟩

/-- The exits of the body of a loop. -/
def loop (x : Exits) : Exits := { x with inLoop := true }

/-- The exits of the clauses of a `switch`. -/
def switch (x : Exits) : Exits := { x with inSwitch := true }

/-- The exits behind a label. -/
def label (x : Exits) (l : String) (isLoop : Bool) : Exits :=
  { x with labels := x.labels ++ [(l, isLoop)] }

end Exits

namespace MemberKey

def isPrivate : MemberKey → Bool
  | .privateName _ => true
  | _ => false

end MemberKey

namespace Expr

/-- A private member of an object. -/
def isPrivateMember : Expr → Bool
  | .member _ key => key.isPrivate
  | _ => false

end Expr

namespace Stmt

/-- A loop behind any number of labels. -/
def isLoop : Stmt → Bool
  | .whileLoop .. | .doLoop .. | .forLoop .. => true
  | .labeled _ body => body.isLoop
  | _ => false

theorem takesLabels_of_isLoop {t : Stmt} (h : t.isLoop = true) : t.takesLabels = true := by
  cases t <;> simp_all [isLoop, takesLabels]

theorem boundNames_of_isLoop {t : Stmt} (h : t.isLoop = true) : t.boundNames = [] := by
  cases t <;> simp_all [isLoop, boundNames]

theorem varNamesOf_eq (body : List Stmt) : varNamesOf body = body.flatMap varNames := by
  induction body with
  | nil => rw [varNamesOf, List.flatMap_nil]
  | cons t rest ih => rw [varNamesOf, List.flatMap_cons, ih]

theorem varNamesOfCases_eq (cases : List SwitchCase) :
    varNamesOfCases cases = varNamesOf (cases.flatMap SwitchCase.body) := by
  induction cases with
  | nil => rw [varNamesOfCases, List.flatMap_nil, varNamesOf]
  | cons k rest ih =>
    obtain ⟨test, body⟩ := k
    rw [varNamesOfCases, SwitchCase.varNames, ih, varNamesOf_eq, varNamesOf_eq, varNamesOf_eq,
      List.flatMap_cons, List.flatMap_append]

end Stmt

theorem mem_addName {names : List String} {name other : String} :
    name ∈ addName names other ↔ name ∈ names ∨ name = other := by
  unfold addName
  split
  · next hmem => exact ⟨.inl, fun h => h.elim id fun heq => by simpa [heq] using hmem⟩
  · simp

theorem mem_distinctNames {names : List String} {name : String} :
    name ∈ distinctNames names ↔ name ∈ names := by
  suffices ∀ seen : List String, name ∈ names.foldl addName seen ↔ name ∈ seen ∨ name ∈ names from
    (this []).trans (or_iff_right List.not_mem_nil)
  induction names with
  | nil => simp
  | cons other rest ih =>
    intro seen
    rw [List.foldl_cons, ih, List.mem_cons, ← or_assoc, mem_addName]

/-- A list of statements that forms a scope. -/
structure StatementList where
  /-- It is the body of a function or a script, whose function declarations are variables. -/
  topLevel : Bool
  /-- The parameters of the function or of the `catch` clause. -/
  params : List String
  body : List Stmt

namespace StatementList

def ofBlock (body : List Stmt) : StatementList := ⟨false, [], body⟩

def ofHandler (param : Option String) (body : List Stmt) : StatementList :=
  ⟨false, param.toList, body⟩

/-- The clauses of a `switch` are one list of statements. -/
def ofClauses (cases : List SwitchCase) : StatementList := ofBlock (cases.flatMap SwitchCase.body)

def ofFunction (f : FunctionDef) : StatementList := ⟨true, f.params, f.body⟩

def ofScript (p : Program) : StatementList := ⟨true, [], p.body⟩

/-- The names that are bound in the scope. -/
def names (l : StatementList) : List String :=
  if l.topLevel then Stmt.lexicalNamesOf l.body else Stmt.declaredNames l.body

/-- Nothing else is called as what is bound in the scope. -/
structure Unambiguous (l : StatementList) : Prop where
  distinct : l.names.Nodup
  params : ∀ name ∈ l.names, name ∉ l.params
  vars : ∀ name ∈ l.names, name ∉ Stmt.varNamesOf l.body
  functions : l.topLevel = true → ∀ f ∈ Stmt.functionsOf l.body, ∀ name ∈ f.name, name ∉ l.names

end StatementList

/-- A lexical declaration in the head of a loop binds each name once. -/
def ForInit.Distinct : ForInit → Prop
  | .variables kind declarators => kind ≠ .var → (Stmt.declaratorNames declarators).Nodup
  | _ => True

/-- Two private elements of a class have two names, or they are the getter and the setter of one
name, both of the instances or both of the class. -/
def Grammar.PrivateDeclaration.Agrees (d d' : Grammar.PrivateDeclaration) : Prop :=
  d.name = d'.name → Grammar.isAccessorPair d.kind d'.kind = true ∧ d.isStatic = d'.isStatic

/-- What a private element of a class declares. -/
def ClassElement.declaration? : ClassElement → Option Grammar.PrivateDeclaration
  | .privateElement name kind _ isStatic => some ⟨name, kind, isStatic⟩
  | .publicElement .. => none

namespace ClassDef

/-- The private names that a class declares. -/
def privateNames (c : ClassDef) : List String :=
  c.elements.filterMap ClassElement.privateName?

/-- What the private elements of a class declare. -/
def declarations (c : ClassDef) : List Grammar.PrivateDeclaration :=
  c.elements.filterMap ClassElement.declaration?

end ClassDef

mutual

/-- Legal expressions. -/
inductive Expr.Legal : Rights → Expr → Prop
  | literal {r l} : Expr.Legal r (.literal l)
  | identifier {r name} : Expr.Legal r (.identifier name)
  | thisValue {r} : Expr.Legal r .thisValue
  | object {r properties} (h : ∀ p ∈ properties, PropertyDef.Legal r p) :
    Expr.Legal r (.object properties)
  | function {r f} (h : FunctionDef.Legal (r.forBody false false) f) : Expr.Legal r (.function f)
  | classExpr {r c} (h : ClassDef.Legal r c) : Expr.Legal r (.classExpr c)
  | unary {r op e} (h : Expr.Legal r e) : Expr.Legal r (.unary op e)
  | binary {r op left right} (hl : Expr.Legal r left) (hr : Expr.Legal r right) :
    Expr.Legal r (.binary op left right)
  | logical {r op left right} (hl : Expr.Legal r left) (hr : Expr.Legal r right) :
    Expr.Legal r (.logical op left right)
  | update {r op first target} (h : Expr.Legal r target) (href : target.isReference = true) :
    Expr.Legal r (.update op first target)
  | assign {r op target value} (ht : Expr.Legal r target) (href : target.isReference = true)
    (hv : Expr.Legal r value) : Expr.Legal r (.assign op target value)
  | conditional {r test yes no} (ht : Expr.Legal r test) (hy : Expr.Legal r yes)
    (hn : Expr.Legal r no) : Expr.Legal r (.conditional test yes no)
  | call {r callee args} (hf : Expr.Legal r callee) (ha : ∀ e ∈ args, Expr.Legal r e) :
    Expr.Legal r (.call callee args)
  | superCall {r args} (hs : r.superCall = true) (ha : ∀ e ∈ args, Expr.Legal r e) :
    Expr.Legal r (.superCall args)
  | construct {r callee args} (hf : Expr.Legal r callee) (ha : ∀ e ∈ args, Expr.Legal r e) :
    Expr.Legal r (.construct callee args)
  | member {r object key} (ho : Expr.Legal r object) (hk : MemberKey.Legal r key) :
    Expr.Legal r (.member object key)
  | superMember {r key} (hs : r.superProperty = true) (hk : MemberKey.Legal r key)
    (hp : key.isPrivate = false) : Expr.Legal r (.superMember key)
  | typeOf {r e} (h : Expr.Legal r e) : Expr.Legal r (.typeOf e)
  | voidOf {r e} (h : Expr.Legal r e) : Expr.Legal r (.voidOf e)
  | delete {r e} (h : Expr.Legal r e) (hp : e.isPrivateMember = false) : Expr.Legal r (.delete e)

/-- Legal member keys: a private name is one of a class around it. -/
inductive MemberKey.Legal : Rights → MemberKey → Prop
  | dot {r name} : MemberKey.Legal r (.dot name)
  | computed {r e} (h : Expr.Legal r e) : MemberKey.Legal r (.computed e)
  | privateName {r name} (h : name ∈ r.privates) : MemberKey.Legal r (.privateName name)

/-- Legal property names. -/
inductive PropertyName.Legal : Rights → PropertyName → Prop
  | identifier {r name} : PropertyName.Legal r (.identifier name)
  | string {r s} : PropertyName.Legal r (.string s)
  | number {r x} : PropertyName.Legal r (.number x)
  | computed {r e} (h : Expr.Legal r e) : PropertyName.Legal r (.computed e)

/-- Legal properties of an object literal, whose methods have a home object. -/
inductive PropertyDef.Legal : Rights → PropertyDef → Prop
  | init {r key value} (hk : PropertyName.Legal r key) (hv : Expr.Legal r value) :
    PropertyDef.Legal r (.init key value)
  | method {r key f} (hk : PropertyName.Legal r key)
    (hf : FunctionDef.Legal (r.forBody true false) f) : PropertyDef.Legal r (.method key f)
  | getter {r key f} (hk : PropertyName.Legal r key)
    (hf : FunctionDef.Legal (r.forBody true false) f) : PropertyDef.Legal r (.getter key f)
  | setter {r key f} (hk : PropertyName.Legal r key)
    (hf : FunctionDef.Legal (r.forBody true false) f) : PropertyDef.Legal r (.setter key f)

/-- Legal functions, given the rights of the body. A function in strict code is strict. -/
inductive FunctionDef.Legal : Rights → FunctionDef → Prop
  | intro {r f} (hs : r.strict = true → f.strict = true)
    (h : ∀ s ∈ f.body, Stmt.Legal (r.coded f.strict) .ofFunction s)
    (hd : (StatementList.ofFunction f).Unambiguous) : FunctionDef.Legal r f

/-- Legal elements of a class, given the rights of its body. -/
inductive ClassElement.Legal : Rights → ClassElement → Prop
  | publicElement {r key kind f isStatic} (hk : PropertyName.Legal r key)
    (hf : FunctionDef.Legal (r.forBody true false) f) :
    ClassElement.Legal r (.publicElement key kind f isStatic)
  | privateElement {r name kind f isStatic} (hf : FunctionDef.Legal (r.forBody true false) f) :
    ClassElement.Legal r (.privateElement name kind f isStatic)

/-- Legal classes, all of whose code is strict. The heritage stands outside the body, and only a
derived constructor may call its parent. -/
inductive ClassDef.Legal : Rights → ClassDef → Prop
  | intro {r c} (heritage : ∀ e ∈ c.heritage, Expr.Legal (r.coded true) e)
    (code : ∀ f ∈ c.constructorDef, FunctionDef.Legal
      (((r.coded true).declaring c.privateNames).forBody true c.heritage.isSome) f)
    (elements : ∀ m ∈ c.elements, ClassElement.Legal ((r.coded true).declaring c.privateNames) m)
    (privates : c.declarations.Pairwise Grammar.PrivateDeclaration.Agrees) : ClassDef.Legal r c

/-- Legal declarators. -/
inductive Declarator.Legal : Rights → Declarator → Prop
  | intro {r d} (h : ∀ e ∈ d.init, Expr.Legal r e) : Declarator.Legal r d

/-- Legal first parts of a `for` head. -/
inductive ForInit.Legal : Rights → ForInit → Prop
  | absent {r} : ForInit.Legal r .absent
  | variables {r kind declarators} (h : ∀ d ∈ declarators, Declarator.Legal r d)
    (hd : kind ≠ .var → (Stmt.declaratorNames declarators).Nodup) :
    ForInit.Legal r (.variables kind declarators)
  | expression {r e} (h : Expr.Legal r e) : ForInit.Legal r (.expression e)

/-- Legal clauses of a `switch`, given the exits of its body. -/
inductive SwitchCase.Legal : Rights → Exits → SwitchCase → Prop
  | intro {r x c} (ht : ∀ e ∈ c.test, Expr.Legal r e) (hb : ∀ s ∈ c.body, Stmt.Legal r x s) :
    SwitchCase.Legal r x c

/-- Legal statements. One that is no item of a list, such as the body of a loop, binds no name. -/
inductive Stmt.Legal : Rights → Exits → Stmt → Prop
  | empty {r x} : Stmt.Legal r x .empty
  | expression {r x e} (h : Expr.Legal r e) : Stmt.Legal r x (.expression e)
  | block {r x body} (h : ∀ s ∈ body, Stmt.Legal r x s)
    (hd : (StatementList.ofBlock body).Unambiguous) : Stmt.Legal r x (.block body)
  | variables {r x kind declarators} (h : ∀ d ∈ declarators, Declarator.Legal r d) :
    Stmt.Legal r x (.variables kind declarators)
  | ifThen {r x test yes} (ht : Expr.Legal r test) (hy : Stmt.Legal r x yes)
    (hd : yes.boundNames = []) : Stmt.Legal r x (.ifThen test yes)
  | ifElse {r x test yes no} (ht : Expr.Legal r test) (hy : Stmt.Legal r x yes)
    (hn : Stmt.Legal r x no) (hd : yes.boundNames = [] ∧ no.boundNames = []) :
    Stmt.Legal r x (.ifElse test yes no)
  | whileLoop {r x test body} (ht : Expr.Legal r test) (hb : Stmt.Legal r x.loop body)
    (hd : body.boundNames = []) : Stmt.Legal r x (.whileLoop test body)
  | doLoop {r x body test} (hb : Stmt.Legal r x.loop body) (ht : Expr.Legal r test)
    (hd : body.boundNames = []) : Stmt.Legal r x (.doLoop body test)
  | forLoop {r x init test update body} (hi : ForInit.Legal r init)
    (ht : ∀ e ∈ test, Expr.Legal r e) (hu : ∀ e ∈ update, Expr.Legal r e)
    (hb : Stmt.Legal r x.loop body) (hd : body.boundNames = []) :
    Stmt.Legal r x (.forLoop init test update body)
  | returns {r x e} (hx : x.inFunction = true) (h : ∀ v ∈ e, Expr.Legal r v) :
    Stmt.Legal r x (.returns e)
  | breaks {r x} (h : x.inLoop = true ∨ x.inSwitch = true) : Stmt.Legal r x (.breaks none)
  | breaksLabel {r x l} (h : ∃ isLoop, (l, isLoop) ∈ x.labels) : Stmt.Legal r x (.breaks (some l))
  | continues {r x} (h : x.inLoop = true) : Stmt.Legal r x (.continues none)
  | continuesLabel {r x l} (h : (l, true) ∈ x.labels) : Stmt.Legal r x (.continues (some l))
  | throws {r x e} (h : Expr.Legal r e) : Stmt.Legal r x (.throws e)
  | tryCatch {r x body param handler} (hb : ∀ s ∈ body, Stmt.Legal r x s)
    (hh : ∀ s ∈ handler, Stmt.Legal r x s)
    (hd : (StatementList.ofBlock body).Unambiguous)
    (hd' : (StatementList.ofHandler param handler).Unambiguous) :
    Stmt.Legal r x (.tryCatch body param handler)
  | tryFinally {r x body finalizer} (hb : ∀ s ∈ body, Stmt.Legal r x s)
    (hf : ∀ s ∈ finalizer, Stmt.Legal r x s)
    (hd : (StatementList.ofBlock body).Unambiguous)
    (hd' : (StatementList.ofBlock finalizer).Unambiguous) :
    Stmt.Legal r x (.tryFinally body finalizer)
  | tryCatchFinally {r x body param handler finalizer} (hb : ∀ s ∈ body, Stmt.Legal r x s)
    (hh : ∀ s ∈ handler, Stmt.Legal r x s) (hf : ∀ s ∈ finalizer, Stmt.Legal r x s)
    (hd : (StatementList.ofBlock body).Unambiguous)
    (hd' : (StatementList.ofHandler param handler).Unambiguous)
    (hd'' : (StatementList.ofBlock finalizer).Unambiguous) :
    Stmt.Legal r x (.tryCatchFinally body param handler finalizer)
  | switch {r x subject cases} (hs : Expr.Legal r subject)
    (hc : ∀ c ∈ cases, SwitchCase.Legal r x.switch c)
    (hd : (StatementList.ofClauses cases).Unambiguous) : Stmt.Legal r x (.switch subject cases)
  /-- A label that a `continue` may name stands before a loop. -/
  | labeled {r x l isLoop body} (hl : isLoop = true → body.isLoop = true)
    (hb : Stmt.Legal r (x.label l isLoop) body) (hd : body.boundNames = []) :
    Stmt.Legal r x (.labeled l body)
  | debugger {r x} : Stmt.Legal r x .debugger
  | function {r x f} (h : FunctionDef.Legal (r.forBody false false) f)
    (hd : f.name.isSome = true) : Stmt.Legal r x (.function f)
  | classDecl {r x c} (h : ClassDef.Legal r c) (hd : c.name.isSome = true) :
    Stmt.Legal r x (.classDecl c)

end

/-- A script that is accepted. Its statements are legal. -/
structure Program.Legal (p : Program) : Prop where
  accepted : ∃ source, Program.parse source = .ok p
  body : ∀ s ∈ p.body, s.Legal (.ofScript p.strict) .ofScript
  names : (StatementList.ofScript p).Unambiguous

end Ecma
