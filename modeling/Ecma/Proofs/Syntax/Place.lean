import Ecma.Object.Function
import Ecma.Proofs.Syntax.Statement

/-! Where the parts of a script stand. A place is known by the functions and classes around it. At
every place of a script that is accepted the parts are legal, and the code is strict as those
around it tell. -/

namespace Ecma

/-- A part of a script. A function has flags for how its code may use `super`. -/
inductive Part where
  | expr (e : Expr)
  | statement (t : Stmt)
  | key (k : MemberKey)
  | name (n : PropertyName)
  | property (p : PropertyDef)
  | function (f : FunctionDef) (superProperty superCall : Bool)
  | classDef (c : ClassDef)
  | element (m : ClassElement)
  | declarator (d : Declarator)
  | forInit (i : ForInit)
  | clause (k : SwitchCase)

/-- The parts of an expression that stand where it stands. -/
@[simp] def Expr.parts : Expr → List Part
  | .literal _ | .identifier _ | .thisValue => []
  | .object properties => properties.map .property
  | .function f => [.function f false false]
  | .classExpr c => [.classDef c]
  | .unary _ e | .update _ _ e | .typeOf e | .voidOf e | .delete e => [.expr e]
  | .binary _ left right | .logical _ left right => [.expr left, .expr right]
  | .assign _ target value => [.expr target, .expr value]
  | .conditional test yes no => [.expr test, .expr yes, .expr no]
  | .call callee args | .construct callee args => .expr callee :: args.map .expr
  | .superCall args => args.map .expr
  | .member base key => [.expr base, .key key]
  | .superMember key => [.key key]

/-- The parts of a statement that stand where it stands. -/
@[simp] def Stmt.parts : Stmt → List Part
  | .empty | .breaks _ | .continues _ | .debugger => []
  | .expression e | .throws e => [.expr e]
  | .block body => body.map .statement
  | .variables _ declarators => declarators.map .declarator
  | .ifThen test yes => [.expr test, .statement yes]
  | .ifElse test yes no => [.expr test, .statement yes, .statement no]
  | .whileLoop test body => [.expr test, .statement body]
  | .doLoop body test => [.statement body, .expr test]
  | .forLoop init test update body =>
    .forInit init :: .statement body :: (test.toList ++ update.toList).map .expr
  | .returns e => e.toList.map .expr
  | .tryCatch body _ handler => (body ++ handler).map .statement
  | .tryFinally body finalizer => (body ++ finalizer).map .statement
  | .tryCatchFinally body _ handler finalizer => (body ++ handler ++ finalizer).map .statement
  | .switch subject cases => .expr subject :: cases.map .clause
  | .labeled _ body => [.statement body]
  | .function f => [.function f false false]
  | .classDecl c => [.classDef c]

/-- The parts of a part that stand where it stands. What is in a function or a class stands inside
it. -/
@[simp] def Part.parts : Part → List Part
  | .expr e => e.parts
  | .statement t => t.parts
  | .key (.computed e) | .name (.computed e) | .forInit (.expression e) => [.expr e]
  | .property (.init n value) => [.name n, .expr value]
  | .property (.method n f) | .property (.getter n f) | .property (.setter n f)
  | .element (.publicElement n _ f _) => [.name n, .function f true false]
  | .element (.privateElement _ _ f _) => [.function f true false]
  | .declarator d => d.init.toList.map .expr
  | .forInit (.variables _ declarators) => declarators.map .declarator
  | .clause k => k.test.toList.map .expr ++ k.body.map .statement
  | .key _ | .name _ | .forInit .absent | .function .. | .classDef _ => []

namespace Around

/-- A function or a part of a class; other statements do not change what code may do. -/
def isCode : Around → Bool
  | .function .. | .heritage _ | .classBody _ => true
  | .block _ | .handler _ | .clauses _ | .loop _ => false

/-- All code of a class is strict, and the code of a function if the function is. -/
def isStrict : Around → Bool
  | .function f _ _ => f.strict
  | .heritage _ | .classBody _ => true
  | .block _ | .handler _ | .clauses _ | .loop _ => false

/-- The class of which this is a part. -/
def classDef? : Around → Option ClassDef
  | .heritage c | .classBody c => some c
  | _ => none

theorem classDef?_of_not_isCode {a : Around} (h : a.isCode = false) : a.classDef? = none := by
  cases a <;> first | rfl | cases h

/-- A part of a class that declares a private name. -/
def declares (name : String) (a : Around) : Bool :=
  a.classDef?.any (·.privateNames.contains name)

/-- The body of a class that declares a private name. -/
def grants (name : String) : Around → Bool
  | .classBody c => c.privateNames.contains name
  | _ => false

theorem declares_of_grants {name : String} {a : Around} (h : a.grants name = true) :
    a.declares name = true := by
  cases a with
  | classBody c => exact h
  | _ => cases h

/-- The rights inside. -/
def rights (r : Rights) : Around → Rights
  | .function f superProperty superCall => (r.forBody superProperty superCall).coded f.strict
  | .heritage _ => r.coded true
  | .classBody c => (r.coded true).declaring c.privateNames
  | .block _ | .handler _ | .clauses _ | .loop _ => r

end Around

/-- A place in a script: the functions and classes around it, from the inside out. -/
structure Place where
  program : Program
  around : List Around

namespace Place

def inside (l : Place) (a : Around) : Place :=
  { l with around := a :: l.around }

/-- The code is strict: in a strict script, in a strict function, or anywhere in a class. -/
def isStrict (l : Place) : Bool :=
  l.program.strict || l.around.any Around.isStrict

/-- The function or script that the place is in is strict, whatever the classes in between. -/
def runsStrict (l : Place) : Bool :=
  match l.around.find? fun a => a.classDef?.isNone with
  | some a => a.isStrict
  | none => l.program.strict

/-- The place is directly in a class: in its `extends` clause or a computed name. -/
def inClass (l : Place) : Bool :=
  l.around.head?.any fun a => a.classDef?.isSome

def rights (l : Place) : Rights :=
  l.around.foldr (fun a r => a.rights r) (.ofScript l.program.strict)

/-- A part of a script that is accepted stands at a place. -/
inductive Has : Place → Part → Prop
  | script {p : Program} {t : Stmt} (accepted : ∃ source, Program.parse source = .ok p)
    (h : t ∈ p.body) : Has ⟨p, []⟩ (.statement t)
  | part {l : Place} {whole part : Part} (hw : Has l whole) (h : part ∈ whole.parts) : Has l part
  | body {l : Place} {f : FunctionDef} {superProperty superCall : Bool} {t : Stmt}
    (hf : Has l (.function f superProperty superCall)) (h : t ∈ f.body) :
    Has (l.inside (.function f superProperty superCall)) (.statement t)
  | heritage {l : Place} {c : ClassDef} {e : Expr} (hc : Has l (.classDef c))
    (h : e ∈ c.heritage) : Has (l.inside (.heritage c)) (.expr e)
  | code {l : Place} {c : ClassDef} {f : FunctionDef} (hc : Has l (.classDef c))
    (h : f ∈ c.constructorDef) :
    Has (l.inside (.classBody c)) (.function f true c.heritage.isSome)
  | element {l : Place} {c : ClassDef} {m : ClassElement} (hc : Has l (.classDef c))
    (h : m ∈ c.elements) : Has (l.inside (.classBody c)) (.element m)

end Place

/-! ### Legality -/

namespace Part

/-- Legal parts, given the rights of the place. -/
def Legal (r : Rights) : Part → Prop
  | .expr e => e.Legal r
  | .statement t => ∃ x, t.Legal r x
  | .key k => k.Legal r
  | .name n => n.Legal r
  | .property p => p.Legal r
  | .function f superProperty superCall => f.Legal (r.forBody superProperty superCall)
  | .classDef c => c.Legal r
  | .element m => m.Legal r
  | .declarator d => d.Legal r
  | .forInit i => i.Legal r
  | .clause k => ∃ x, k.Legal r x

variable {r : Rights} {p : Part}

theorem legal_of_expr {e : Expr} (he : e.Legal r) (h : p ∈ e.parts) : p.Legal r := by
  cases he with
  | object hp =>
    obtain ⟨p, hmem, rfl⟩ := List.mem_map.mp h
    exact hp p hmem
  | superCall _ ha =>
    obtain ⟨e, hmem, rfl⟩ := List.mem_map.mp h
    exact ha e hmem
  | call hf ha | construct hf ha =>
    rcases List.mem_cons.mp h with rfl | h
    · exact hf
    · obtain ⟨e, hmem, rfl⟩ := List.mem_map.mp h
      exact ha e hmem
  | literal | identifier | thisValue => cases h
  | _ =>
    simp only [Expr.parts, List.mem_cons, List.not_mem_nil, or_false] at h
    rcases h with rfl | rfl | rfl <;> assumption

theorem legal_of_statement {t : Stmt} {x : Exits} (ht : t.Legal r x) (h : p ∈ t.parts) :
    p.Legal r := by
  have hlist {body : List Stmt} {x : Exits} (hb : ∀ t ∈ body, t.Legal r x)
      (hp : p ∈ body.map .statement) : p.Legal r := by
    obtain ⟨t, hmem, rfl⟩ := List.mem_map.mp hp
    exact ⟨x, hb t hmem⟩
  have hoption {e : Option Expr} (he : ∀ v ∈ e, v.Legal r) (hp : p ∈ e.toList.map .expr) :
      p.Legal r := by
    obtain ⟨e, hmem, rfl⟩ := List.mem_map.mp hp
    exact he e (Option.mem_toList.mp hmem)
  cases ht with
  | empty | breaks | breaksLabel | continues | continuesLabel | debugger => cases h
  | block hb => exact hlist hb h
  | «variables» hd =>
    obtain ⟨d, hmem, rfl⟩ := List.mem_map.mp h
    exact hd d hmem
  | forLoop hi ht hu hb =>
    simp only [Stmt.parts, List.mem_cons, List.map_append, List.mem_append] at h
    rcases h with rfl | rfl | h | h
    · exact hi
    · exact ⟨_, hb⟩
    · exact hoption ht h
    · exact hoption hu h
  | returns _ he => exact hoption he h
  | tryCatch hb hh | tryFinally hb hh =>
    simp only [Stmt.parts, List.map_append, List.mem_append] at h
    rcases h with h | h
    · exact hlist hb h
    · exact hlist hh h
  | tryCatchFinally hb hh hf =>
    simp only [Stmt.parts, List.map_append, List.mem_append] at h
    rcases h with (h | h) | h
    · exact hlist hb h
    · exact hlist hh h
    · exact hlist hf h
  | switch hs hc =>
    rcases List.mem_cons.mp h with rfl | h
    · exact hs
    · obtain ⟨k, hmem, rfl⟩ := List.mem_map.mp h
      exact ⟨_, hc k hmem⟩
  | _ =>
    simp only [Stmt.parts, List.mem_cons, List.not_mem_nil, or_false] at h
    rcases h with rfl | rfl | rfl <;> first | assumption | exact ⟨_, by assumption⟩

/-- Whatever stands with a legal part is legal. -/
theorem Legal.part {whole : Part} (hw : whole.Legal r) (h : p ∈ whole.parts) : p.Legal r := by
  cases whole with
  | expr e => exact legal_of_expr hw h
  | statement t => exact legal_of_statement hw.choose_spec h
  | key k => cases hw <;> simp_all [parts, Legal]
  | name n => cases hw <;> simp_all [parts, Legal]
  | property d =>
    cases hw <;>
      (simp only [parts, List.mem_cons, List.not_mem_nil, or_false] at h
       rcases h with rfl | rfl <;> assumption)
  | element m =>
    cases hw <;>
      (simp only [parts, List.mem_cons, List.not_mem_nil, or_false] at h
       rcases h with rfl | rfl <;> assumption)
  | function f superProperty superCall => cases h
  | classDef c => cases h
  | declarator d =>
    obtain ⟨hinit⟩ := hw
    obtain ⟨e, hmem, rfl⟩ := List.mem_map.mp h
    exact hinit e (Option.mem_toList.mp hmem)
  | forInit i =>
    cases hw with
    | absent => cases h
    | «variables» hd =>
      obtain ⟨d, hmem, rfl⟩ := List.mem_map.mp h
      exact hd d hmem
    | expression he =>
      cases List.mem_singleton.mp h
      exact he
  | clause k =>
    obtain ⟨x, ht, hb⟩ := hw
    rcases List.mem_append.mp h with h | h <;> obtain ⟨q, hmem, rfl⟩ := List.mem_map.mp h
    · exact ht q (Option.mem_toList.mp hmem)
    · exact ⟨x, hb q hmem⟩

end Part

namespace Place

variable {l : Place} {p : Part}

/-- Every part is legal where it stands. -/
theorem Has.legal (h : l.Has p) : p.Legal l.rights := by
  induction h with
  | script accepted ht =>
    obtain ⟨_, hparse⟩ := accepted
    exact ⟨_, (Program.legal_of_parse hparse).body _ ht⟩
  | part _ hpart ih => exact ih.part hpart
  | body _ ht ih =>
    obtain ⟨-, hbody⟩ := ih
    exact ⟨_, hbody _ ht⟩
  | heritage _ he ih =>
    obtain ⟨hheritage, -, -⟩ := ih
    exact hheritage _ he
  | code _ hf ih =>
    obtain ⟨-, hcode, -⟩ := ih
    exact hcode _ hf
  | element _ hm ih =>
    obtain ⟨-, -, helements⟩ := ih
    exact helements _ hm

/-- Only functions and classes stand around a place. -/
theorem Has.isCode (h : l.Has p) : ∀ a ∈ l.around, a.isCode = true := by
  induction h with
  | script => exact fun a ha => absurd ha List.not_mem_nil
  | part _ _ ih => exact ih
  | body _ _ ih | heritage _ _ ih | code _ _ ih | element _ _ ih =>
    exact List.forall_mem_cons.mpr ⟨rfl, ih⟩

/-! ### Strictness -/

theorem isStrict_inside (l : Place) (a : Around) :
    (l.inside a).isStrict = (a.isStrict || l.isStrict) := by
  simp [isStrict, inside, Bool.or_left_comm]

/-- A function in strict code is strict, so the rights of a place tell whether its code is. -/
theorem Has.strict_rights (h : l.Has p) : l.rights.strict = l.isStrict := by
  induction h with
  | script => simp [rights, isStrict, Rights.ofScript]
  | part _ _ ih => exact ih
  | @body l f superProperty superCall t hf _ ih =>
    obtain ⟨hstrict, -⟩ := hf.legal
    rw [isStrict_inside, ← ih]
    change f.strict = (f.strict || l.rights.strict)
    cases hr : l.rights.strict with
    | false => rw [Bool.or_false]
    | true => rw [hstrict hr, Bool.true_or]
  | heritage | code | element => rw [isStrict_inside]; rfl

/-- Outside the `extends` clauses and the computed names of classes, the code is strict as the
function or script is that it is in. -/
theorem Has.runsStrict_eq (h : l.Has p) (hclass : l.inClass = false) :
    l.runsStrict = l.isStrict := by
  rw [← h.strict_rights]
  obtain ⟨program, around⟩ := l
  cases around with
  | nil => rfl
  | cons a rest =>
    cases a with
    | function f superProperty superCall => rfl
    | heritage c | classBody c => cases hclass
    | block | handler | clauses | loop => cases h.isCode _ List.mem_cons_self

/-- All of a class is strict code. -/
theorem isStrict_of_inClass (hclass : l.inClass = true) : l.isStrict = true := by
  obtain ⟨program, around⟩ := l
  cases around with
  | nil => cases hclass
  | cons a rest =>
    cases a with
    | heritage c | classBody c => simp [isStrict, Around.isStrict]
    | _ => cases hclass

/-- The code of a class is run as what it is just where the code around the class is strict. -/
theorem Has.runsStrict_eq_iff (h : l.Has p) :
    l.runsStrict = l.isStrict ↔ (l.inClass = true → l.runsStrict = true) := by
  cases hclass : l.inClass with
  | false => exact iff_of_true (h.runsStrict_eq hclass) nofun
  | true =>
    rw [isStrict_of_inClass hclass]
    exact ⟨fun heq _ => heq, fun hruns => hruns rfl⟩

/-! ### Private names -/

theorem mem_privates {name : String} :
    name ∈ l.rights.privates ↔ ∃ a ∈ l.around, a.grants name = true := by
  obtain ⟨program, around⟩ := l
  induction around with
  | nil => simp [rights, Rights.ofScript]
  | cons a rest ih =>
    simp only [List.mem_cons, exists_eq_or_imp]
    cases a with
    | classBody c =>
      refine List.mem_append.trans (or_congr ?_ ih)
      simp [Around.grants]
    | _ => exact ih.trans (or_iff_right Bool.false_ne_true).symm

/-- A private name is used only inside the body of a class that declares it. -/
theorem Has.granted {name : String} (h : l.Has (.key (.privateName name))) :
    ∃ a ∈ l.around, a.grants name = true := by
  cases h.legal with
  | privateName hname => exact mem_privates.mp hname

end Place

end Ecma
