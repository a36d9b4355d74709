import Ecma.Proofs.Syntax.Declared

/-! How the names of variables are collected. While a body is read, the names that `var` declares
in it come into a list, apart from those of the functions in it. `Collects` tells which of the
tokens that a production takes declare these names, and `Finds` that it takes none that does. -/

namespace Ecma

/-! ### Tokens that declare variables -/

/-- The name that a token declares; in sloppy code the keyword `let` may be one. -/
def Token.declaredName (t : Token) : String :=
  if t.kind = .keyword .letKw then "let" else t.text

/-- A token that may be a declared name. -/
def Token.isName (t : Token) : Prop :=
  t.kind = .identifier ∨ t.kind = .keyword .letKw

/-- The tokens of the initial value behind a name, which may be left out. -/
inductive Initializer : List Token → Prop
  | none : Initializer []
  | value {t : Token} (ht : t.kind = .punctuator .assign) (rest : List Token) :
    Initializer (t :: rest)

/-- The tokens of a list of declared names with their initial values, and the names among them. -/
inductive NameTokens : List Token → List Token → Prop
  | last {t : Token} {init : List Token} (ht : t.isName) (hi : Initializer init) :
    NameTokens (t :: init) [t]
  | more {t comma : Token} {init rest names : List Token} (ht : t.isName) (hi : Initializer init)
    (hc : comma.kind = .punctuator .comma) (h : NameTokens rest names) :
    NameTokens (t :: init ++ comma :: rest) (t :: names)

/-- Tokens among which there are some that declare names with `var`, in the order in which they
stand. -/
inductive VarTokens : List Token → List Token → Prop
  | none (tokens : List Token) : VarTokens tokens []
  | declaration {v : Token} {tokens names : List Token} (hv : v.kind = .keyword .varKw)
    (h : NameTokens tokens names) : VarTokens (v :: tokens) names
  | append {tokens tokens' names names' : List Token} (h : VarTokens tokens names)
    (h' : VarTokens tokens' names') : VarTokens (tokens ++ tokens') (names ++ names')

theorem NameTokens.sublist {tokens names : List Token} (h : NameTokens tokens names) :
    names.Sublist tokens := by
  induction h with
  | last => exact .cons_cons _ (List.nil_sublist _)
  | more _ _ _ _ ih => exact .cons_cons _ ((ih.cons _).trans (List.sublist_append_right _ _))

/-- The declared names stand in the order of the tokens. -/
theorem VarTokens.sublist {tokens names : List Token} (h : VarTokens tokens names) :
    names.Sublist tokens := by
  induction h with
  | none => exact List.nil_sublist _
  | declaration _ h => exact h.sublist.cons _
  | append _ _ ih ih' => exact ih.append ih'

theorem VarTokens.append_none {tokens names : List Token} (h : VarTokens tokens names)
    (rest : List Token) : VarTokens (tokens ++ rest) names :=
  List.append_nil names ▸ h.append (.none rest)

/-- What is declared among some tokens is declared among more of them. -/
theorem VarTokens.within {tokens tokens' names : List Token} (h : VarTokens tokens names)
    (hwithin : tokens <:+: tokens') : VarTokens tokens' names := by
  obtain ⟨before, after, rfl⟩ := hwithin
  rw [List.append_assoc]
  exact .append (.none before) (h.append_none after)

/-! ### Functions at any depth -/

/-- The names are those that `var` declares in a list of statements, each once, in the order in
which they are declared among the tokens. -/
def Hoists (tokens : List Token) (body : List Stmt) (names : List String) : Prop :=
  ∃ marks, VarTokens tokens marks ∧ marks.map Token.declaredName = Stmt.varNamesOf body ∧
    names = distinctNames (marks.map Token.declaredName)

/-- A name is read, as one that is declared, from some of the tokens, in code that is strict as
told. -/
def BindingName (tokens : List Token) (strict : Bool) (name : String) : Prop :=
  ∃ c s s', c.strict = strict ∧ s.tokens.significant <:+ tokens ∧
    Parse.bindingIdentifier c s = .ok (name, s')

theorem BindingName.of_suffix {tokens tokens' : List Token} {strict : Bool} {name : String}
    (h : BindingName tokens strict name) (hs : tokens <:+ tokens') :
    BindingName tokens' strict name :=
  let ⟨c, s, s', hstrict, hwithin, hread⟩ := h
  ⟨c, s, s', hstrict, hwithin.trans hs, hread⟩

/-- A function is read, from its parameters on, from some of the tokens, in code that is strict as
told. -/
structure FunctionDef.Run (tokens : List Token) (strict : Bool) (f : FunctionDef)
    (s s' : ParseState) : Prop where
  within : s.tokens.significant <:+ tokens
  name : ∀ name ∈ f.name, BindingName tokens strict name
  reads : ∃ depth c start superProperty superCall, c.strict = strict ∧
    (Grammar.ofFuel depth).functionRest f.name f.kind start superProperty superCall c s = .ok (f, s')

/-- What code is read from: a text and its tokens. -/
structure Origin where
  source : List Char
  tokens : List Token
  /-- The private names in use where the code is in no class. -/
  references : List (String × Location)

/-- The tokens without line terminators. -/
def Origin.significant (T : Origin) : List Token :=
  T.tokens.filter Token.isSignificant

/-- The code that something stands in: whether it is strict, and whether it is a part of a class. -/
structure CodeMode where
  strict : Bool
  inClass : Bool

/-- A production starts in code of a mode. -/
structure Origin.At (T : Origin) (σ : CodeMode) (c : Surroundings) (s : ParseState) : Prop where
  source : c.source = T.source
  strict : c.strict = σ.strict
  outside : σ.inClass = false → c.inClass = false
  tokens : s.tokens.rest <:+ T.tokens
  references : σ.inClass = false → s.references = T.references

theorem Origin.At.significant {T : Origin} {σ : CodeMode} {c : Surroundings} {s : ParseState}
    (h : T.At σ c s) : s.tokens.significant <:+ T.significant :=
  h.tokens.filter _

/-- A function is read like a function expression, in code of a mode. -/
def FunctionDef.IsRead (T : Origin) (σ : CodeMode) (f : FunctionDef) : Prop :=
  ∃ depth c s s', T.At σ c s ∧
    (Grammar.ofFuel depth).functionExpression c s = .ok (.function f, s')

namespace Part

/-- The parts of a part, with those inside a function or a class. -/
def pieces : Part → List Part
  | .function f _ _ => f.body.map .statement
  | .classDef c =>
    c.heritage.toList.map .expr ++
      c.constructorDef.toList.map (.function · true c.heritage.isSome) ++ c.elements.map .element
  | x => x.parts

/-- The function that a part is. -/
def function? : Part → Option FunctionDef
  | .function f _ _ => some f
  | _ => none

/-- The mode of the pieces of a part that stands in code of a mode. -/
def modeInside (σ : CodeMode) : Part → CodeMode
  | .function f _ _ => { σ with strict := f.strict }
  | .classDef _ => ⟨true, true⟩
  | _ => σ

/-- All functions in a part, at any depth, have a property, which may depend on the mode of the code
that they stand in. -/
inductive Each (V : CodeMode → FunctionDef → Prop) : CodeMode → Part → Prop
  | intro {σ : CodeMode} {x : Part} (here : ∀ f ∈ x.function?, V σ f)
    (pieces : ∀ y ∈ x.pieces, Each V (x.modeInside σ) y) : Each V σ x

end Part

/-- What is known of a function that stands in code of a mode. -/
structure FunctionDef.Known (T : Origin) (σ : CodeMode) (f : FunctionDef) : Prop where
  hoists : Hoists T.significant f.body f.varNames
  run : ∃ s s', f.Run T.significant σ.strict s s'
  isRead : f.kind = .normal → f.IsRead T σ

namespace Part

/-- All functions in a part, at any depth, are known. -/
abbrev Known (T : Origin) : CodeMode → Part → Prop :=
  Each (FunctionDef.Known T)

variable {T : Origin} {σ : CodeMode}

/-- A part that is no function and no class is made of the parts that stand where it stands. -/
theorem known_of_parts {x : Part} (hx : x.pieces = x.parts) (hf : x.function? = none)
    (h : ∀ y ∈ x.parts, y.Known T σ) : x.Known T σ := by
  refine .intro (by simp [hf]) fun y hy => ?_
  cases x with
  | classDef c =>
    rw [hx] at hy
    cases hy
  | function => cases hf
  | _ => exact h y (hx ▸ hy)

theorem known_leaf {x : Part} (hx : x.pieces = x.parts) (hf : x.function? = none)
    (h : x.parts = []) : x.Known T σ :=
  known_of_parts hx hf fun _ hy => absurd (h ▸ hy) List.not_mem_nil

theorem known_function {f : FunctionDef} {superProperty superCall : Bool} (h : f.Known T σ)
    (hbody : ∀ t ∈ f.body, (Part.statement t).Known T { σ with strict := f.strict }) :
    (Part.function f superProperty superCall).Known T σ := by
  refine .intro (fun f' hf' => ?_) fun y hy => ?_
  · cases hf'
    exact h
  · obtain ⟨t, ht, rfl⟩ := List.mem_map.mp hy
    exact hbody t ht

end Part

/-- The tokens are those that declare the variables of a statement in code of a mode, and all
functions in it are known. -/
structure Stmt.Declares (T : Origin) (σ : CodeMode) (t : Stmt) (marks : List Token) : Prop where
  names : marks.map Token.declaredName = t.varNames
  known : (Part.statement t).Known T σ

/-- The tokens are those that declare the variables of a list of statements in code of a mode, and
all functions in it are known. -/
structure Stmt.DeclareAll (T : Origin) (σ : CodeMode) (body : List Stmt) (marks : List Token) :
    Prop where
  names : marks.map Token.declaredName = Stmt.varNamesOf body
  known : ∀ t ∈ body, (Part.statement t).Known T σ

theorem Stmt.DeclareAll.nil {T : Origin} {σ : CodeMode} : Stmt.DeclareAll T σ [] [] :=
  ⟨by simp [Stmt.varNamesOf_eq], by simp⟩

/-- One more statement is read. -/
theorem Stmt.DeclareAll.next {T : Origin} {σ : CodeMode} {marks marks' : List Token}
    {done : List Stmt} {t : Stmt} (h : DeclareAll T σ done.reverse marks)
    (ht : t.Declares T σ marks') : DeclareAll T σ (t :: done).reverse (marks ++ marks') := by
  refine ⟨?_, ?_⟩
  · simp [h.names, ht.names, Stmt.varNamesOf_eq]
  · simpa [or_imp, forall_and, ht.known] using h.known

/-! ### Steps -/

namespace ParseState

/-- Tokens are taken; outside the bodies of classes no private name is used. -/
structure Advances (c : Surroundings) (before after : ParseState) : Prop where
  stream : after.tokens.rest <:+ before.tokens.rest
  references : c.inClass = false → after.references = before.references

/-- Tokens are taken, of which `marks` declare variables, and their names are collected. -/
structure Collects (c : Surroundings) (before : ParseState) (marks : List Token)
    (after : ParseState) : Prop extends before.Advances c after where
  tokens : ∃ used, before.tokens.significant = used ++ after.tokens.significant ∧
    VarTokens used marks
  declared : after.declared = (marks.map Token.declaredName).foldl addName before.declared

variable {c : Surroundings} {s s' s'' : ParseState}

theorem Advances.of_passes (h : s.Passes s') : s.Advances c s' :=
  ⟨h.stream, fun _ => h.references⟩

theorem Advances.trans (h : s.Advances c s') (h' : s'.Advances c s'') : s.Advances c s'' :=
  ⟨h'.stream.trans h.stream, fun hc => (h'.references hc).trans (h.references hc)⟩

/-- No name is collected. -/
theorem Collects.of_advances (h : s.Advances c s') (hdeclared : s'.declared = s.declared) :
    s.Collects c [] s' :=
  let ⟨used, heq⟩ := h.stream.filter Token.isSignificant
  ⟨h, ⟨used, heq.symm, .none used⟩, hdeclared⟩

theorem Collects.of_passes (h : s.Passes s') : s.Collects c [] s' :=
  .of_advances (.of_passes h) (by rw [h.rest])

theorem Collects.refl (c : Surroundings) (s : ParseState) : s.Collects c [] s :=
  .of_passes (.refl s)

theorem Collects.trans {marks marks' : List Token} (h : s.Collects c marks s')
    (h' : s'.Collects c marks' s'') : s.Collects c (marks ++ marks') s'' := by
  obtain ⟨used, heq, hused⟩ := h.tokens
  obtain ⟨used', heq', hused'⟩ := h'.tokens
  refine ⟨h.toAdvances.trans h'.toAdvances, ⟨used ++ used', ?_, hused.append hused'⟩, ?_⟩
  · rw [heq, heq', List.append_assoc]
  · rw [h'.declared, h.declared, List.map_append, List.foldl_append]

end ParseState

namespace Origin.At

variable {T : Origin} {σ : CodeMode} {c : Surroundings} {s s' : ParseState}

/-- What comes later is read from the same text. -/
theorem advances (h : T.At σ c s) (hs : s.Advances c s') : T.At σ c s' where
  source := h.source
  strict := h.strict
  outside := h.outside
  tokens := hs.stream.trans h.tokens
  references hσ := (hs.references (h.outside hσ)).trans (h.references hσ)

theorem passes (h : T.At σ c s) (hs : s.Passes s') : T.At σ c s' :=
  h.advances (.of_passes hs)

/-- What is read from a state on is read from the tokens that it has. -/
theorem here (c : Surroundings) (s : ParseState) :
    Origin.At ⟨c.source, s.tokens.rest, s.references⟩ ⟨c.strict, c.inClass⟩ c s :=
  ⟨rfl, rfl, id, List.suffix_refl _, fun _ => rfl⟩

end Origin.At

namespace Parse

variable {α β : Type} {T : Origin} {σ : CodeMode} {p : Parse α} {f : α → Parse β}
  {P : α → List Token → Prop} {Q : β → List Token → Prop}

/-- A production that collects no name. -/
class Quiet (p : Parse α) : Prop where
  yields : ∀ c s, p.Yields c s fun _ s' => s.Collects c [] s'

/-- In the text `T`, in code of the mode `σ`, a production collects the names of some tokens, which
fit its result. -/
def Collects (T : Origin) (σ : CodeMode) (p : Parse α) (P : α → List Token → Prop) : Prop :=
  ∀ c s, T.At σ c s → p.Yields c s fun a s' => ∃ marks, s.Collects c marks s' ∧ P a marks

/-- In the text `T`, in code of the mode `σ`, a production collects no name and has a result with a
property. -/
def Finds (T : Origin) (σ : CodeMode) (p : Parse α) (P : α → Prop) : Prop :=
  p.Collects T σ fun a marks => marks = [] ∧ P a

instance (priority := low) [p.Plain] : p.Quiet :=
  ⟨fun c s => (Plain.yields c s).mono fun _ _ h => .of_passes h⟩

instance [p.Quiet] [hf : ∀ a, (f a).Quiet] : (p >>= f).Quiet :=
  ⟨fun c s => .bind (Quiet.yields c s) fun a s' h =>
    ((hf a).yields c s').mono fun _ _ h' => h.trans h'⟩

instance {b : Prop} [Decidable b] {q : Parse α} [p.Quiet] [q.Quiet] :
    (if b then p else q).Quiet := by
  split <;> infer_instance

instance : omitSemicolon.Quiet :=
  ⟨fun _ _ _ _ heq => by cases heq; exact .of_advances ⟨List.suffix_refl _, fun _ => rfl⟩ rfl⟩

instance : semicolon.Quiet := by unfold semicolon; infer_instance

instance (name : String) (l : Location) : (referPrivate name l).Quiet := by
  refine ⟨fun c s => .read ?_⟩
  split
  · next hclass =>
    exact Yields.modify.mono fun _ s' hs' => by
      subst hs'
      exact .of_advances ⟨List.suffix_refl _, fun hc => absurd (hc.symm.trans hclass) nofun⟩ rfl
  · exact .fail

/-! ### Rules -/

theorem Collects.fail [p.Fails] : p.Collects T σ P :=
  fun _ _ _ => .fail

theorem Collects.pure {a : α} (h : P a []) : (pure a : Parse α).Collects T σ P :=
  fun c s _ => .pure ⟨[], .refl c s, h⟩

/-- A result that has been found without collecting a name. -/
theorem Collects.found {P : α → Prop} {a : α} (h : P a) :
    (Pure.pure a : Parse α).Collects T σ fun a marks => marks = [] ∧ P a :=
  .pure ⟨rfl, h⟩

theorem Collects.mono {P' : α → List Token → Prop} (h : p.Collects T σ P)
    (hP : ∀ a marks, P a marks → P' a marks) : p.Collects T σ P' :=
  fun c s hs => (h c s hs).mono fun a _ ⟨marks, hc, ha⟩ => ⟨marks, hc, hP a marks ha⟩

theorem Collects.bind (hp : p.Collects T σ P)
    (hf : ∀ a marks, P a marks → (f a).Collects T σ fun b marks' => Q b (marks ++ marks')) :
    (p >>= f).Collects T σ Q :=
  fun c s hs => .bind (hp c s hs) fun a s' ⟨marks, hc, ha⟩ =>
    (hf a marks ha c s' (hs.advances hc.toAdvances)).mono fun _ _ ⟨marks', hc', hb⟩ =>
      ⟨marks ++ marks', hc.trans hc', hb⟩

/-- A step that collects no name, of which the result has a property. -/
theorem Collects.find {P : α → Prop} (hp : p.Finds T σ P)
    (hf : ∀ a, P a → (f a).Collects T σ Q) : (p >>= f).Collects T σ Q := by
  refine .bind hp fun a marks ⟨hmarks, ha⟩ => ?_
  subst hmarks
  exact hf a ha

/-- A step that collects no name, of which nothing but its result is used. -/
theorem Collects.skip [p.Quiet] (hf : ∀ a, (f a).Collects T σ Q) : (p >>= f).Collects T σ Q :=
  .find (P := fun _ => True)
    (fun c s _ => (Quiet.yields c s).mono fun _ _ h => ⟨[], h, rfl, trivial⟩) fun a _ => hf a

/-- A check that rejects the text, or passes. -/
theorem Collects.guard {b : Prop} [Decidable b] {q : Parse β} [p.Fails] (hq : q.Collects T σ Q) :
    (if b then p >>= f else q).Collects T σ Q := by
  split
  · exact .fail
  · exact hq

/-- A step that is left out in some cases. -/
theorem Collects.optional {b : Prop} [Decidable b] {p : Parse Unit} [p.Quiet]
    {f : Unit → Parse β} (hf : ∀ u, (f u).Collects T σ Q) :
    (if b then p >>= f else f ()).Collects T σ Q := by
  split
  · exact .skip hf
  · exact hf ()

/-- A first step that is one of two. -/
theorem Collects.findIte {b : Prop} [Decidable b] {q : Parse α} {P : α → Prop}
    (hp : p.Finds T σ P) (hq : q.Finds T σ P) (hf : ∀ a, P a → (f a).Collects T σ Q) :
    (if b then p >>= f else q >>= f).Collects T σ Q := by
  split
  · exact .find hp hf
  · exact .find hq hf

/-- A first step that is one of two, of which nothing but the result is used. -/
theorem Collects.skipIte {b : Prop} [Decidable b] {q : Parse α} [p.Quiet] [q.Quiet]
    (hf : ∀ a, (f a).Collects T σ Q) : (if b then p >>= f else q >>= f).Collects T σ Q := by
  split
  · exact .skip hf
  · exact .skip hf

/-- In other surroundings, where the code is part of a class as before. -/
theorem Collects.around {σ' : CodeMode} {φ : Surroundings → Surroundings}
    (h : p.Collects T σ' P) (hφ : ∀ c s, T.At σ c s → T.At σ' (φ c) s)
    (hclass : ∀ c, (φ c).inClass = c.inClass) : (withReader φ p : Parse α).Collects T σ P := by
  refine fun c s hs => (h (φ c) s (hφ c s hs)).mono fun a s' ⟨marks, hc, ha⟩ => ⟨marks, ?_, ha⟩
  exact ⟨⟨hc.stream, fun hout => hc.references ((hclass c).trans hout)⟩, hc.tokens, hc.declared⟩

/-- In other surroundings, where the code is as before. -/
theorem Collects.within {φ : Surroundings → Surroundings}
    (hφ : ∀ c, (φ c).source = c.source ∧ (φ c).strict = c.strict ∧ (φ c).inClass = c.inClass)
    (h : p.Collects T σ P) : (withReader φ p : Parse α).Collects T σ P := by
  refine .around h (fun c s hs => ?_) fun c => (hφ c).2.2
  obtain ⟨hsource, hstrict, hclass⟩ := hφ c
  exact ⟨hsource.trans hs.source, hstrict.trans hs.strict, fun hσ => hclass.trans (hs.outside hσ),
    hs.tokens, hs.references⟩

/-- In code that is strict as told. -/
theorem Collects.strictly {isStrict : Bool}
    (h : p.Collects T { σ with strict := isStrict } P) :
    (withReader (fun c => { c with strict := isStrict }) p : Parse α).Collects T σ P :=
  .around h (fun _ _ hs => ⟨hs.source, rfl, hs.outside, hs.tokens, hs.references⟩) fun _ => rfl

theorem Collects.allowIn (h : p.Collects T σ P) : p.allowIn.Collects T σ P :=
  .within (fun _ => ⟨rfl, rfl, rfl⟩) h

theorem Finds.mono {P P' : α → Prop} (h : p.Finds T σ P) (hP : ∀ a, P a → P' a) : p.Finds T σ P' :=
  Collects.mono h fun a _ ha => ⟨ha.1, hP a ha.2⟩

theorem Finds.map {P : β → Prop} {f : α → β} (h : p.Finds T σ fun a => P (f a)) :
    (f <$> p).Finds T σ P :=
  fun c s hs => .map (h c s hs)

/-- By induction on the number of turns. -/
theorem Collects.loopFrom {turn : α → Parse (Turn α β)} (I : α → List Token → Prop)
    (h : ∀ a marks, I a marks → (turn a).Collects T σ fun t marks' =>
      match t with
      | .again a' => I a' (marks ++ marks')
      | .done b => Q b (marks ++ marks'))
    (fuel : Nat) (a : α) (marks : List Token) (ha : I a marks) :
    (loop turn fuel a).Collects T σ fun b marks' => Q b (marks ++ marks') := by
  induction fuel generalizing a marks with
  | zero => exact Collects.fail (p := throw _)
  | succ fuel ih =>
    refine .bind (h a marks ha) fun t marks' ht => ?_
    cases t with
    | again a' => exact (ih a' _ ht).mono fun b marks'' hb => List.append_assoc .. ▸ hb
    | done b => exact .pure ((List.append_nil marks').symm ▸ ht)

/-- An invariant of the turns of a loop, and of the tokens whose names are collected, holds at its
end. -/
theorem Collects.loop {turn : α → Parse (Turn α β)} (I : α → List Token → Prop)
    (h : ∀ a marks, I a marks → (turn a).Collects T σ fun t marks' =>
      match t with
      | .again a' => I a' (marks ++ marks')
      | .done b => Q b (marks ++ marks'))
    {fuel : Nat} {a : α} (ha : I a []) : (loop turn fuel a).Collects T σ Q :=
  .loopFrom I h fuel a [] ha

/-- An invariant of the turns of a loop, none of which collects a name. -/
theorem Finds.loop {turn : α → Parse (Turn α β)} (I : α → Prop) {Q : β → Prop}
    (h : ∀ a, I a → (turn a).Finds T σ fun
      | .again a' => I a'
      | .done b => Q b)
    {fuel : Nat} {a : α} (ha : I a) : (loop turn fuel a).Finds T σ Q := by
  refine Collects.loop (fun a marks => marks = [] ∧ I a) (fun a marks ⟨hmarks, ha⟩ => ?_) ⟨rfl, ha⟩
  subst hmarks
  refine Collects.mono (h a ha) fun t marks ht => ?_
  cases t with
  | again a' => exact ht
  | done b => exact ht

end Parse

open Parse

/-- The productions that contain themselves collect the names of the variables of their trees. -/
structure Grammar.Collects (T : Origin) (g : Grammar) : Prop where
  depth : ∃ n, g = ofFuel n
  assignment {σ : CodeMode} : g.assignment.Finds T σ fun e => (Part.expr e).Known T σ
  exponentiation {σ : CodeMode} : g.exponentiation.Finds T σ fun e => (Part.expr e).Known T σ
  unary {σ : CodeMode} : g.unary.Finds T σ fun e => (Part.expr e).Known T σ
  member {σ : CodeMode} : g.member.Finds T σ fun e => (Part.expr e).Known T σ
  leftHandSide {σ : CodeMode} : g.leftHandSide.Finds T σ fun e => (Part.expr e).Known T σ
  item {σ : CodeMode} : g.item.Collects T σ (Stmt.Declares T σ)
  subStatement {σ : CodeMode} : g.subStatement.Collects T σ (Stmt.Declares T σ)

namespace Grammar

variable {T : Origin} {σ : CodeMode} {g : Grammar}

/-! ### Functions -/

theorem finds_propertyName (hg : g.Collects T) :
    g.propertyName.Finds T σ fun n => (Part.name n).Known T σ := by
  refine .skip fun t => ?_
  split
  · exact .found (Part.known_leaf rfl rfl rfl)
  split
  · exact .skip fun _ => .found (Part.known_leaf rfl rfl rfl)
  · refine .skip fun x => ?_
    cases x <;> exact .found (Part.known_leaf rfl rfl rfl)
  · refine .skip fun x => ?_
    cases x <;> exact .found (Part.known_leaf rfl rfl rfl)
  · refine .find (.allowIn hg.assignment) fun e he => .skip fun _ => .found ?_
    exact Part.known_of_parts rfl rfl (by simpa using he)
  · exact .fail

theorem finds_strict : strict.Finds T σ fun isStrict => isStrict = σ.strict :=
  fun c s hs => Yields.read (.pure ⟨[], .refl c s, rfl, hs.strict⟩)

theorem known_of_isDirective {t : Stmt} (h : isDirective t = true) :
    (Part.statement t).Known T σ := by
  unfold isDirective at h
  split at h
  · refine Part.known_of_parts rfl rfl fun y hy => ?_
    rw [List.mem_singleton.mp hy]
    exact Part.known_leaf rfl rfl rfl
  · cases h

/-- The tokens are those that declare the variables of what has been read of a body. Only a
directive among directives makes code strict, and no function stands in them. -/
structure Prologue.Declares (T : Origin) (σ : CodeMode) (q : Prologue) (marks : List Token) : Prop
    extends Stmt.DeclareAll T { σ with strict := q.strict } q.statements.reverse marks where
  directives : q.leading = true → ∀ t ∈ q.statements, isDirective t = true

theorem Prologue.Declares.next {q : Prologue} {marks marks' : List Token}
    (hq : q.Declares T σ marks) {t : Stmt} (ht : t.Declares T { σ with strict := q.strict } marks')
    (useStrict : Bool) :
    Prologue.Declares T σ ⟨t :: q.statements, q.leading && isDirective t,
      q.strict || (q.leading && isDirective t && useStrict)⟩ (marks ++ marks') := by
  have hnext := hq.toDeclareAll.next ht
  have hdirectives : (q.leading && isDirective t) = true →
      ∀ u ∈ t :: q.statements, isDirective u = true := by
    intro hleading
    rw [Bool.and_eq_true] at hleading
    simpa [hleading.2] using hq.directives hleading.1
  refine ⟨⟨hnext.names, fun u hu => ?_⟩, hdirectives⟩
  cases hchange : q.leading && isDirective t && useStrict with
  | false =>
    rw [Bool.or_false]
    exact hnext.known u hu
  | true =>
    rw [Bool.and_eq_true] at hchange
    exact known_of_isDirective (hdirectives hchange.1 u (List.mem_reverse.mp hu))

/-- The names of a body are those of its statements, one after the other. -/
theorem collects_body {item : Parse Stmt} (hitem : ∀ σ, item.Collects T σ (Stmt.Declares T σ)) :
    (g.body item).Collects T σ fun r marks =>
      Stmt.DeclareAll T { σ with strict := r.2 } r.1 marks := by
  refine .find finds_strict fun isStrict hstrict => ?_
  subst hstrict
  refine .loop (fun (q : Prologue) marks => q.Declares T σ marks) (fun q marks hq => ?_)
    ⟨.nil, by simp⟩
  refine .skip fun _ => .skip fun _ => ?_
  split
  · exact .pure ((List.append_nil marks).symm ▸ hq.toDeclareAll)
  refine .skip fun useStrict => .bind (.strictly (hitem _)) fun t marks' ht => .pure ?_
  exact hq.next ((List.append_nil marks').symm ▸ ht) useStrict

theorem collects_functionParts (hg : g.Collects T) (name : Option String) (kind : FunctionKind) :
    (g.functionParts name kind).Collects T σ fun r marks =>
      Stmt.DeclareAll T { σ with strict := r.2.2 } r.2.1 marks := by
  refine .skip fun _ => .skip fun _ => .skip fun _ => ?_
  refine .bind (collects_body fun _ => hg.item) fun r marks hr => ?_
  refine .skip fun _ => .skip fun _ => .guard <| .skip fun _ => .pure ?_
  rwa [List.append_nil]

/-- A function collects the names of its variables, and no other is lost or won for what is around
it. -/
theorem yields_functionRest_hoists (hg : g.Collects T) {c : Surroundings} {s : ParseState}
    (hs : T.At σ c s) (name : Option String) (kind : FunctionKind) (start : Nat)
    (superProperty superCall : Bool) :
    (g.functionRest name kind start superProperty superCall).Yields c s fun f s' =>
      s.Collects c [] s' ∧ f.name = name ∧ f.kind = kind ∧
        Hoists T.significant f.body f.varNames ∧
        ∀ t ∈ f.body, (Part.statement t).Known T { σ with strict := f.strict } := by
  have seen {c : Surroundings} {s : ParseState} :
      varNames.Yields c s fun names s' => names = s.declared ∧ s' = s :=
    fun _ _ heq => by cases heq; exact ⟨rfl, rfl⟩
  refine .bind seen fun _ _ ⟨ha, heq⟩ => ?_
  subst ha heq
  refine .bind .modify fun _ s₁ h₁ => ?_
  have hs₁ : T.At σ c s₁ := hs.advances ⟨h₁ ▸ List.suffix_refl _, fun _ => by rw [h₁]⟩
  refine .bind (.withReader (collects_functionParts hg name kind _ s₁
    ⟨hs₁.source, hs₁.strict, hs₁.outside, hs₁.tokens, hs₁.references⟩))
    fun r s₂ ⟨marks, hcollects, hbody⟩ => ?_
  refine .bind seen fun _ _ ⟨ha, heq⟩ => ?_
  subst ha heq
  refine .bind .modify fun _ s₃ h₃ => .bind (Plain.yields c s₃) fun _ s₄ h₄ => .pure ?_
  refine ⟨.of_advances ⟨h₄.stream.trans ?_, fun hc => ?_⟩ (by rw [h₄.rest, h₃]), rfl, rfl, ?_,
    hbody.known⟩
  · rw [h₃]
    exact hcollects.stream.trans (h₁ ▸ List.suffix_refl _)
  · rw [h₄.references, h₃]
    exact (hcollects.references hc).trans (by rw [h₁])
  · obtain ⟨used, hused, hvars⟩ := hcollects.tokens
    have hwithin : used <:+: T.significant :=
      (hused ▸ (List.prefix_append _ _).isInfix).trans hs₁.significant.isInfix
    refine ⟨marks, hvars.within hwithin, hbody.names, ?_⟩
    rw [hcollects.declared, h₁, distinctNames]

/-- All is known of a function but whether it is read as a function expression. -/
theorem finds_functionRest (hg : g.Collects T) {name : Option String}
    (hname : ∀ word ∈ name, BindingName T.significant σ.strict word) (kind : FunctionKind)
    (start : Nat) (superProperty superCall : Bool) :
    (g.functionRest name kind start superProperty superCall).Finds T σ fun f => f.kind = kind ∧
      ((f.kind = .normal → f.IsRead T σ) → ∀ a b, (Part.function f a b).Known T σ) := by
  intro c s hs f s' heq
  obtain ⟨hcollects, rfl, rfl, hnames, hbody⟩ :=
    yields_functionRest_hoists hg hs name kind start superProperty superCall f s' heq
  obtain ⟨depth, rfl⟩ := hg.depth
  have hrun : f.Run T.significant σ.strict s s' :=
    ⟨hs.significant, hname, depth, c, start, superProperty, superCall, hs.strict, heq⟩
  exact ⟨[], hcollects, rfl, rfl, fun hread a b =>
    Part.known_function ⟨hnames, ⟨s, s', hrun⟩, hread⟩ hbody⟩

/-- A function that is no function expression by itself. -/
theorem finds_method (hg : g.Collects T) (kind : FunctionKind) (hkind : kind ≠ .normal)
    (start : Nat) (superProperty superCall : Bool) :
    (g.functionRest none kind start superProperty superCall).Finds T σ fun f =>
      ∀ a b, (Part.function f a b).Known T σ :=
  (finds_functionRest hg (by simp) kind start superProperty superCall).mono fun _ hf =>
    hf.2 fun hnormal => absurd (hf.1.symm.trans hnormal) hkind

theorem finds_bindingIdentifier :
    bindingIdentifier.Finds T σ (BindingName T.significant σ.strict) :=
  fun c s hs name s' heq =>
    ⟨[], Quiet.yields c s name s' heq, rfl, c, s, s', hs.strict, hs.significant, heq⟩

theorem finds_functionExpression (hg : g.Collects T) :
    g.functionExpression.Finds T σ fun e => (Part.expr e).Known T σ := by
  have hfound : g.functionExpression.Finds T σ fun e => ∃ f, e = .function f ∧
      ((f.kind = .normal → f.IsRead T σ) → ∀ a b, (Part.function f a b).Known T σ) := by
    refine .skip fun _ => .skip fun _ => .skip fun _ => .guard <| .skip fun _ => ?_
    refine .findIte (P := fun name => ∀ word ∈ name, BindingName T.significant σ.strict word)
      (.found (by simp)) (.map (finds_bindingIdentifier.mono fun word h => by simpa using h))
      fun name hname => ?_
    exact .find (finds_functionRest hg hname _ _ _ _) fun f hf => .found ⟨f, rfl, hf.2⟩
  intro c s hs e s' heq
  obtain ⟨marks, hcollects, hmarks, f, rfl, hf⟩ := hfound c s hs e s' heq
  obtain ⟨depth, rfl⟩ := hg.depth
  have hknown := hf fun _ => ⟨depth, c, s, s', hs, heq⟩
  exact ⟨marks, hcollects, hmarks, Part.known_of_parts rfl rfl (by simp [hknown])⟩

/-! ### Classes -/

/-- The functions in what has been read of the body of a class are known. -/
structure ClassBody.Known (T : Origin) (σ : CodeMode) (b : ClassBody) : Prop where
  code : ∀ f ∈ b.constructorDef, ∀ superProperty superCall,
    (Part.function f superProperty superCall).Known T σ
  elements : ∀ m ∈ b.elements, (Part.element m).Known T σ

theorem finds_privateElement (hg : g.Collects T) (start : Nat) (isStatic : Bool)
    (kind : MethodKind) {b : ClassBody} (hb : b.Known T σ) :
    (g.privateElement start isStatic kind b).Finds T σ (ClassBody.Known T σ) := by
  refine .skip fun t => .guard <| .guard <| .skip fun _ => ?_
  refine .find (finds_method hg .method (by decide) _ _ _) fun f hf => .skip fun _ => ?_
  refine .found ⟨hb.code, ?_⟩
  exact List.forall_mem_cons.mpr ⟨Part.known_of_parts rfl rfl (by simp [hf]), hb.elements⟩

theorem finds_publicElement (hg : g.Collects T) (start : Nat) (isStatic : Bool)
    (kind : MethodKind) (derived : Bool) {b : ClassBody} (hb : b.Known T σ) :
    (g.publicElement start isStatic kind derived b).Finds T σ (ClassBody.Known T σ) := by
  refine .skip fun _ => .find (finds_propertyName hg) fun key hkey => .skip fun _ => ?_
  split
  · refine .guard <| .guard <|
      .find (finds_method hg .classConstructor (by decide) _ _ _) fun f hf => ?_
    exact .found ⟨by simpa using hf, hb.elements⟩
  · refine .guard <| .find (finds_method hg .method (by decide) _ _ _) fun f hf => .skip fun _ => ?_
    refine .found ⟨hb.code, List.forall_mem_cons.mpr ⟨?_, hb.elements⟩⟩
    exact Part.known_of_parts rfl rfl (by simp [hf, hkey])

theorem finds_classElement (hg : g.Collects T) (derived : Bool) {b : ClassBody}
    (hb : b.Known T σ) : (g.classElement derived b).Finds T σ (ClassBody.Known T σ) := by
  refine .skip fun _ => .skip fun ⟨isStatic, kind⟩ => .skip fun _ => ?_
  split
  · exact finds_privateElement hg _ _ _ hb
  · exact finds_publicElement hg _ _ _ _ hb

theorem finds_classElements (hg : g.Collects T) (derived : Bool) :
    (g.classElements derived).Finds T σ (ClassBody.Known T σ) := by
  refine Finds.loop (ClassBody.Known T σ) (fun b hb => ?_) ⟨by simp, by simp⟩
  refine .skip fun _ => ?_
  split
  · exact .found ⟨hb.code, fun m hm => hb.elements m (List.mem_reverse.mp hm)⟩
  refine .skip fun _ => ?_
  split
  · exact .found hb
  · exact .find (finds_classElement hg derived hb) fun b' hb' => .found hb'

/-- The private names in use around a class are as before, and outside all classes none is left
over. -/
theorem finds_classBody (hg : g.Collects T) (derived : Bool) :
    (g.classBody derived).Finds T ⟨true, true⟩ (ClassBody.Known T ⟨true, true⟩) := by
  intro c s hs
  refine .bind .get fun outer s₀ hget => ?_
  obtain ⟨houter, h₀⟩ := hget
  subst s₀ outer
  refine .bind .modify fun _ s₁ h₁ => ?_
  have hs₁ : T.At ⟨true, true⟩ { c with inClass := true } s₁ :=
    ⟨hs.source, hs.strict, (absurd · Bool.noConfusion), h₁ ▸ hs.tokens, (absurd · Bool.noConfusion)⟩
  refine .bind (.withReader (finds_classElements hg derived _ s₁ hs₁)) fun b s₂ helements => ?_
  obtain ⟨marks, hcollects, rfl, hb⟩ := helements
  have hstream : s₂.tokens.rest <:+ s.tokens.rest :=
    hcollects.stream.trans (h₁ ▸ List.suffix_refl _)
  have hdeclared : s₂.declared = s.declared := hcollects.declared.trans (by rw [h₁]; rfl)
  refine .bind .get fun inner s₀ hget => ?_
  obtain ⟨hinner, h₀⟩ := hget
  subst s₀ inner
  refine .read ?_
  split
  · next hclass =>
    refine .bind .modify fun _ s₃ h₃ => .pure ⟨[], .of_advances ⟨?_, fun hout => ?_⟩ ?_, rfl, hb⟩
    · rwa [h₃]
    · exact absurd (hout.symm.trans hclass) Bool.false_ne_true
    · rwa [h₃]
  split
  · exact .fail
  · refine .bind .modify fun _ s₃ h₃ => .pure ⟨[], .of_advances ⟨?_, fun _ => ?_⟩ ?_, rfl, hb⟩
    · rwa [h₃]
    · rw [h₃]
    · rwa [h₃]

theorem finds_classRest (hg : g.Collects T) (isDeclaration : Bool) (start : Nat) :
    (g.classRest isDeclaration start).Finds T ⟨true, true⟩ fun d =>
      ∀ σ, (Part.classDef d).Known T σ := by
  refine .skip fun _ => .skip fun _ => .guard <| .skipIte fun name => .skip fun _ => ?_
  refine .findIte (P := fun (h : Option Expr) => ∀ e ∈ h, (Part.expr e).Known T ⟨true, true⟩)
    (.map (hg.leftHandSide.mono fun e he => by simpa using he)) (.found (by simp))
    fun heritage hheritage => .skip fun _ => ?_
  refine .find (finds_classBody hg _) fun b hb => .skip fun _ => .found fun σ => .intro nofun ?_
  simp only [Part.pieces, List.mem_append, List.mem_map, Option.mem_toList]
  rintro y ((⟨e, he, rfl⟩ | ⟨f, hf, rfl⟩) | ⟨m, hm, rfl⟩)
  · exact hheritage e he
  · exact hb.code f hf _ _
  · exact hb.elements m hm

theorem finds_classDefinition (hg : g.Collects T) (isDeclaration : Bool) :
    (g.classDefinition isDeclaration).Finds T σ fun d => (Part.classDef d).Known T σ := by
  refine .skip fun _ => .skip fun _ => .around ((finds_classRest hg _ _).mono fun d hd => hd σ)
    (fun _ _ hs => ?_) fun _ => rfl
  exact ⟨hs.source, rfl, nofun, hs.tokens, nofun⟩

/-! ### Property accesses, arguments and object literals -/

theorem finds_nestedExpression (hg : g.Collects T) :
    g.nestedExpression.Finds T σ fun e => (Part.expr e).Known T σ :=
  .find hg.assignment fun _ he => .skip fun _ => .guard (.found he)

theorem finds_memberKey? (hg : g.Collects T) :
    g.memberKey?.Finds T σ fun key? => ∀ key ∈ key?, (Part.key key).Known T σ := by
  refine .skip fun _ => .guard <| .skip fun _ => ?_
  split
  · refine .find (.allowIn (finds_nestedExpression hg)) fun e he => .skip fun _ => .found ?_
    exact fun key hkey => by cases hkey; exact Part.known_of_parts rfl rfl (by simpa using he)
  refine .skip fun _ => ?_
  split
  · exact .found (by simp)
  refine .skip fun t => ?_
  split
  · exact .found fun key hkey => by cases hkey; exact Part.known_leaf rfl rfl rfl
  split
  · exact .skip fun _ => .found fun key hkey => by cases hkey; exact Part.known_leaf rfl rfl rfl
  · exact .fail

theorem finds_arguments (hg : g.Collects T) :
    g.arguments.Finds T σ fun args => ∀ e ∈ args, (Part.expr e).Known T σ := by
  refine .skip fun _ => .allowIn ?_
  refine Finds.loop (fun args => ∀ e ∈ args, (Part.expr e).Known T σ) (fun args hargs => ?_)
    (by simp)
  refine .skip fun _ => ?_
  split
  · exact .found fun e he => hargs e (List.mem_reverse.mp he)
  refine .skip fun _ => .guard <| .find hg.assignment fun e he => .skip fun _ => ?_
  exact .optional fun _ => .found (List.forall_mem_cons.mpr ⟨he, hargs⟩)

theorem finds_propertyRest (hg : g.Collects T) (start : Nat) (keyToken : Token)
    {key : PropertyName} (hkey : (Part.name key).Known T σ) :
    (g.propertyRest start keyToken key).Finds T σ fun p => (Part.property p).Known T σ := by
  have hinit {e : Expr} (he : (Part.expr e).Known T σ) :
      (Part.property (.init key e)).Known T σ :=
    Part.known_of_parts rfl rfl (by simp [hkey, he])
  have hname (name : String) : (Part.expr (.identifier name)).Known T σ :=
    Part.known_leaf rfl rfl rfl
  refine .skip fun _ => ?_
  split
  · refine .find (finds_method hg .method (by decide) _ _ _) fun f hf => .found ?_
    exact Part.known_of_parts rfl rfl (by simp [hf, hkey])
  refine .skip fun _ => ?_
  split
  · exact .find hg.assignment fun e he => .found (hinit he)
  split
  · refine .skip fun _ => .guard ?_
    split
    · exact .skip fun _ => .found (hinit (hname _))
    · exact .skip fun _ => .guard (.found (hinit (hname _)))
    · exact .fail
  · exact .fail

theorem finds_objectProperty (hg : g.Collects T) :
    g.objectProperty.Finds T σ fun p => (Part.property p).Known T σ := by
  refine .skip fun _ => .skip fun _ => .guard <| .skip fun _ => .guard <| .skip fun accessor => ?_
  refine .skip fun keyToken => .find (finds_propertyName hg) fun key hkey => ?_
  split
  · refine .find (finds_method hg .method (by decide) _ _ _) fun f hf => .skip fun _ => .found ?_
    exact Part.known_of_parts rfl rfl (by simp [hf, hkey])
  · refine .find (finds_method hg .method (by decide) _ _ _) fun f hf => .skip fun _ => .found ?_
    exact Part.known_of_parts rfl rfl (by simp [hf, hkey])
  · exact finds_propertyRest hg _ _ hkey

theorem finds_objectLiteral (hg : g.Collects T) :
    g.objectLiteral.Finds T σ fun e => (Part.expr e).Known T σ := by
  refine .skip fun _ => .allowIn ?_
  refine Finds.loop (fun properties => ∀ p ∈ properties, (Part.property p).Known T σ)
    (fun properties hproperties => ?_) (by simp)
  refine .skip fun _ => ?_
  split
  · exact .found (Part.known_of_parts rfl rfl (by simpa using hproperties))
  refine .find (finds_objectProperty hg) fun p hp => .skip fun _ => .optional fun _ => ?_
  exact .found (List.forall_mem_cons.mpr ⟨hp, hproperties⟩)

/-! ### Primary and member expressions -/

theorem finds_parenthesized (hg : g.Collects T) :
    g.parenthesized.Finds T σ fun e => (Part.expr e).Known T σ := by
  refine .skip fun _ => .skip fun _ => .guard ?_
  exact .find (.allowIn (finds_nestedExpression hg)) fun e he => .skip fun _ => .found he

theorem finds_primary (hg : g.Collects T) :
    g.primary.Finds T σ fun e => (Part.expr e).Known T σ := by
  refine .skip fun t => ?_
  split
  · exact .skip fun _ => .found (Part.known_leaf rfl rfl rfl)
  · exact .skip fun _ => .skip fun _ => .found (Part.known_leaf rfl rfl rfl)
  · exact .skip fun _ => .guard <| .skip fun _ => .found (Part.known_leaf rfl rfl rfl)
  · exact .skip fun _ => .found (Part.known_leaf rfl rfl rfl)
  · exact .skip fun _ => .found (Part.known_leaf rfl rfl rfl)
  · refine .skip fun _ => .skip fun x => ?_
    cases x <;> exact .found (Part.known_leaf rfl rfl rfl)
  · refine .skip fun _ => .skip fun x => ?_
    cases x <;> exact .found (Part.known_leaf rfl rfl rfl)
  · exact .skip fun _ => .skip fun _ => .found (Part.known_leaf rfl rfl rfl)
  · exact .skip fun _ => finds_parenthesized hg
  · exact finds_objectLiteral hg
  · exact .fail
  · exact .fail
  · exact .fail
  · exact finds_functionExpression hg
  · exact .find (finds_classDefinition hg _) fun d hd =>
      .found (Part.known_of_parts rfl rfl (by simpa using hd))
  · exact .fail

theorem finds_superProperty (hg : g.Collects T) :
    g.superProperty.Finds T σ fun e => (Part.expr e).Known T σ := by
  refine .skip fun _ => .skip fun _ => .skip fun _ => .guard ?_
  refine .find (finds_memberKey? hg) fun key? hkey => ?_
  split
  · exact .fail
  · exact .fail
  · exact .found (Part.known_of_parts rfl rfl (by simpa using hkey))

theorem known_member {e : Expr} {key : MemberKey} (he : (Part.expr e).Known T σ)
    (hkey : (Part.key key).Known T σ) : (Part.expr (.member e key)).Known T σ :=
  Part.known_of_parts rfl rfl (by simp [he, hkey])

theorem finds_memberChain (hg : g.Collects T) {e : Expr} (he : (Part.expr e).Known T σ) :
    (g.memberChain e).Finds T σ fun e => (Part.expr e).Known T σ := by
  refine Finds.loop (fun e => (Part.expr e).Known T σ) (fun e he => ?_) he
  refine .find (finds_memberKey? hg) fun key? hkey => ?_
  cases key? with
  | some key => exact .found (known_member he (hkey key rfl))
  | none => exact .found he

theorem finds_newExpression (hg : g.Collects T) :
    g.newExpression.Finds T σ fun e => (Part.expr e).Known T σ := by
  refine .skip fun _ => .guard <| .find hg.member fun callee hcallee => .skip fun _ => ?_
  refine .findIte (P := fun args => ∀ e ∈ args, (Part.expr e).Known T σ) (finds_arguments hg)
    (.found (by simp)) fun args hargs => .found ?_
  exact Part.known_of_parts rfl rfl (by simpa [hcallee] using hargs)

theorem finds_memberExpression (hg : g.Collects T) :
    g.memberExpression.Finds T σ fun e => (Part.expr e).Known T σ := by
  have hchain (e : Expr) (he : (Part.expr e).Known T σ) := finds_memberChain hg he
  refine .skip fun _ => .skip fun _ => ?_
  split
  · exact .find (finds_newExpression hg) hchain
  · exact .findIte (finds_superProperty hg) (finds_primary hg) hchain

/-! ### Calls -/

theorem finds_superCallExpression (hg : g.Collects T) :
    g.superCallExpression.Finds T σ fun e => (Part.expr e).Known T σ := by
  refine .skip fun _ => .skip fun _ => .skip fun _ => .guard ?_
  exact .find (finds_arguments hg) fun args hargs =>
    .found (Part.known_of_parts rfl rfl (by simpa using hargs))

theorem finds_callChain (hg : g.Collects T) {e : Expr} (he : (Part.expr e).Known T σ) :
    (g.callChain e).Finds T σ fun e => (Part.expr e).Known T σ := by
  refine Finds.loop (fun e => (Part.expr e).Known T σ) (fun e he => ?_) he
  refine .skip fun _ => ?_
  split
  · refine .find (finds_arguments hg) fun args hargs => .found ?_
    exact Part.known_of_parts rfl rfl (by simpa [he] using hargs)
  refine .find (finds_memberKey? hg) fun key? hkey => ?_
  cases key? with
  | some key => exact .found (known_member he (hkey key rfl))
  | none => exact .found he

theorem finds_leftHandSideExpression (hg : g.Collects T) :
    g.leftHandSideExpression.Finds T σ fun e => (Part.expr e).Known T σ :=
  .skip fun _ => .skip fun _ => .findIte (finds_superCallExpression hg) (finds_memberExpression hg)
    fun _ he => finds_callChain hg he

/-! ### Operators -/

theorem known_update {op : UpdateOp} {first : Bool} {e : Expr} (he : (Part.expr e).Known T σ) :
    (Part.expr (.update op first e)).Known T σ :=
  Part.known_of_parts rfl rfl (by simpa using he)

theorem finds_updateExpression (hg : g.Collects T) :
    g.updateExpression.Finds T σ fun e => (Part.expr e).Known T σ := by
  refine .skip fun _ => .skip fun op? => ?_
  cases op? with
  | some op =>
    exact .skip fun _ => .find hg.unary fun e he => .skip fun _ => .found (known_update he)
  | none =>
    refine .find (finds_leftHandSideExpression hg) fun e he => .skip fun _ => ?_
    split
    · exact .found he
    refine .skip fun op? => ?_
    cases op? with
    | some op => exact .skip fun _ => .skip fun _ => .found (known_update he)
    | none => exact .found he

/-- The trees that operators with one operand build have that operand as their only part. -/
theorem known_unaryOperator {kind : TokenKind} {build : Expr → Expr} {e : Expr}
    (h : unaryOperator? kind = some build) (he : (Part.expr e).Known T σ) :
    (Part.expr (build e)).Known T σ := by
  unfold unaryOperator? at h
  split at h <;> cases h
  all_goals exact Part.known_of_parts rfl rfl (by simpa using he)

theorem finds_unaryExpression (hg : g.Collects T) :
    g.unaryExpression.Finds T σ fun e => (Part.expr e).Known T σ := by
  refine .skip fun t => ?_
  split
  · next build hbuild =>
    refine .skip fun _ => .find hg.unary fun e he => ?_
    exact .optional fun _ => .found (known_unaryOperator hbuild he)
  · exact finds_updateExpression hg

theorem known_binary {op : BinaryOp} {left right : Expr} (hl : (Part.expr left).Known T σ)
    (hr : (Part.expr right).Known T σ) : (Part.expr (.binary op left right)).Known T σ :=
  Part.known_of_parts rfl rfl (by simp [hl, hr])

theorem known_logical {op : LogicalOp} {left right : Expr} (hl : (Part.expr left).Known T σ)
    (hr : (Part.expr right).Known T σ) : (Part.expr (.logical op left right)).Known T σ :=
  Part.known_of_parts rfl rfl (by simp [hl, hr])

theorem finds_exponentiationExpression (hg : g.Collects T) :
    g.exponentiationExpression.Finds T σ fun e => (Part.expr e).Known T σ := by
  refine .skip fun _ => ?_
  split
  · exact .find (finds_unaryExpression hg) fun e he => .skip fun _ => .guard (.found he)
  refine .find (finds_updateExpression hg) fun base hbase => .skip fun _ => ?_
  split
  · exact .find hg.exponentiation fun e he => .found (known_binary hbase he)
  · exact .found hbase

/-- By induction on the levels: the operands of a level are those of the tighter ones. -/
theorem finds_binaryExpression (hg : g.Collects T) (levels : List BinaryLevel) :
    (g.binaryExpression levels).Finds T σ fun e => (Part.expr e).Known T σ := by
  induction levels with
  | nil => exact finds_exponentiationExpression hg
  | cons level tighter ih =>
    refine .find ih fun first hfirst => ?_
    refine Finds.loop (fun e => (Part.expr e).Known T σ) (fun left hl => ?_) hfirst
    refine .skip fun _ => ?_
    split
    · exact .skip fun _ => .find ih fun right hr => .found (known_binary hl hr)
    · exact .found hl

theorem finds_logicalAnd (hg : g.Collects T) :
    g.logicalAnd.Finds T σ fun e => (Part.expr e).Known T σ := by
  refine .skip fun _ => .find (finds_binaryExpression hg _) fun first hfirst => ?_
  refine Finds.loop (fun e => (Part.expr e).Known T σ) (fun left hl => ?_) hfirst
  refine .skip fun _ => ?_
  split
  · exact .find (finds_binaryExpression hg _) fun right hr => .found (known_logical hl hr)
  · exact .found hl

theorem finds_logicalOr (hg : g.Collects T) :
    g.logicalOr.Finds T σ fun e => (Part.expr e).Known T σ := by
  refine .find (finds_logicalAnd hg) fun first hfirst => ?_
  refine .find (Finds.loop (fun e => (Part.expr e).Known T σ)
    (Q := fun e => (Part.expr e).Known T σ) (fun left hl => ?_) hfirst) fun e he => ?_
  · refine .skip fun _ => ?_
    split
    · exact .find (finds_logicalAnd hg) fun right hr => .found (known_logical hl hr)
    · exact .found hl
  · exact .skip fun _ => .guard (.found he)

theorem finds_conditionalExpression (hg : g.Collects T) :
    g.conditionalExpression.Finds T σ fun e => (Part.expr e).Known T σ := by
  refine .find (finds_logicalOr hg) fun test ht => .skip fun _ => ?_
  split
  · exact .found ht
  refine .find (.allowIn hg.assignment) fun yes hy => .skip fun _ => ?_
  refine .find hg.assignment fun no hn => .found ?_
  exact Part.known_of_parts rfl rfl (by simp [ht, hy, hn])

theorem finds_assignmentExpression (hg : g.Collects T) :
    g.assignmentExpression.Finds T σ fun e => (Part.expr e).Known T σ := by
  refine .skip fun _ => .find (finds_conditionalExpression hg) fun left hl => ?_
  refine .skip fun _ => .guard <| .skip fun _ => .guard <| .skip fun _ => ?_
  split
  · exact .found hl
  refine .skip fun _ => .skip fun _ => .find hg.assignment fun value hv => .found ?_
  exact Part.known_of_parts rfl rfl (by simp [hl, hv])

theorem finds_expression (hg : g.Collects T) :
    g.expression.Finds T σ fun e => (Part.expr e).Known T σ :=
  .find (finds_assignmentExpression hg) fun _ he => .skip fun _ => .guard (.found he)

end Grammar

end Ecma
