import Ecma.Proofs.Syntax.Hoisting

/-! The tokens that productions take. In strict code each string literal among them has the escapes
that strict code allows, since its value is read as soon as it is taken. -/

namespace Ecma

/-- Strict code may hold the token: if it is a string literal, it has a value there. -/
def Token.IsStrict (t : Token) : Prop :=
  t.kind = .stringLiteral → ∃ units, StringLiteral.value true t.text = .ok units

theorem Token.isStrict_of_kind {t : Token} (h : t.kind ≠ .stringLiteral) : t.IsStrict :=
  fun hkind => absurd hkind h

namespace ParseState

/-- Some tokens are taken, in code that is strict as told. -/
structure Takes (strict : Bool) (before : ParseState) (used : List Token) (after : ParseState) :
    Prop where
  tokens : before.tokens.significant = used ++ after.tokens.significant
  strictly : strict = true → ∀ t ∈ used, t.IsStrict

variable {strict : Bool} {s s' s'' : ParseState} {used used' : List Token}

theorem Takes.none (h : s'.tokens.significant = s.tokens.significant) : s.Takes strict [] s' :=
  ⟨h.symm, by simp⟩

theorem Takes.one {t : Token} (h : s.tokens.significant = t :: s'.tokens.significant)
    (ht : strict = true → t.IsStrict) : s.Takes strict [t] s' :=
  ⟨h, by simpa using ht⟩

theorem Takes.trans (h : s.Takes strict used s') (h' : s'.Takes strict used' s'') :
    s.Takes strict (used ++ used') s'' := by
  refine ⟨by rw [h.tokens, h'.tokens, List.append_assoc], fun hstrict => ?_⟩
  exact List.forall_mem_append.mpr ⟨h.strictly hstrict, h'.strictly hstrict⟩

end ParseState

namespace Parse

variable {α β : Type} {p : Parse α} {c : Surroundings} {s : ParseState}

/-! ### Productions that take no token -/

/-- A production that leaves the tokens where they are. -/
class Still (p : Parse α) : Prop where
  yields : ∀ c s, p.Yields c s fun _ s' => s'.tokens = s.tokens

instance (priority := low) [p.Fails] : p.Still :=
  ⟨fun _ _ => .fail⟩

instance (a : α) : (pure a : Parse α).Still :=
  ⟨fun _ _ => .pure rfl⟩

theorem Still.bind {f : α → Parse β} [p.Still] (hf : ∀ a, (f a).Still) : (p >>= f).Still :=
  ⟨fun c s => .bind (Still.yields c s) fun a s' h =>
    ((hf a).yields c s').mono fun _ _ h' => h'.trans h⟩

instance {f : α → Parse β} [p.Still] [hf : ∀ a, (f a).Still] : (p >>= f).Still :=
  .bind hf

instance {b : Prop} [Decidable b] {q : Parse α} [p.Still] [q.Still] :
    (if b then p else q).Still := by
  split <;> infer_instance

instance : (read : Parse Surroundings).Still :=
  ⟨fun _ _ _ _ heq => by cases heq; rfl⟩

instance : (get : Parse ParseState).Still :=
  ⟨fun _ _ _ _ heq => by cases heq; rfl⟩

instance {φ : Surroundings → Surroundings} [p.Still] : (withReader φ p : Parse α).Still :=
  ⟨fun c s => Still.yields (p := p) (φ c) s⟩

instance {names : List String} {step : String → PUnit → Parse (ForInStep PUnit)}
    [h : ∀ name u, (step name u).Still] : (forIn names PUnit.unit step : Parse PUnit).Still := by
  induction names with
  | nil => exact inferInstanceAs (pure PUnit.unit : Parse PUnit).Still
  | cons name rest ih =>
    rw [List.forIn_cons]
    refine .bind fun r => ?_
    cases r with
    | done u => exact inferInstanceAs (pure u : Parse PUnit).Still
    | yield u => exact ih

instance (r : ParseState → List (String × Location)) :
    (modify fun s => { s with references := r s } : Parse PUnit).Still :=
  ⟨fun _ _ _ _ heq => by cases heq; rfl⟩

instance (names : ParseState → List String) :
    (modify fun s => { s with declared := names s } : Parse PUnit).Still :=
  ⟨fun _ _ _ _ heq => by cases heq; rfl⟩

instance : omitSemicolon.Still :=
  ⟨fun _ _ _ _ heq => by cases heq; rfl⟩

instance : location.Still := by unfold location; infer_instance

instance : peek?.Still := by unfold peek?; infer_instance

instance : peekKind?.Still := by unfold peekKind?; infer_instance

instance : peek.Still := by
  refine .bind fun t => ?_
  cases t <;> infer_instance

instance : atEnd.Still := by unfold atEnd; infer_instance

instance : lineTerminatorBefore.Still := by unfold lineTerminatorBefore; infer_instance

instance (kind : TokenKind) : (atKind kind).Still := by unfold atKind; infer_instance

instance (q : Punctuator) : (atPunct q).Still := by unfold atPunct; infer_instance

instance (k : Keyword) : (atKeyword k).Still := by unfold atKeyword; infer_instance

instance (word : String) : (atWord word).Still := by
  refine .bind fun t => ?_
  cases t <;> infer_instance

instance (n : Nat) : (peekNth? n).Still := by unfold peekNth?; infer_instance

instance (n : Nat) (q : Punctuator) : (nthIs n q).Still := by unfold nthIs; infer_instance

instance : varNames.Still := by unfold varNames; infer_instance

instance (name : String) : (declareVar name).Still := by unfold declareVar; infer_instance

instance (start : Nat) : (sourceSince start).Still := by unfold sourceSince; infer_instance

instance : strict.Still := by unfold strict; infer_instance

instance (t : Token) : (checkReference t).Still := by unfold checkReference; infer_instance

instance (name : String) (l : Location) : (checkBinding name l).Still := by
  unfold checkBinding; infer_instance

instance (t : Token) : (stringValue t).Still := by
  refine .bind fun b => ?_
  split <;> infer_instance

instance (t : Token) : (numericValue t).Still := by unfold numericValue; infer_instance

instance (topLevel : Bool) (taken : List String) (body : List Stmt) :
    (checkDeclarations topLevel taken body).Still := by
  unfold checkDeclarations
  split <;> infer_instance

instance (e : Expr) (l : Location) : (checkTarget e l).Still := by
  unfold checkTarget
  split <;> infer_instance

instance (first : Bool) (e : Expr) (l : Location) : (checkUpdateTarget first e l).Still := by
  unfold checkUpdateTarget
  split <;> infer_instance

instance (name : String) (l : Location) : (referPrivate name l).Still := by
  unfold referPrivate; infer_instance

/-! ### Productions that take tokens of strict code -/

/-- In strict code a production takes tokens that may stand there. -/
class Strictly (p : Parse α) : Prop where
  yields : ∀ c s, p.Yields c s fun _ s' => ∃ used, s.Takes c.strict used s'

instance (priority := low) [p.Still] : p.Strictly :=
  ⟨fun c s => (Still.yields c s).mono fun _ _ h => ⟨[], .none (h ▸ rfl)⟩⟩

theorem Strictly.bind {f : α → Parse β} [p.Strictly] (hf : ∀ a, (f a).Strictly) :
    (p >>= f).Strictly :=
  ⟨fun c s => .bind (Strictly.yields c s) fun a s' ⟨used, h⟩ =>
    ((hf a).yields c s').mono fun _ _ ⟨used', h'⟩ => ⟨used ++ used', h.trans h'⟩⟩

instance {f : α → Parse β} [p.Strictly] [hf : ∀ a, (f a).Strictly] : (p >>= f).Strictly :=
  .bind hf

instance {b : Prop} [Decidable b] {q : Parse α} [p.Strictly] [q.Strictly] :
    (if b then p else q).Strictly := by
  split <;> infer_instance

instance {f : α → β} [p.Strictly] : (f <$> p).Strictly :=
  ⟨fun c s => .map (Strictly.yields c s)⟩

/-- A check that rejects the text, or passes. -/
theorem Strictly.guard {b : Prop} [Decidable b] {f : α → Parse β} {q : Parse β} [p.Fails]
    (hq : q.Strictly) : (if b then p >>= f else q).Strictly := by
  split <;> infer_instance

/-- A step that is left out in some cases. -/
theorem Strictly.optional {b : Prop} [Decidable b] {p : Parse Unit} {f : Unit → Parse β}
    [p.Strictly] (hf : ∀ u, (f u).Strictly) : (if b then p >>= f else f ()).Strictly := by
  split
  · exact .bind hf
  · exact hf ()

/-- Strict code stays strict where the surroundings change. -/
theorem Strictly.withReader {φ : Surroundings → Surroundings} [hp : p.Strictly]
    (hφ : ∀ c, c.strict = true → (φ c).strict = true) : (withReader φ p : Parse α).Strictly :=
  ⟨fun c s => (hp.yields (φ c) s).mono fun _ _ ⟨used, h⟩ =>
    ⟨used, h.tokens, fun hstrict => h.strictly (hφ c hstrict)⟩⟩

instance [p.Strictly] : p.allowIn.Strictly :=
  .withReader fun _ h => h

/-- An invariant of the turns of a loop and of the states between them holds at its end. -/
theorem Yields.loop {turn : α → Parse (Turn α β)} (I : α → ParseState → Prop)
    {Q : β → ParseState → Prop}
    (h : ∀ a s, I a s → (turn a).Yields c s fun t s' =>
      match t with
      | .again a' => I a' s'
      | .done b => Q b s')
    {fuel : Nat} {a : α} (ha : I a s) : (loop turn fuel a).Yields c s Q := by
  induction fuel generalizing a s with
  | zero => exact Yields.fail (p := throw _)
  | succ fuel ih =>
    refine .bind (h a s ha) fun t s' ht => ?_
    cases t with
    | again a' => exact ih ht
    | done b => exact .pure ht

theorem Strictly.loop {turn : α → Parse (Turn α β)} (h : ∀ a, (turn a).Strictly) {fuel : Nat}
    {a : α} : (loop turn fuel a).Strictly := by
  refine ⟨fun c s => .loop (fun _ s' => ∃ used, s.Takes c.strict used s') (fun a s' hs => ?_)
    ⟨[], .none rfl⟩⟩
  obtain ⟨used, htakes⟩ := hs
  refine ((h a).yields c s').mono fun t s'' h => ?_
  obtain ⟨used', htakes'⟩ := h
  cases t <;> exact ⟨used ++ used', htakes.trans htakes'⟩

/-- What comes after a token that has been taken. -/
theorem Strictly.yields_after [hp : p.Strictly] {s' : ParseState} {used : List Token}
    (h : s.Takes c.strict used s') : p.Yields c s' fun _ s'' => ∃ used, s.Takes c.strict used s'' :=
  (hp.yields c s').mono fun _ _ ⟨used', h'⟩ => ⟨used ++ used', h.trans h'⟩

theorem yields_eatKind {kind : TokenKind} : (eatKind kind).Yields c s fun b s' =>
    (b = true → ∃ t, t.kind = kind ∧ s.tokens.significant = t :: s'.tokens.significant) ∧
      (b = false → s' = s) :=
  Yields.eatKind.mono fun _ _ h => h.2

theorem Strictly.eatKind {kind : TokenKind} (hkind : kind ≠ .stringLiteral) :
    (eatKind kind).Strictly := by
  refine ⟨fun c s => yields_eatKind.mono fun b s' h => ?_⟩
  cases b with
  | false => exact ⟨[], .none (by rw [h.2 rfl])⟩
  | true =>
    obtain ⟨t, ht, htaken⟩ := h.1 rfl
    exact ⟨[t], .one htaken fun _ => Token.isStrict_of_kind (ht ▸ hkind)⟩

instance (q : Punctuator) : (eat q).Strictly := .eatKind (by simp)

instance (k : Keyword) : (eatKeyword k).Strictly := .eatKind (by simp)

instance (q : Punctuator) : (expect q).Strictly := by unfold expect; infer_instance

instance (k : Keyword) : (expectKeyword k).Strictly := by unfold expectKeyword; infer_instance

instance : semicolon.Strictly := by unfold semicolon; infer_instance

instance : bindingIdentifier.Strictly := by
  refine ⟨fun c s => Yields.bindingIdentifier.mono fun _ s' h => ?_⟩
  obtain ⟨-, t, ht, -, -, htaken⟩ := h
  refine ⟨[t], .one htaken fun _ => Token.isStrict_of_kind ?_⟩
  rcases ht with ht | ht <;> simp [ht]

end Parse

theorem TokenStream.exists_next {s : TokenStream} {kind : TokenKind}
    (h : s.peekKind? = some kind) : ∃ t rest, s.significant = t :: rest ∧ t.kind = kind := by
  rw [TokenStream.peekKind?, TokenStream.peek?_eq, Option.map_eq_some_iff] at h
  obtain ⟨t, ht, hkind⟩ := h
  obtain ⟨rest, hrest⟩ := List.head?_eq_some_iff.mp ht
  exact ⟨t, rest, hrest, hkind⟩

namespace Parse

variable {α β : Type} {p : Parse α} {c : Surroundings} {s : ParseState}

/-- Passing over a token that is no string literal, with what comes after it. -/
theorem yields_skip {f : Unit → Parse β} (hf : ∀ u, (f u).Strictly) {kind : TokenKind}
    (h : s.tokens.peekKind? = some kind) (hkind : kind ≠ .stringLiteral) :
    (skip >>= f).Yields c s fun _ s' => ∃ used, s.Takes c.strict used s' := by
  obtain ⟨t, rest, hnext, rfl⟩ := TokenStream.exists_next h
  refine .bind (.skip_next hnext) fun u s₁ hrest => ?_
  have htaken : s.Takes c.strict [t] s₁ :=
    .one (hrest ▸ hnext) fun _ => Token.isStrict_of_kind hkind
  have := hf u
  exact Strictly.yields_after htaken

theorem yields_peekKind? : peekKind?.Yields c s fun kind s' => s' = s ∧ kind = s.tokens.peekKind? :=
  fun _ _ heq => by cases heq; exact ⟨rfl, rfl⟩

theorem yields_peek : peek.Yields c s fun t s' => s' = s ∧ s.tokens.peek? = some t := by
  refine .bind (P := fun t s' => s' = s ∧ t = s.tokens.peek?)
    (fun _ _ heq => by cases heq; exact ⟨rfl, rfl⟩) fun t s' h => ?_
  obtain ⟨rfl, ht⟩ := h
  cases t with
  | none => exact .fail
  | some t => exact .pure ⟨rfl, ht.symm⟩

theorem yields_stringValue (t : Token) :
    (stringValue t).Yields c s fun _ s' => s' = s ∧ (c.strict = true → t.IsStrict) := by
  refine .read ?_
  split
  · next units hvalue =>
    refine .pure ⟨rfl, fun hstrict _ => ⟨units, ?_⟩⟩
    rw [← hstrict, ← hvalue]
  · exact .fail

theorem yields_atWord (word : String) : (atWord word).Yields c s fun b s' =>
    s' = s ∧ (b = true → s.tokens.peekKind? = some .identifier) := by
  refine .bind (P := fun t s' => s' = s ∧ t = s.tokens.peek?)
    (fun _ _ heq => by cases heq; exact ⟨rfl, rfl⟩) fun t s' h => ?_
  obtain ⟨rfl, ht⟩ := h
  cases t with
  | none => exact .pure ⟨rfl, by simp⟩
  | some t =>
    refine .pure ⟨rfl, fun hword => ?_⟩
    rw [Bool.and_eq_true, beq_iff_eq] at hword
    rw [TokenStream.peekKind?, ← ht, Option.map_some, hword.1]

end Parse

open Parse

namespace Grammar

/-! ### String literals and directives -/

/-- The tokens of a string literal in any number of parentheses. -/
inductive LiteralTokens : List Token → Prop
  | literal {t : Token} (ht : t.kind = .stringLiteral) : LiteralTokens [t]
  | parens {left right : Token} {inner : List Token} (hl : left.kind = .punctuator .leftParen)
    (hr : right.kind = .punctuator .rightParen) (h : LiteralTokens inner) :
    LiteralTokens (left :: (inner ++ [right]))

/-- The tokens of a directive, with its semicolon if it has one. -/
inductive DirectiveTokens : List Token → Prop
  | open {tokens : List Token} (h : LiteralTokens tokens) : DirectiveTokens tokens
  | closed {tokens : List Token} {stop : Token} (hs : stop.kind = .punctuator .semicolon)
    (h : LiteralTokens tokens) : DirectiveTokens (tokens ++ [stop])

/-- The tokens of a directive prologue. -/
inductive PrologueTokens : List Token → Prop
  | nil : PrologueTokens []
  | directive {tokens next : List Token} (h : PrologueTokens tokens) (hn : DirectiveTokens next) :
    PrologueTokens (tokens ++ next)

theorem DirectiveTokens.exists_cons {tokens : List Token} (h : DirectiveTokens tokens) :
    ∃ t rest, tokens = t :: rest := by
  cases h with
  | «open» h => cases h <;> exact ⟨_, _, rfl⟩
  | closed _ h => cases h <;> exact ⟨_, _, rfl⟩

theorem DirectiveTokens.head {rest : List Token} {t : Token} (h : DirectiveTokens (t :: rest))
    (ht : t.kind = .stringLiteral) : ∀ u ∈ rest, u.kind ≠ .stringLiteral := by
  have literal {tokens : List Token} (h : LiteralTokens tokens) (hhead : tokens.head? = some t) :
      tokens = [t] := by
    cases h with
    | literal => simpa using hhead
    | parens hl =>
      obtain rfl := Option.some.inj hhead
      exact absurd (hl.symm.trans ht) (by decide)
  generalize hall : t :: rest = all at h
  cases h with
  | «open» h =>
    obtain rfl : rest = [] := (List.cons.inj (hall.trans (literal h (hall ▸ rfl)))).2
    simp
  | closed hs h =>
    rename_i tokens stop
    have hhead : tokens.head? = some t := by
      cases h <;> exact congrArg List.head? hall.symm
    rw [literal h hhead] at hall
    obtain rfl : rest = [stop] := (List.cons.inj hall).2
    simp [hs]

/-- The token makes code strict where it is a directive. -/
def isUseStrict (t : Token) : Bool :=
  t.kind == .stringLiteral && (t.text == "'use strict'" || t.text == "\"use strict\"")

/-- The tokens of code that is made strict by a directive among those at its start: what stands
behind that directive may stand in strict code. -/
def StrictFrom (tokens : List Token) : Prop :=
  ∃ before directive after, tokens = before ++ directive :: after ∧ PrologueTokens before ∧
    isUseStrict directive = true ∧ ∀ t ∈ after, t.IsStrict

theorem StrictFrom.append {tokens more : List Token} (h : StrictFrom tokens)
    (hmore : ∀ t ∈ more, t.IsStrict) : StrictFrom (tokens ++ more) := by
  obtain ⟨before, directive, after, rfl, hbefore, hdirective, hafter⟩ := h
  refine ⟨before, directive, after ++ more, by simp, hbefore, hdirective, ?_⟩
  exact List.forall_mem_append.mpr ⟨hafter, hmore⟩

/-- The expression is a string literal. -/
def isString : Expr → Bool
  | .literal (.string _) => true
  | _ => false

theorem isDirective_expression (e : Expr) : isDirective (.expression e) = isString e := by
  unfold isDirective isString
  split <;> simp_all

end Grammar

open Grammar

namespace ParseState

/-- The tokens of an expression are taken, in code that is strict as told. -/
def Spelled (strict : Bool) (before : ParseState) (e : Expr) (after : ParseState) : Prop :=
  ∃ used, before.Takes strict used after ∧ (isString e = true → LiteralTokens used)

/-- The tokens of a statement are taken, in code that is strict as told. -/
def Directed (strict : Bool) (before : ParseState) (t : Stmt) (after : ParseState) : Prop :=
  ∃ used, before.Takes strict used after ∧ (isDirective t = true → DirectiveTokens used)

end ParseState

namespace Parse

/-- In strict code a production takes tokens that may stand there, and a string literal is read from
the tokens of one. -/
class Spells (p : Parse Expr) : Prop where
  yields : ∀ c s, p.Yields c s (s.Spelled c.strict)

instance {p : Parse Expr} [p.Spells] : p.Strictly :=
  ⟨fun c s => (Spells.yields c s).mono fun _ _ h => ⟨h.choose, h.choose_spec.1⟩⟩

/-- In strict code a production takes tokens that may stand there, and a directive is read from the
tokens of one. -/
class Directs (p : Parse Stmt) : Prop where
  yields : ∀ c s, p.Yields c s (s.Directed c.strict)

instance {p : Parse Stmt} [p.Directs] : p.Strictly :=
  ⟨fun c s => (Directs.yields c s).mono fun _ _ h => ⟨h.choose, h.choose_spec.1⟩⟩

/-- The result does not have the property. -/
class Never {α : Type} (p : Parse α) (φ : α → Bool) : Prop where
  yields : ∀ c s, p.Yields c s fun a _ => φ a = false

/-- After an expression comes nothing, or what makes a compound expression of it. -/
def Follows (e : Expr) (p : Parse Expr) : Prop :=
  ∀ c s, p.Yields c s fun e' s' => ∃ used, s.Takes c.strict used s' ∧
    (isString e' = true → e' = e ∧ used = [])

section

variable {α β : Type} {p q : Parse α} {φ : α → Bool} {a : α} {c : Surroundings} {s : ParseState}

theorem Never.pure (h : φ a = false) : (pure a : Parse α).Never φ :=
  ⟨fun _ _ => .pure h⟩

theorem Never.after {x : Parse β} {f : β → Parse α} (hf : ∀ b, (f b).Never φ) :
    (x >>= f).Never φ :=
  ⟨fun c _ => .after fun b s' => (hf b).yields c s'⟩

instance (priority := low) [p.Fails] : p.Never φ :=
  ⟨fun _ _ => .fail⟩

instance (priority := low) {x : Parse β} {f : β → Parse α} [hf : ∀ b, (f b).Never φ] :
    (x >>= f).Never φ :=
  .after hf

instance {b : Prop} [Decidable b] [p.Never φ] [q.Never φ] : (if b then p else q).Never φ := by
  split <;> infer_instance

theorem Never.guard {b : Prop} [Decidable b] {x : Parse β} {f : β → Parse α} [x.Fails]
    (hq : q.Never φ) : (if b then x >>= f else q).Never φ := by
  split <;> infer_instance

/-- Nothing has to be said of the tokens of a result without the property. -/
theorem Yields.never [p.Never φ] {s' : ParseState} {R : α → List Token → Prop}
    (h : p.Yields c s' fun _ s'' => ∃ used, s.Takes c.strict used s'') :
    p.Yields c s' fun a s'' => ∃ used, s.Takes c.strict used s'' ∧ (φ a = true → R a used) :=
  (h.and (Never.yields c s')).mono fun _ _ ⟨⟨used, htakes⟩, hnot⟩ =>
    ⟨used, htakes, fun hφ => absurd (hnot.symm.trans hφ) (by decide)⟩

/-- What comes after tokens that have been taken, with a result without the property. -/
theorem Yields.taken (hp : p.Strictly) (hφ : p.Never φ) {s' : ParseState} {used : List Token}
    {R : α → List Token → Prop} (h : s.Takes c.strict used s') : p.Yields c s' fun a s'' =>
      ∃ used, s.Takes c.strict used s'' ∧ (φ a = true → R a used) :=
  .never (Strictly.yields_after h)

/-- A step that takes no token, before those that are taken. -/
theorem Yields.still {x : Parse β} [x.Still] {f : β → Parse α} {R : α → List Token → Prop}
    (hf : ∀ b s', s'.tokens = s.tokens → (f b).Yields c s' fun a s'' =>
      ∃ used, s'.Takes c.strict used s'' ∧ R a used) :
    (x >>= f).Yields c s fun a s' => ∃ used, s.Takes c.strict used s' ∧ R a used := by
  refine .bind (Still.yields c s) fun b s' h => (hf b s' h).mono fun a s'' h' => ?_
  obtain ⟨used, htakes, hR⟩ := h'
  exact ⟨used, ⟨h ▸ htakes.tokens, htakes.strictly⟩, hR⟩

/-- Passing over a token before a result without the property. -/
theorem Yields.skip_never {f : Unit → Parse α} (hf : ∀ u, (f u).Strictly)
    (hφ : ∀ u, (f u).Never φ) {kind : TokenKind} (h : s.tokens.peekKind? = some kind)
    (hkind : kind ≠ .stringLiteral) {R : α → List Token → Prop} :
    (Parse.skip >>= f).Yields c s fun a s' =>
      ∃ used, s.Takes c.strict used s' ∧ (φ a = true → R a used) :=
  have : (Parse.skip >>= f).Never φ := .after hφ
  .never (yields_skip hf h hkind)

end

variable {α : Type} {p q : Parse Expr} {e : Expr}

instance (priority := low) [p.Strictly] [p.Never isString] : p.Spells :=
  ⟨fun c s => .never (Strictly.yields c s)⟩

theorem Follows.never [p.Strictly] [p.Never isString] : p.Follows e :=
  fun c s => .never (Strictly.yields c s)

theorem Follows.pure : (pure e : Parse Expr).Follows e :=
  fun _ _ => .pure ⟨[], .none rfl, fun _ => ⟨rfl, rfl⟩⟩

theorem Follows.fail [p.Fails] : p.Follows e :=
  fun _ _ => .fail

theorem Follows.still {x : Parse α} [x.Still] {f : α → Parse Expr} (hf : ∀ a, (f a).Follows e) :
    (x >>= f).Follows e :=
  fun c _ => .still fun a s' _ => hf a c s'

theorem Follows.guard {b : Prop} [Decidable b] {x : Parse α} {f : α → Parse Expr} [x.Fails]
    (hq : q.Follows e) : (if b then x >>= f else q).Follows e := by
  split
  · exact .fail
  · exact hq

theorem Follows.bind {f : Expr → Parse Expr} (hp : p.Follows e) (hf : ∀ e, (f e).Follows e) :
    (p >>= f).Follows e := by
  refine fun c s => .bind (hp c s) fun e₁ s₁ h => ?_
  obtain ⟨used, htakes, hsame⟩ := h
  refine (hf e₁ c s₁).mono fun e₂ s₂ h => ?_
  obtain ⟨used', htakes', hsame'⟩ := h
  refine ⟨used ++ used', htakes.trans htakes', fun hstring => ?_⟩
  obtain ⟨rfl, rfl⟩ := hsame' hstring
  obtain ⟨rfl, rfl⟩ := hsame hstring
  exact ⟨rfl, rfl⟩

/-- An operator that makes a compound expression, or that is left out. -/
theorem Follows.eat {q : Punctuator} {f : Bool → Parse Expr} [hf : (f true).Strictly]
    (hyes : (f true).Never isString) (hno : (f false).Follows e) :
    (Parse.eat q >>= f).Follows e := by
  refine fun c s => .bind yields_eatKind fun b s₁ h => ?_
  cases b with
  | false => exact h.2 rfl ▸ hno c s
  | true =>
    obtain ⟨t, ht, htaken⟩ := h.1 rfl
    exact .taken hf hyes (.one htaken fun _ => Token.isStrict_of_kind (by simp [ht]))

theorem Follows.yields {c : Surroundings} {s s₁ : ParseState} (hp : p.Follows e)
    (h : s.Spelled c.strict e s₁) : p.Yields c s₁ (s.Spelled c.strict) := by
  obtain ⟨used, htakes, hliteral⟩ := h
  refine (hp c s₁).mono fun e' s₂ h => ?_
  obtain ⟨used', htakes', hsame⟩ := h
  refine ⟨used ++ used', htakes.trans htakes', fun hstring => ?_⟩
  obtain ⟨rfl, rfl⟩ := hsame hstring
  rw [List.append_nil]
  exact hliteral hstring

theorem Spells.bind [p.Spells] {f : Expr → Parse Expr} (hf : ∀ e, (f e).Follows e) :
    (p >>= f).Spells :=
  ⟨fun c s => .bind (Spells.yields c s) fun e _ h => (hf e).yields h⟩

/-- A turn of a loop ends it, or goes on with a string literal. -/
def staysString : Turn Expr Expr → Bool
  | .again e => isString e
  | .done _ => true

theorem Follows.loop {turn : Expr → Parse (Turn Expr Expr)}
    (h : ∀ e c s, (turn e).Yields c s fun t s' => ∃ used, s.Takes c.strict used s' ∧
      (staysString t = true → t = .done e ∧ used = [])) {fuel : Nat} :
    (loop turn fuel e).Follows e := by
  refine fun c s => .loop (fun e' s' => ∃ used, s.Takes c.strict used s' ∧
    (isString e' = true → e' = e ∧ used = [])) (fun e' s' hs => ?_) ⟨[], .none rfl, by simp⟩
  obtain ⟨used, htakes, hsame⟩ := hs
  refine (h e' c s').mono fun t s'' ht => ?_
  obtain ⟨used', htakes', ht⟩ := ht
  cases t with
  | again e'' =>
    refine ⟨used ++ used', htakes.trans htakes', fun hstring => ?_⟩
    exact absurd (ht hstring).1 (by simp)
  | done e'' =>
    obtain ⟨heq, rfl⟩ := ht rfl
    cases heq
    refine ⟨used ++ [], htakes.trans htakes', ?_⟩
    rwa [List.append_nil]

end Parse

open Parse

namespace Grammar

/-- The productions that contain themselves take tokens that strict code may hold, and a directive
is read from its tokens. -/
class Spells (g : Grammar) : Prop where
  assignment : g.assignment.Spells
  exponentiation : g.exponentiation.Spells
  unary : g.unary.Spells
  member : g.member.Spells
  leftHandSide : g.leftHandSide.Spells
  item : g.item.Directs
  subStatement : g.subStatement.Strictly

variable {g : Grammar} [hg : g.Spells]

instance : g.assignment.Spells := hg.assignment
instance : g.exponentiation.Spells := hg.exponentiation
instance : g.unary.Spells := hg.unary
instance : g.member.Spells := hg.member
instance : g.leftHandSide.Spells := hg.leftHandSide
instance : g.item.Directs := hg.item
instance : g.subStatement.Strictly := hg.subStatement

/-! ### Functions -/

instance : modifiesNext.Still := by
  refine .bind fun t => ?_
  cases t with
  | none => infer_instance
  | some t => simp only; split <;> infer_instance

instance (word : String) : (atModifier word).Still := by unfold atModifier; infer_instance

instance : atUseStrict.Still := by
  refine .bind fun t => ?_
  cases t <;> infer_instance

instance (f : FunctionDef) (kind : MethodKind) (l : Location) : (checkArity f kind l).Still := by
  unfold checkArity
  split <;> infer_instance

instance : checkNotField.Still := by unfold checkNotField; infer_instance

instance : g.formalParameters.Strictly := by
  refine .bind fun _ => .loop fun params => .bind fun _ => ?_
  split
  · infer_instance
  · refine .bind fun _ => .guard (.bind fun name => .bind fun _ => .guard ?_)
    exact .bind fun _ => .optional fun _ => inferInstance

instance : g.propertyName.Strictly := by
  refine ⟨fun c s => .bind .advance fun t s₁ htaken => ?_⟩
  have other {β : Type} {p : Parse β} [p.Strictly] (ht : t.kind ≠ .stringLiteral) :
      p.Yields c s₁ fun _ s' => ∃ used, s.Takes c.strict used s' :=
    Strictly.yields_after (.one htaken fun _ => Token.isStrict_of_kind ht)
  split
  · next hword =>
    refine other fun hkind => ?_
    rw [Token.isPropertyWord, hkind] at hword
    cases hword
  split
  · refine .bind (yields_stringValue t) fun units s₂ h => .pure ?_
    obtain ⟨rfl, hstrict⟩ := h
    exact ⟨[t], .one htaken hstrict⟩
  · next hkind =>
    have : (numericValue t >>= fun x => match x with
      | .bigInt i => pure (PropertyName.string (Units.ofString (IntegerFormat.write 10 i)))
      | .number x => pure (.number x)).Strictly := by
      refine .bind fun x => ?_
      cases x <;> infer_instance
    exact other (by simp [hkind])
  · next hkind =>
    have : (numericValue t >>= fun x => match x with
      | .bigInt i => pure (PropertyName.string (Units.ofString (IntegerFormat.write 10 i)))
      | .number x => pure (.number x)).Strictly := by
      refine .bind fun x => ?_
      cases x <;> infer_instance
    exact other (by simp [hkind])
  · next hkind => exact other (by simp [hkind])
  · exact .fail

theorem yields_atUseStrict {c : Surroundings} {s : ParseState} : atUseStrict.Yields c s
    fun b s' => s' = s ∧ (b = true → ∃ t, s.tokens.peek? = some t ∧ isUseStrict t = true) := by
  refine .bind (P := fun t s' => s' = s ∧ t = s.tokens.peek?)
    (fun _ _ heq => by cases heq; exact ⟨rfl, rfl⟩) fun t s' h => ?_
  obtain ⟨rfl, ht⟩ := h
  cases t with
  | none => exact .pure ⟨rfl, by simp⟩
  | some t => exact .pure ⟨rfl, fun hstrict => ⟨t, ht.symm, hstrict⟩⟩

/-- What is known of the tokens of a body as far as it has been read. -/
structure Prologue.Reads (strict : Bool) (q : Prologue) (used : List Token) : Prop where
  leading : q.leading = true → PrologueTokens used
  outer : strict = true → q.strict = true
  own : strict = false → q.strict = true → StrictFrom used

/-- One more statement is read, in code that is strict as the prologue so far tells. -/
theorem Prologue.Reads.next {strict : Bool} {q : Prologue} {used used' : List Token}
    (hq : q.Reads strict used) {t : Stmt} (hused' : q.strict = true → ∀ t ∈ used', t.IsStrict)
    (ht : isDirective t = true → DirectiveTokens used') {useStrict : Bool}
    (hnext : useStrict = true → ∀ d rest, used' = d :: rest → isUseStrict d = true) :
    Prologue.Reads strict ⟨t :: q.statements, q.leading && isDirective t,
      q.strict || (q.leading && isDirective t && useStrict)⟩ (used ++ used') := by
  refine ⟨fun hleading => ?_, fun hstrict => by simp [hq.outer hstrict], fun hsloppy hstrict => ?_⟩
  · rw [Bool.and_eq_true] at hleading
    exact .directive (hq.leading hleading.1) (ht hleading.2)
  · by_cases hbefore : q.strict = true
    · exact (hq.own hsloppy hbefore).append (hused' hbefore)
    · simp only [hbefore, Bool.false_or, Bool.and_eq_true] at hstrict
      obtain ⟨⟨hleading, hdirective⟩, huse⟩ := hstrict
      obtain ⟨d, rest, rfl⟩ := (ht hdirective).exists_cons
      have hd := hnext huse d rest rfl
      refine ⟨used, d, rest, rfl, hq.leading hleading, hd, fun u hu => ?_⟩
      rw [isUseStrict, Bool.and_eq_true, beq_iff_eq] at hd
      exact Token.isStrict_of_kind ((ht hdirective).head hd.1 u hu)

omit hg in
/-- The tokens of a body that is strict: all of them if the code around it is, and else those behind
its own directive. -/
theorem yields_body {item : Parse Stmt} [item.Directs] (c : Surroundings) (s : ParseState) :
    (g.body item).Yields c s fun r s' => ∃ used, s.Takes c.strict used s' ∧
      (c.strict = false → r.2 = true → StrictFrom used) := by
  refine .read (.loop (fun q s' => ∃ used, s.Takes c.strict used s' ∧ q.Reads c.strict used)
    (fun q s₁ h => ?_) ⟨[], .none rfl, fun _ => .nil, id, fun hsloppy hstrict => ?_⟩)
  · obtain ⟨used, htakes, hq⟩ := h
    refine .bind (Still.yields c s₁) fun _ s₂ h₂ => .bind (Still.yields c s₂) fun _ s₃ h₃ => ?_
    have hsame : s₃.tokens = s₁.tokens := h₃.trans h₂
    split
    · exact .pure ⟨used, ⟨hsame ▸ htakes.tokens, htakes.strictly⟩, hq.own⟩
    refine .bind yields_atUseStrict fun useStrict s₄ h₄ => ?_
    obtain ⟨rfl, hnext⟩ := h₄
    refine .bind (.withReader (Directs.yields _ s₄)) fun t s₅ h₅ => .pure ?_
    obtain ⟨used', htakes', hdirective⟩ := h₅
    refine ⟨used ++ used', ⟨?_, fun hstrict => ?_⟩, hq.next htakes'.strictly hdirective ?_⟩
    · rw [htakes.tokens, ← hsame, htakes'.tokens, List.append_assoc]
    · exact List.forall_mem_append.mpr
        ⟨htakes.strictly hstrict, htakes'.strictly (hq.outer hstrict)⟩
    · intro huse d rest hused
      obtain ⟨d', hd, hstrict⟩ := hnext huse
      rw [TokenStream.peek?_eq, htakes'.tokens, hused] at hd
      obtain rfl := Option.some.inj hd
      exact hstrict
  · exact absurd (hsloppy.symm.trans hstrict) (by decide)

instance : (g.body g.item).Strictly :=
  ⟨fun c s => (yields_body c s).mono fun _ _ h => ⟨h.choose, h.choose_spec.1⟩⟩

instance (name : Option String) (kind : FunctionKind) : (g.functionParts name kind).Strictly := by
  refine .bind fun _ => .bind fun _ => .bind fun _ => .bind fun r => .bind fun _ => ?_
  refine .bind fun _ => .guard ?_
  infer_instance

instance (name : Option String) (kind : FunctionKind) (start : Nat)
    (superProperty superCall : Bool) :
    (g.functionRest name kind start superProperty superCall).Strictly := by
  have : (withReader (fun c => { c with
      noIn := false, inFunction := true, inIteration := false, inSwitch := false, labels := []
      superProperty, superCall }) (g.functionParts name kind)).Strictly :=
    .withReader fun _ h => h
  unfold functionRest
  infer_instance

instance : g.functionExpression.Strictly := by
  refine .bind fun _ => .bind fun _ => .bind fun _ => .guard (.bind fun _ => ?_)
  infer_instance

instance : g.functionExpression.Never isString := by
  refine .after fun _ => .after fun _ => .after fun _ => .guard (.after fun _ => ?_)
  split <;> exact .after fun _ => .after fun _ => .pure rfl

instance : g.functionDeclaration.Strictly := by
  refine .bind fun _ => .bind fun _ => .bind fun _ => .guard (.bind fun _ => ?_)
  infer_instance

/-! ### Classes -/

end Grammar

namespace Parse

open Grammar

theorem yields_atModifier {c : Surroundings} {s : ParseState} (word : String) :
    (atModifier word).Yields c s fun b s' =>
      s'.tokens = s.tokens ∧ (b = true → s.tokens.peekKind? = some .identifier) := by
  refine .and (Still.yields c s) (.bind (yields_atWord word) fun b s₁ h => ?_)
  obtain ⟨rfl, hword⟩ := h
  split
  · next hb => exact Yields.any.mono fun _ _ _ _ => hword hb
  · exact .pure fun h => absurd h (by decide)

/-- A modifier is passed over where it is one. -/
theorem Strictly.modifier {β : Type} {word : String} {f : Bool → Unit → Parse β}
    {q : Bool → Parse β} (hf : ∀ b u, (f b u).Strictly) (hq : ∀ b, (q b).Strictly) :
    (atModifier word >>= fun b => if b = true then skip >>= f b else q b).Strictly := by
  refine ⟨fun c s => .bind (yields_atModifier word) fun b s₁ h => ?_⟩
  obtain ⟨htokens, hword⟩ := h
  have hnone : s.Takes c.strict [] s₁ := .none (by rw [htokens])
  split
  · next hb =>
    have hnext : s₁.tokens.peekKind? = some .identifier := htokens ▸ hword hb
    refine (yields_skip (hf b) hnext (by simp)).mono fun _ _ h => ?_
    obtain ⟨used, htakes⟩ := h
    exact ⟨[] ++ used, hnone.trans htakes⟩
  · exact Strictly.yields_after hnone

end Parse

namespace Grammar

variable {g : Grammar} [hg : g.Spells]

instance : elementModifiers.Strictly := by
  have accessor (isStatic : Bool) : (atModifier "get" >>= fun b =>
      if b = true then skip >>= fun _ => pure (isStatic, MethodKind.getter)
      else atModifier "set" >>= fun b =>
        if b = true then skip >>= fun _ => pure (isStatic, .setter)
        else pure (isStatic, .method)).Strictly :=
    .modifier (fun _ _ => inferInstance) fun _ => .modifier (fun _ _ => inferInstance) inferInstance
  refine .bind fun _ => .bind fun _ => .guard (.modifier (fun isStatic _ => ?_) fun isStatic => ?_)
  all_goals exact .bind fun _ => .guard (.bind fun _ => .guard (accessor isStatic))

/-- The element starts with the private name that is next. -/
theorem yields_privateElement {c : Surroundings} {s : ParseState} (start : Nat) (isStatic : Bool)
    (kind : MethodKind) (b : ClassBody) (h : s.tokens.peekKind? = some .privateName) :
    (g.privateElement start isStatic kind b).Yields c s fun _ s' =>
      ∃ used, s.Takes c.strict used s' := by
  obtain ⟨t, rest, hnext, hkind⟩ := TokenStream.exists_next h
  refine .bind .advance fun t' s₁ htaken => ?_
  obtain rfl : t = t' := (List.cons.inj (hnext.symm.trans htaken)).1
  dsimp only
  split
  · exact .fail
  split
  · exact .fail
  refine Strictly.yields_after (.one htaken fun _ => Token.isStrict_of_kind (by simp [hkind]))

instance (start : Nat) (isStatic : Bool) (kind : MethodKind) (derived : Bool) (b : ClassBody) :
    (g.publicElement start isStatic kind derived b).Strictly := by
  refine .bind fun _ => .bind fun _ => .bind fun _ => ?_
  split
  · exact .guard (.guard inferInstance)
  · exact .guard inferInstance

instance (derived : Bool) (b : ClassBody) : (g.classElement derived b).Strictly := by
  refine .bind fun start => .bind fun modifiers => ⟨fun c s => .bind .atKind fun private? s₁ h => ?_⟩
  obtain ⟨rfl, hkind⟩ := h
  split
  · next hprivate =>
    exact yields_privateElement _ _ _ _ (beq_iff_eq.mp (hkind.symm.trans hprivate))
  · exact Strictly.yields _ _

instance (derived : Bool) : (g.classElements derived).Strictly :=
  .loop fun _ => inferInstance

instance (derived : Bool) : (g.classBody derived).Strictly := by
  have : (withReader (fun c => { c with inClass := true }) (g.classElements derived)).Strictly :=
    .withReader fun _ h => h
  refine .bind fun _ => .bind fun _ => .bind fun b => .bind fun _ => .bind fun c => ?_
  split
  · infer_instance
  split
  · exact .bind fun _ => inferInstance
  · infer_instance

instance (isDeclaration : Bool) (start : Nat) : (g.classRest isDeclaration start).Strictly := by
  refine .bind fun _ => .bind fun _ => .guard ?_
  split
  all_goals
    refine .bind fun _ => .bind fun _ => ?_
    split <;> infer_instance

instance (isDeclaration : Bool) : (g.classDefinition isDeclaration).Strictly := by
  have (start : Nat) : (withReader (fun c => { c with strict := true })
      (g.classRest isDeclaration start)).Strictly :=
    .withReader fun _ _ => rfl
  unfold classDefinition
  infer_instance

/-! ### Property accesses, arguments and object literals -/

instance : g.nestedExpression.Spells := by
  refine .bind fun e => .still fun _ => .guard .pure

/-- Where no key comes, no token is taken. -/
theorem yields_memberKey? {c : Surroundings} {s : ParseState} : g.memberKey?.Yields c s
    fun key? s' => ∃ used, s.Takes c.strict used s' ∧ (key?.isNone = true → used = []) := by
  refine .bind .atKind fun chained s₁ h => ?_
  obtain ⟨rfl, -⟩ := h
  split
  · exact .fail
  refine .bind yields_eatKind fun bracketed s₂ h => ?_
  obtain ⟨hbracket, hno⟩ := h
  split
  · next hb =>
    obtain ⟨t, ht, htaken⟩ := hbracket hb
    refine .taken inferInstance (.after fun e => .after fun _ => .pure rfl) (.one htaken fun _ => ?_)
    exact Token.isStrict_of_kind (by simp [ht])
  next hb =>
  obtain rfl := hno (by simpa using hb)
  refine .bind yields_eatKind fun dotted s₃ h => ?_
  obtain ⟨hdot, hno⟩ := h
  split
  · next hb =>
    obtain rfl := hno (by simpa using hb)
    exact .pure ⟨[], .none rfl, fun _ => rfl⟩
  next hb =>
  obtain ⟨dot, hkind, hdot⟩ := hdot (by simpa using hb)
  refine .bind .advance fun t s₄ htaken => ?_
  have taken (ht : t.kind ≠ .stringLiteral) : s₂.Takes c.strict [dot, t] s₄ := by
    have hfirst : s₂.Takes c.strict [dot] s₃ :=
      .one hdot fun _ => Token.isStrict_of_kind (by simp [hkind])
    exact hfirst.trans (.one htaken fun _ => Token.isStrict_of_kind ht)
  split
  · next hword =>
    refine .taken inferInstance (.pure rfl) (taken fun hkind => ?_)
    rw [Token.isPropertyWord, hkind] at hword
    cases hword
  split
  · next hkind =>
    exact .taken inferInstance (.after fun _ => .pure rfl) (taken (by simp [beq_iff_eq.mp hkind]))
  · exact .fail

instance : g.memberKey?.Strictly :=
  ⟨fun _ _ => yields_memberKey?.mono fun _ _ h => ⟨h.choose, h.choose_spec.1⟩⟩

instance : g.arguments.Strictly := by
  have : (loop (fun args => do
      if ← eat .rightParen then return .done args.reverse
      if ← atPunct .ellipsis then unsupported "Spread arguments"
      let e ← g.assignment
      if !(← atPunct .rightParen) then expect .comma
      return .again (e :: args)) g.fuel [] : Parse (List Expr)).Strictly := by
    refine .loop fun args => .bind fun _ => ?_
    split
    · infer_instance
    · exact .bind fun _ => .guard (.bind fun _ => .bind fun _ => .optional fun _ => inferInstance)
  unfold Grammar.arguments
  infer_instance

instance : accessorModifier.Strictly :=
  .modifier (fun _ _ => inferInstance) fun _ => .modifier (fun _ _ => inferInstance) inferInstance

instance (start : Nat) (keyToken : Token) (key : PropertyName) :
    (g.propertyRest start keyToken key).Strictly := by
  refine .bind fun _ => ?_
  split
  · infer_instance
  refine .bind fun _ => ?_
  split
  · infer_instance
  split
  · refine .bind fun _ => .guard ?_
    split
    · infer_instance
    · exact .bind fun _ => .guard inferInstance
    · infer_instance
  · infer_instance

instance : g.objectProperty.Strictly := by
  refine .bind fun _ => .bind fun _ => .guard (.bind fun _ => .guard (.bind fun accessor => ?_))
  refine .bind fun keyToken => .bind fun key => ?_
  split <;> infer_instance

instance : g.objectLiteral.Strictly := by
  have : (loop (fun properties => do
      if ← eat .rightBrace then return .done (.object properties.reverse)
      let property ← g.objectProperty
      if !(← atPunct .rightBrace) then expect .comma
      return .again (property :: properties)) g.fuel [] : Parse Expr).Strictly := by
    refine .loop fun properties => .bind fun _ => ?_
    split
    · infer_instance
    · exact .bind fun _ => .bind fun _ => .optional fun _ => inferInstance
  unfold objectLiteral
  infer_instance

instance : g.objectLiteral.Never isString := by
  refine .after fun _ => ⟨fun c s => .withReader (.loop (fun _ _ => True) (fun _ _ _ => ?_) trivial)⟩
  refine .after fun _ _ => ?_
  split
  · exact .pure rfl
  · refine .after fun _ _ => .after fun _ _ => ?_
    split
    · exact .after fun _ _ => .pure trivial
    · exact .pure trivial

end Grammar

end Ecma
