import Ecma.Proofs.Syntax.Bare

/-! Productions are blind to positions: from the same tokens without positions, and with runs of
line terminators merged, they give the same tree without source texts, or the same error. -/

namespace Ecma

/-! ### Readings -/

/-- What a production sees of tokens: kinds and texts, with each run of line terminators as one
whose text does not matter. -/
def readings : List Token → List (TokenKind × String)
  | [] => []
  | t :: rest =>
    if t.isSignificant then (t.kind, t.text) :: readings rest
    else
      match readings rest with
      | (.lineTerminator, text) :: more => (.lineTerminator, text) :: more
      | more => (.lineTerminator, "") :: more

/-- What is left of a value without positions and source texts. -/
class Bare (α : Type) where
  bare : α → α

namespace Bare

instance : Bare Unit := ⟨id⟩
instance : Bare Bool := ⟨id⟩
instance : Bare String := ⟨id⟩
instance : Bare Units := ⟨id⟩
instance : Bare Numeric := ⟨id⟩
instance : Bare TokenKind := ⟨id⟩
instance : Bare VarKind := ⟨id⟩
instance : Bare UpdateOp := ⟨id⟩
instance : Bare MethodKind := ⟨id⟩
instance : Bare Location := ⟨fun _ => default⟩
instance : Bare Token := ⟨fun t => { t with location := default }⟩
instance : Bare Surroundings := ⟨fun c => { c with source := [] }⟩
instance : Bare Expr := ⟨Expr.bare⟩
instance : Bare MemberKey := ⟨MemberKey.bare⟩
instance : Bare PropertyName := ⟨PropertyName.bare⟩
instance : Bare PropertyDef := ⟨PropertyDef.bare⟩
instance : Bare FunctionDef := ⟨FunctionDef.bare⟩
instance : Bare ClassElement := ⟨ClassElement.bare⟩
instance : Bare ClassDef := ⟨ClassDef.bare⟩
instance : Bare Declarator := ⟨Declarator.bare⟩
instance : Bare ForInit := ⟨ForInit.bare⟩
instance : Bare SwitchCase := ⟨SwitchCase.bare⟩
instance : Bare Stmt := ⟨Stmt.bare⟩

variable {α β : Type} [Bare α] [Bare β]

instance : Bare (Option α) := ⟨Option.map bare⟩
instance : Bare (List α) := ⟨List.map bare⟩
instance : Bare (α × β) := ⟨Prod.map bare bare⟩

instance : Bare (Turn α β) :=
  ⟨fun
    | .again a => .again (bare a)
    | .done b => .done (bare b)⟩

instance : Bare Grammar.Prologue :=
  ⟨fun p => { p with statements := bare p.statements }⟩

instance : Bare Grammar.ClassBody :=
  ⟨fun b => { b with constructorDef := bare b.constructorDef, elements := bare b.elements }⟩

instance : Bare Program :=
  ⟨fun p => { p with body := bare p.body }⟩

end Bare

open Bare (bare)

@[simp] theorem Token.bare_kind (t : Token) : (bare t).kind = t.kind := rfl

@[simp] theorem Token.bare_text (t : Token) : (bare t).text = t.text := rfl

/-- The tokens without positions, with each run of line terminators as one. -/
def bareTokens (tokens : List Token) : List Token :=
  (readings tokens).map fun (kind, text) => ⟨kind, text, default⟩

theorem bareTokens_cons_significant {t : Token} (ht : t.isSignificant = true) (rest : List Token) :
    bareTokens (t :: rest) = bare t :: bareTokens rest := by
  simp only [bareTokens, readings, ht, if_true, List.map_cons]
  rfl

/-- A line terminator is put first, unless there is one. -/
theorem bareTokens_cons_terminator {t : Token} (ht : t.isSignificant = false) (rest : List Token) :
    bareTokens (t :: rest) = bareTokens rest ∨
      bareTokens (t :: rest) = ⟨.lineTerminator, "", default⟩ :: bareTokens rest := by
  simp only [bareTokens, readings, ht, Bool.false_eq_true, if_false]
  split
  · next heq => exact .inl (by rw [heq])
  · exact .inr rfl

theorem firstSignificant_bareTokens (tokens : List Token) :
    TokenStream.firstSignificant (bareTokens tokens) =
      (TokenStream.firstSignificant tokens).map fun (t, rest) => (bare t, bareTokens rest) := by
  induction tokens with
  | nil => rfl
  | cons t rest ih =>
    cases ht : t.isSignificant with
    | true =>
      have hbare : (bare t).isSignificant = true := ht
      simp only [bareTokens_cons_significant ht, TokenStream.firstSignificant, hbare, ht, if_true,
        Option.map_some]
    | false =>
      rw [TokenStream.firstSignificant, ht, if_neg Bool.false_ne_true, ← ih]
      rcases bareTokens_cons_terminator ht rest with heq | heq <;> rw [heq]
      rfl

theorem nthSignificant_cons_terminator {t : Token} (ht : t.isSignificant = false)
    (rest : List Token) (n : Nat) :
    TokenStream.nthSignificant (t :: rest) n = TokenStream.nthSignificant rest n := by
  cases n <;> simp [TokenStream.nthSignificant, ht]

theorem nthSignificant_bareTokens (tokens : List Token) (n : Nat) :
    TokenStream.nthSignificant (bareTokens tokens) n =
      (TokenStream.nthSignificant tokens n).map bare := by
  induction tokens generalizing n with
  | nil => rfl
  | cons t rest ih =>
    cases ht : t.isSignificant with
    | true =>
      have hbare : (bare t).isSignificant = true := ht
      simp only [bareTokens_cons_significant ht, TokenStream.nthSignificant, hbare, ht, if_true]
      cases n with
      | zero => rfl
      | succ n => exact ih n
    | false =>
      rw [nthSignificant_cons_terminator ht, ← ih]
      rcases bareTokens_cons_terminator ht rest with heq | heq <;> rw [heq]
      exact nthSignificant_cons_terminator rfl _ n

theorem countP_bareTokens (tokens : List Token) :
    (bareTokens tokens).countP Token.isSignificant = tokens.countP Token.isSignificant := by
  induction tokens with
  | nil => rfl
  | cons t rest ih =>
    cases ht : t.isSignificant with
    | true =>
      have hbare : (bare t).isSignificant = true := ht
      rw [bareTokens_cons_significant ht, List.countP_cons_of_pos hbare, List.countP_cons_of_pos ht,
        ih]
    | false =>
      rw [List.countP_cons_of_neg (by simp [ht]), ← ih]
      rcases bareTokens_cons_terminator ht rest with heq | heq <;> rw [heq]
      exact List.countP_cons_of_neg (by decide)

/-- The first token is a line terminator or not, as before. -/
theorem head_bareTokens (tokens : List Token) :
    ((bareTokens tokens).head?.map Token.kind == some .lineTerminator) =
      (tokens.head?.map Token.kind == some .lineTerminator) := by
  cases tokens with
  | nil => rfl
  | cons t rest =>
    cases ht : t.isSignificant with
    | true => rw [bareTokens_cons_significant ht]; rfl
    | false =>
      have hkind : t.kind = .lineTerminator := by simpa [Token.isSignificant] using ht
      simp only [bareTokens, readings, ht, Bool.false_eq_true, if_false, List.head?_cons,
        Option.map_some, hkind]
      split <;> rfl

/-! ### Blindness -/

/-- The state has what is left of another one. -/
structure ParseState.Shadows (s₀ s : ParseState) : Prop where
  rest : s₀.tokens.rest = bareTokens s.tokens.rest
  finish : s₀.tokens.finish = default
  references : s₀.references.map Prod.fst = s.references.map Prod.fst
  declared : s₀.declared = s.declared
  omitted : s₀.omitted.map TokenStream.remaining = s.omitted.map TokenStream.remaining

namespace Parse

variable {α β : Type} [Bare α] [Bare β]

/-- What an outcome leaves, and the other outcome, which has what is left of it. -/
inductive Shadows : Except ParseFailure (α × ParseState) → Except ParseFailure (α × ParseState) →
    Prop
  | ok {a : α} {s s₀ : ParseState} (hs : s₀.Shadows s) : Shadows (.ok (bare a, s₀)) (.ok (a, s))
  | rejected {kind : SyntaxErrorKind} {location location₀ : Location} :
    Shadows (.error (.rejected ⟨kind, location₀⟩)) (.error (.rejected ⟨kind, location⟩))
  | exhausted : Shadows (.error .exhausted) (.error .exhausted)

/-- From what is left of a state, `x₀` gives what is left of what `x` gives. -/
class Blind (x x₀ : Parse α) : Prop where
  shadows : ∀ (c : Surroundings) {s s₀ : ParseState}, s₀.Shadows s → Shadows (x₀ (bare c) s₀) (x c s)

variable {x x₀ : Parse α}

theorem Blind.pure {a a₀ : α} (h : a₀ = bare a) : Blind (pure a) (pure a₀) :=
  ⟨fun _ _ _ hs => h ▸ .ok hs⟩

theorem Blind.andThen {f f₀ : α → Parse β} (hx : Blind x x₀)
    (hf : ∀ a, Blind (f a) (f₀ (bare a))) : Blind (x >>= f) (x₀ >>= f₀) := by
  refine ⟨fun c s s₀ hs => ?_⟩
  have h := hx.shadows c hs
  change Shadows ((x₀ (bare c) s₀).bind fun r => f₀ r.1 (bare c) r.2)
    ((x c s).bind fun r => f r.1 c r.2)
  revert h
  generalize x c s = result
  generalize x₀ (bare c) s₀ = result₀
  intro h
  cases h with
  | ok hs => exact (hf _).shadows c hs
  | rejected => exact .rejected
  | exhausted => exact .exhausted

theorem Blind.bind {f f₀ : α → Parse β} [hx : Blind x x₀]
    (hf : ∀ a, Blind (f a) (f₀ (bare a))) : Blind (x >>= f) (x₀ >>= f₀) :=
  hx.andThen hf

instance {f f₀ : α → Parse β} [Blind x x₀] [hf : ∀ a, Blind (f a) (f₀ (bare a))] :
    Blind (x >>= f) (x₀ >>= f₀) :=
  .bind hf

/-- A condition that is the same in both runs. -/
theorem Blind.ite {b : Prop} [Decidable b] {y y₀ : Parse α} (hx : Blind x x₀) (hy : Blind y y₀) :
    Blind (if b then x else y) (if b then x₀ else y₀) := by
  split
  · exact hx
  · exact hy

theorem Blind.unless {b : Prop} [Decidable b] {y y₀ : Parse α} [hx : Blind x x₀]
    (hy : Blind y y₀) : Blind (if b then x else y) (if b then x₀ else y₀) :=
  hx.ite hy

instance {b : Prop} [Decidable b] {y y₀ : Parse α} [Blind x x₀] [hy : Blind y y₀] :
    Blind (if b then x else y) (if b then x₀ else y₀) :=
  .unless hy

theorem Blind.map {f : α → β} [Blind x x₀] (hf : ∀ a, f (bare a) = bare (f a)) :
    Blind (f <$> x) (f <$> x₀) := by
  rw [map_eq_pure_bind, map_eq_pure_bind]
  exact .bind fun a => .pure (hf a)

/-- Values that have no positions and source texts. -/
class Rigid (α : Type) [Bare α] : Prop where
  bare_eq : ∀ a : α, bare a = a

@[simp] theorem bare_of_rigid [Rigid α] (a : α) : bare a = a := Rigid.bare_eq a

@[simp] theorem bare_pair (a : α) (b : β) : bare (a, b) = (bare a, bare b) := rfl

@[simp] theorem bare_again (a : α) : bare (.again a : Turn α β) = .again (bare a) := rfl

@[simp] theorem bare_done (b : β) : bare (.done b : Turn α β) = .done (bare b) := rfl

@[simp] theorem bare_cons (a : α) (l : List α) : bare (a :: l) = bare a :: bare l := rfl

@[simp] theorem bare_reverse (l : List α) : bare l.reverse = (bare l).reverse := List.map_reverse

instance : Rigid Unit := ⟨fun _ => rfl⟩
instance : Rigid Bool := ⟨fun _ => rfl⟩
instance : Rigid String := ⟨fun _ => rfl⟩
instance : Rigid Units := ⟨fun _ => rfl⟩
instance : Rigid Numeric := ⟨fun _ => rfl⟩
instance : Rigid TokenKind := ⟨fun _ => rfl⟩
instance : Rigid VarKind := ⟨fun _ => rfl⟩
instance : Rigid UpdateOp := ⟨fun _ => rfl⟩
instance : Rigid MethodKind := ⟨fun _ => rfl⟩

instance [Rigid α] : Rigid (Option α) :=
  ⟨fun a => by cases a <;> simp [bare]⟩

instance [Rigid α] : Rigid (List α) :=
  ⟨fun a => (List.map_congr_left fun _ _ => Rigid.bare_eq _).trans a.map_id⟩

instance [Rigid α] [Rigid β] : Rigid (α × β) :=
  ⟨fun a => by simp [bare, Prod.map]⟩

instance [Rigid α] [Rigid β] : Rigid (Turn α β) :=
  ⟨fun a => by cases a <;> simp [bare]⟩

instance [Rigid α] (a : α) : Blind (pure a) (pure a) :=
  .pure (Rigid.bare_eq a).symm

/-- A bound value without positions is the same in both runs. -/
theorem Blind.same [Rigid α] {f f₀ : α → Parse β} [Blind x x₀]
    (hf : ∀ a, Blind (f a) (f₀ a)) : Blind (x >>= f) (x₀ >>= f₀) :=
  .bind fun a => (Rigid.bare_eq a).symm ▸ hf a

instance (priority := high) [Rigid α] {f f₀ : α → Parse β} [Blind x x₀]
    [hf : ∀ a, Blind (f a) (f₀ a)] : Blind (x >>= f) (x₀ >>= f₀) :=
  .same hf

/-- Two ways to the same rest. -/
theorem Blind.branch [Rigid α] {b : Prop} [Decidable b] {y y₀ : Parse α} {f f₀ : α → Parse β}
    [Blind x x₀] [Blind y y₀] (hf : ∀ a, Blind (f a) (f₀ a)) :
    Blind (if b then x >>= f else y >>= f) (if b then x₀ >>= f₀ else y₀ >>= f₀) :=
  .ite (.same hf) (.same hf)

/-- A step that is taken or left out. -/
theorem Blind.optionally {b : Prop} [Decidable b] {x x₀ : Parse Unit} {f f₀ : Unit → Parse β}
    [Blind x x₀] (hf : ∀ a, Blind (f a) (f₀ a)) :
    Blind (if b then x >>= f else f ()) (if b then x₀ >>= f₀ else f₀ ()) :=
  .ite (.same hf) (hf ())

instance [Rigid α] [Rigid β] {f : α → β} [Blind x x₀] : Blind (f <$> x) (f <$> x₀) :=
  .map fun a => by rw [Rigid.bare_eq, Rigid.bare_eq]

theorem Blind.option {x x₀ : Parse (Option α)} {f f₀ : Option α → Parse β} [Blind x x₀]
    (hnone : Blind (f none) (f₀ none)) (hsome : ∀ a, Blind (f (some a)) (f₀ (some (bare a)))) :
    Blind (x >>= f) (x₀ >>= f₀) := by
  refine .bind fun a => ?_
  cases a with
  | none => exact hnone
  | some a => exact hsome a

/-- The state is read where it is used. -/
theorem Blind.ofState {f f₀ : ParseState → Parse α}
    (h : ∀ (c : Surroundings) {s s₀ : ParseState}, s₀.Shadows s →
      Shadows (f₀ s₀ (bare c) s₀) (f s c s)) : Blind (get >>= f) (get >>= f₀) :=
  ⟨fun c _ _ hs => h c hs⟩

/-! ### Errors and tokens -/

instance (kind : SyntaxErrorKind) (location location₀ : Location) :
    Blind (failAt kind location : Parse α) (failAt kind location₀) :=
  ⟨fun _ _ _ _ => .rejected⟩

instance : Blind (throw .exhausted : Parse α) (throw .exhausted) :=
  ⟨fun _ _ _ _ => .exhausted⟩

/-- Nothing comes after an error. -/
instance (priority := high) (kind : SyntaxErrorKind) (location location₀ : Location) {f f₀ : α → Parse β} :
    Blind (failAt kind location >>= f) (failAt kind location₀ >>= f₀) :=
  ⟨fun _ _ _ _ => .rejected⟩

/-- What is read from the state is what is left of it. -/
theorem Blind.reads {f : ParseState → α}
    (h : ∀ {s s₀ : ParseState}, s₀.Shadows s → f s₀ = bare (f s)) :
    Blind (do return f (← get)) (do return f (← get)) := by
  refine .ofState fun c s s₀ hs => ?_
  rw [h hs]
  exact .ok hs

theorem Shadows.peek? {s s₀ : ParseState} (h : s₀.Shadows s) :
    s₀.tokens.peek? = bare s.tokens.peek? := by
  rw [TokenStream.peek?, h.rest, firstSignificant_bareTokens, Option.map_map]
  simp only [bare, TokenStream.peek?, Option.map_map]
  rfl

theorem Shadows.peekKind? {s s₀ : ParseState} (h : s₀.Shadows s) :
    s₀.tokens.peekKind? = s.tokens.peekKind? := by
  rw [TokenStream.peekKind?, Shadows.peek? h]
  simp only [bare, TokenStream.peekKind?, Option.map_map]
  rfl

instance : Blind Parse.location Parse.location := by
  refine .reads fun {s s₀} h => ?_
  rw [TokenStream.location, Shadows.peek? h, h.finish]
  cases s.tokens.peek? <;> rfl

instance : Blind Parse.peek? Parse.peek? :=
  .reads Shadows.peek?

instance : Blind Parse.peekKind? Parse.peekKind? :=
  .reads fun h => (Shadows.peekKind? h).trans (Rigid.bare_eq _).symm

instance : Blind atEnd atEnd := by
  refine .reads fun {s s₀} h => ?_
  rw [TokenStream.isAtEnd, Shadows.peek? h, TokenStream.isAtEnd]
  cases s.tokens.peek? <;> rfl

instance : Blind Parse.lineTerminatorBefore Parse.lineTerminatorBefore := by
  have heq (s : TokenStream) :
      s.lineTerminatorBefore = (s.rest.head?.map Token.kind == some .lineTerminator) := by
    rw [TokenStream.lineTerminatorBefore]
    cases s.rest <;> rfl
  refine .reads fun {s s₀} h => ?_
  rw [heq, heq, h.rest, head_bareTokens]
  rfl

instance (kind : TokenKind) : Blind (atKind kind) (atKind kind) := by
  refine .reads fun h => ?_
  rw [TokenStream.check, Shadows.peekKind? h]
  rfl

instance (p : Punctuator) : Blind (atPunct p) (atPunct p) := by unfold atPunct; infer_instance

instance (k : Keyword) : Blind (atKeyword k) (atKeyword k) := by unfold atKeyword; infer_instance

instance (n : Nat) : Blind (Parse.peekNth? n) (Parse.peekNth? n) := by
  refine .reads fun h => ?_
  rw [TokenStream.peekNth?, h.rest, nthSignificant_bareTokens]
  rfl

instance (n : Nat) (p : Punctuator) : Blind (nthIs n p) (nthIs n p) := by
  unfold nthIs
  refine .bind fun t => .pure ?_
  cases t <;> rfl

instance (kind : SyntaxErrorKind) : Blind (fail kind : Parse α) (fail kind) := by
  unfold fail; infer_instance

instance (construct : String) : Blind (unsupported construct : Parse α) (unsupported construct) := by
  unfold unsupported; infer_instance

instance (t : Token) : Blind (unexpectedToken t : Parse α) (unexpectedToken (bare t)) :=
  inferInstanceAs (Blind (failAt _ _) (failAt (.unexpectedToken t.shown) _))

instance (priority := high) (kind : SyntaxErrorKind) {f f₀ : α → Parse β} :
    Blind (fail kind >>= f) (fail kind >>= f₀) := by
  simp only [fail, bind_assoc]; infer_instance

instance (priority := high) (construct : String) {f f₀ : α → Parse β} :
    Blind (unsupported construct >>= f) (unsupported construct >>= f₀) := by
  unfold unsupported; infer_instance

instance (priority := high) (t : Token) {f f₀ : α → Parse β} :
    Blind (unexpectedToken t >>= f) (unexpectedToken (bare t) >>= f₀) :=
  inferInstanceAs (Blind (failAt _ _ >>= _) (failAt (.unexpectedToken t.shown) _ >>= _))

instance : Blind (unexpected : Parse α) unexpected :=
  .option (inferInstanceAs (Blind (fail _) (fail .unexpectedEnd))) fun t =>
    inferInstanceAs (Blind (unexpectedToken t) _)

instance (priority := high) {f f₀ : α → Parse β} :
    Blind (unexpected >>= f) (unexpected >>= f₀) := by
  simp only [unexpected, bind_assoc]
  refine .option ?_ fun t => ?_ <;> exact inferInstance

instance : Blind Parse.peek Parse.peek :=
  .option (inferInstanceAs (Blind (fail _) (fail .unexpectedEnd))) fun _ =>
    .pure rfl

instance (word : String) : Blind (atWord word) (atWord word) :=
  .option (.pure rfl) fun _ => .pure rfl

/-- Taking a token from both streams. -/
theorem Shadows.next? {s s₀ : ParseState} (h : s₀.Shadows s) :
    (s.tokens.next? = none ∧ s₀.tokens.next? = none) ∨
      ∃ t tokens tokens₀, s.tokens.next? = some (t, tokens) ∧
        s₀.tokens.next? = some (bare t, tokens₀) ∧
        ParseState.Shadows { s₀ with tokens := tokens₀ } { s with tokens } := by
  simp only [TokenStream.next?, h.rest, firstSignificant_bareTokens, Option.map_map]
  cases TokenStream.firstSignificant s.tokens.rest with
  | none => exact .inl ⟨rfl, rfl⟩
  | some r => exact .inr ⟨r.1, _, _, rfl, rfl, ⟨rfl, h.finish, h.references, h.declared, h.omitted⟩⟩

instance : Blind advance advance := by
  refine .ofState fun c s s₀ hs => ?_
  obtain ⟨h, h₀⟩ | ⟨t, tokens, tokens₀, h, h₀, hnext⟩ := Shadows.next? hs <;> rw [h, h₀]
  · exact Blind.shadows (x := fail .unexpectedEnd) c hs
  · exact .ok hnext

instance : Blind Parse.skip Parse.skip := by
  refine .ofState fun c s s₀ hs => ?_
  obtain ⟨h, h₀⟩ | ⟨t, tokens, tokens₀, h, h₀, hnext⟩ := Shadows.next? hs <;> rw [h, h₀]
  · exact .ok hs
  · exact .ok hnext

instance (kind : TokenKind) : Blind (eatKind kind) (eatKind kind) := by
  unfold eatKind; infer_instance

instance (p : Punctuator) : Blind (eat p) (eat p) := by unfold eat; infer_instance

instance (k : Keyword) : Blind (eatKeyword k) (eatKeyword k) := by unfold eatKeyword; infer_instance

instance (p : Punctuator) : Blind (expect p) (expect p) := by unfold expect; infer_instance

instance (k : Keyword) : Blind (expectKeyword k) (expectKeyword k) := by
  unfold expectKeyword; infer_instance

theorem Shadows.remaining {s s₀ : ParseState} (h : s₀.Shadows s) :
    s₀.tokens.remaining = s.tokens.remaining := by
  rw [TokenStream.remaining, h.rest, countP_bareTokens, TokenStream.remaining]

instance : Blind varNames varNames :=
  .reads fun h => h.declared.trans (Rigid.bare_eq _).symm

instance (names : List String) :
    Blind (modify fun s => { s with declared := names } : Parse Unit)
      (modify fun s => { s with declared := names }) :=
  ⟨fun _ _ _ hs => .ok ⟨hs.rest, hs.finish, hs.references, rfl, hs.omitted⟩⟩

instance (name : String) : Blind (declareVar name) (declareVar name) :=
  ⟨fun _ _ _ hs => .ok ⟨hs.rest, hs.finish, hs.references,
    congrArg (addName · name) hs.declared, hs.omitted⟩⟩

instance : Blind omitSemicolon omitSemicolon := by
  refine ⟨fun _ s s₀ hs => .ok ⟨hs.rest, hs.finish, hs.references, hs.declared, ?_⟩⟩
  simp only [List.map_cons, Shadows.remaining hs, hs.omitted]

instance : Blind semicolon semicolon := by unfold semicolon; infer_instance

/-- The source text is lost. -/
theorem Blind.ofSource {f f₀ : String → Parse α} (hf : ∀ source, Blind (f source) (f₀ ""))
    (start start₀ : Nat) : Blind (sourceSince start >>= f) (sourceSince start₀ >>= f₀) := by
  refine ⟨fun c s s₀ hs => ?_⟩
  have hempty : slice start₀ s₀.tokens.previousEnd 0 [] = [] := rfl
  exact (hf _).shadows c hs

/-! ### Surroundings -/

/-- What is known of the surroundings besides the source text is the same in both runs. -/
theorem Blind.ofSurroundings {f f₀ : Surroundings → Parse α} (h : ∀ c, Blind (f c) (f₀ (bare c))) :
    Blind (read >>= f) (read >>= f₀) :=
  ⟨fun c _ _ hs => (h c).shadows c hs⟩

theorem Blind.within {φ φ₀ : Surroundings → Surroundings} (hx : Blind x x₀)
    (h : ∀ c, φ₀ (bare c) = bare (φ c)) : Blind (withReader φ x) (withReader φ₀ x₀) := by
  refine ⟨fun c s s₀ hs => ?_⟩
  have hinner := hx.shadows (φ c) hs
  rw [← h] at hinner
  exact hinner

instance : Blind strict strict :=
  .ofSurroundings fun _ => .pure rfl

theorem Blind.allowIn (hx : Blind x x₀) : Blind (allowIn x) (Parse.allowIn x₀) :=
  hx.within fun _ => rfl

instance [hx : Blind x x₀] : Blind (allowIn x) (allowIn x₀) :=
  hx.allowIn

theorem Blind.loop {turn turn₀ : α → Parse (Turn α β)}
    (h : ∀ a, Blind (turn a) (turn₀ (bare a))) (fuel : Nat) (a : α) :
    Blind (Parse.loop turn fuel a) (Parse.loop turn₀ fuel (bare a)) := by
  induction fuel generalizing a with
  | zero => exact inferInstanceAs (Blind (throw .exhausted : Parse β) (throw .exhausted))
  | succ fuel ih =>
    refine .andThen (h a) fun t => ?_
    cases t with
    | again a => exact ih a
    | done b => exact .pure rfl

theorem Blind.loop_same [Rigid α] {turn turn₀ : α → Parse (Turn α β)}
    (h : ∀ a, Blind (turn a) (turn₀ a)) (fuel : Nat) (a : α) :
    Blind (Parse.loop turn fuel a) (Parse.loop turn₀ fuel a) := by
  have hloop : Blind (Parse.loop turn fuel a) (Parse.loop turn₀ fuel (bare a)) :=
    .loop (fun a => (Rigid.bare_eq a).symm ▸ h a) fuel a
  rwa [Rigid.bare_eq] at hloop

/-! ### Identifiers, literals and early errors -/

instance (t : Token) : Blind (checkReference t) (checkReference (bare t)) := by
  unfold checkReference; infer_instance

instance (name : String) (location location₀ : Location) :
    Blind (checkBinding name location) (checkBinding name location₀) := by
  unfold checkBinding; infer_instance

instance : Blind bindingIdentifier bindingIdentifier := by
  refine .bind fun t => ?_
  simp only [Token.bare_kind, Token.bare_text]
  split <;> infer_instance

instance (t : Token) : Blind (stringValue t) (stringValue (bare t)) := by
  refine .same fun isStrict => ?_
  rw [Token.bare_text]
  cases StringLiteral.value isStrict t.text with
  | ok s => exact .pure rfl
  | error e => exact inferInstance

instance (t : Token) : Blind (numericValue t) (numericValue (bare t)) := by
  unfold numericValue; infer_instance

theorem varNamesOf_bare (body : List Stmt) : Stmt.varNamesOf (bare body) = Stmt.varNamesOf body := by
  rw [show bare body = body.map Stmt.bare from rfl, ← Stmt.bareAll_eq, Stmt.varNamesOf_bareAll]

theorem clash?_bare (topLevel : Bool) (taken : List String) (body : List Stmt) :
    clash? topLevel taken (bare body) = clash? topLevel taken body := by
  have hfunctions : (Stmt.functionsOf (bare body)).filterMap FunctionDef.name =
      (Stmt.functionsOf body).filterMap FunctionDef.name := by
    rw [show bare body = body.map Stmt.bare from rfl, Stmt.functionsOf_bare, List.filterMap_map]
    exact List.filterMap_congr fun f _ => f.bare_name
  rw [clash?, hfunctions, show bare body = body.map Stmt.bare from rfl, Stmt.lexicalNamesOf_bare,
    Stmt.declaredNames_bare, clash?]

instance (topLevel : Bool) (taken : List String) (body : List Stmt) :
    Blind (checkDeclarations topLevel taken body) (checkDeclarations topLevel taken (bare body)) := by
  unfold checkDeclarations
  rw [clash?_bare]
  split <;> infer_instance

instance (e : Expr) (location location₀ : Location) :
    Blind (checkTarget e location) (checkTarget (bare e) location₀) := by
  unfold checkTarget
  cases e <;> dsimp only [bare, Expr.bare] <;> infer_instance

instance (first : Bool) (e : Expr) (location location₀ : Location) :
    Blind (checkUpdateTarget first e location) (checkUpdateTarget first (bare e) location₀) := by
  have htarget : Blind (checkTarget e location) (checkTarget (bare e) location₀) := inferInstance
  unfold checkUpdateTarget
  cases e <;> first | exact htarget | exact inferInstanceAs (Blind (failAt _ _) (failAt _ _))

instance (name : String) (location location₀ : Location) :
    Blind (referPrivate name location) (referPrivate name location₀) := by
  refine .ofSurroundings fun c => ?_
  change Blind (if c.inClass = true then _ else _) (if c.inClass = true then _ else _)
  split
  · refine ⟨fun _ s s₀ hs => .ok ⟨hs.rest, hs.finish, ?_, hs.declared, hs.omitted⟩⟩
    simp only [List.map_append, hs.references, List.map_cons, List.map_nil]
  · infer_instance

end Parse

end Ecma
