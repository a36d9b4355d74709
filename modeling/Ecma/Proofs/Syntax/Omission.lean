import Ecma.Proofs.Syntax.Spelling

/-! Where semicolons are left out: at the end of a statement, so never before a production has taken
a token of its own. -/

namespace Ecma

namespace TokenStream

/-- Tokens are taken one by one, up to a later stream. -/
inductive Reaches (s : TokenStream) : TokenStream → Prop
  | refl : Reaches s s
  | next {s' s'' : TokenStream} {t : Token} (h : Reaches s s') (ht : s'.next? = some (t, s'')) :
    Reaches s s''

theorem Reaches.trans {s s' s'' : TokenStream} (h : s.Reaches s') (h' : s'.Reaches s'') :
    s.Reaches s'' := by
  induction h' with
  | refl => exact h
  | next _ ht ih => exact ih.next ht

theorem remaining_eq (s : TokenStream) : s.remaining = s.significant.length :=
  List.countP_eq_length_filter

theorem remaining_of_next? {s s' : TokenStream} {t : Token} (h : s.next? = some (t, s')) :
    s.remaining = s'.remaining + 1 := by
  rw [remaining_eq, next?_eq_some h, remaining_eq, List.length_cons]

end TokenStream

namespace ParseState

/-- At least `taken` tokens are taken, and each semicolon that is left out is left out behind at
least `first` of them. -/
structure Moves (taken first : Nat) (before after : ParseState) : Prop where
  reaches : before.tokens.Reaches after.tokens
  remaining : after.tokens.remaining + taken ≤ before.tokens.remaining
  omitted : ∀ o ∈ after.omitted, o ∈ before.omitted ∨
    before.tokens.Reaches o ∧ o.remaining + first ≤ before.tokens.remaining

variable {s s' s'' : ParseState} {m n k l : Nat}

/-- The tokens stay where they are. -/
theorem Moves.still (htokens : s'.tokens = s.tokens) (homitted : s'.omitted = s.omitted) :
    s.Moves 0 n s' :=
  ⟨htokens ▸ .refl, htokens ▸ Nat.le_refl _, fun _ ho => .inl (homitted ▸ ho)⟩

theorem Moves.refl (n : Nat) (s : ParseState) : s.Moves 0 n s :=
  .still rfl rfl

/-- One token is taken. -/
theorem Moves.next {t : Token} {tokens : TokenStream} (h : s.tokens.next? = some (t, tokens))
    (n : Nat) : s.Moves 1 n { s with tokens } :=
  ⟨.next .refl h, Nat.le_of_eq (TokenStream.remaining_of_next? h).symm, fun _ ho => .inl ho⟩

theorem Moves.mono (h : s.Moves m n s') {m' n' : Nat} (hm : m' ≤ m) (hn : n' ≤ n) :
    s.Moves m' n' s' := by
  refine ⟨h.reaches, by have := h.remaining; omega, fun o ho => ?_⟩
  exact (h.omitted o ho).imp_right fun ho => ⟨ho.1, by have := ho.2; omega⟩

theorem Moves.trans (h : s.Moves m n s') (h' : s'.Moves k l s'') :
    s.Moves (m + k) (min n (m + l)) s'' := by
  have hfirst := h.remaining
  have hsecond := h'.remaining
  refine ⟨h.reaches.trans h'.reaches, by omega, fun o ho => ?_⟩
  rcases h'.omitted o ho with ho | ⟨hreaches, ho⟩
  · exact (h.omitted o ho).imp_right fun ho => ⟨ho.1, by have := ho.2; omega⟩
  · exact .inr ⟨h.reaches.trans hreaches, by omega⟩

end ParseState

namespace Parse

variable {α β : Type} {p q : Parse α} {c : Surroundings} {s : ParseState} {m n : Nat}

/-- A production takes at least `taken` tokens, and leaves no semicolon out before it has taken
`first` tokens. -/
class Moves (p : Parse α) (taken first : Nat) : Prop where
  yields : ∀ c s, p.Yields c s fun _ s' => s.Moves taken first s'

theorem Moves.mono (h : p.Moves m n) {m' n' : Nat} (hm : m' ≤ m) (hn : n' ≤ n) :
    p.Moves m' n' :=
  ⟨fun c s => (h.yields c s).mono fun _ _ h => h.mono hm hn⟩

theorem Moves.bind {f : α → Parse β} {m' n' : Nat} (hp : p.Moves m n)
    (hf : ∀ a, (f a).Moves m' n') : (p >>= f).Moves (m + m') (min n (m + n')) :=
  ⟨fun c s => .bind (hp.yields c s) fun a s' h =>
    ((hf a).yields c s').mono fun _ _ h' => h.trans h'⟩

instance (priority := low) [p.Fails] : p.Moves m n :=
  ⟨fun _ _ => .fail⟩

/-- What takes no token and changes nothing else leaves the state as it is. -/
theorem Yields.unmoved [p.Plain] [p.Still] : p.Yields c s fun _ s' => s' = s :=
  ((Plain.yields c s).and (Still.yields c s)).mono fun _ _ h => h.1.rest.trans (by rw [h.2])

instance (priority := low) [p.Plain] [p.Still] : p.Moves 0 n :=
  ⟨fun _ s => Yields.unmoved.mono fun _ _ h => h ▸ .refl n s⟩

instance (priority := low) [h : p.Moves 0 1] : p.Moves 0 0 :=
  h.mono (Nat.le_refl _) (Nat.zero_le _)

instance (priority := low) [h : p.Moves 1 1] : p.Moves 0 1 :=
  h.mono (Nat.zero_le _) (Nat.le_refl _)

section

variable {f : α → Parse β}

theorem Moves.step [p.Moves 0 n] (hf : ∀ a, (f a).Moves 0 n) : (p >>= f).Moves 0 n := by
  have hbind := Moves.bind (p := p) (m := 0) (n := n) inferInstance hf
  rwa [Nat.zero_add, Nat.zero_add, Nat.min_self] at hbind

/-- The first token is taken by the first step. -/
theorem Moves.first [p.Moves 1 1] (hf : ∀ a, (f a).Moves 0 0) : (p >>= f).Moves 1 1 :=
  Moves.bind (m := 1) (n := 1) inferInstance hf

/-- The first token is taken by a later step. -/
theorem Moves.later [p.Moves 0 1] (hf : ∀ a, (f a).Moves 1 1) : (p >>= f).Moves 1 1 :=
  Moves.bind (m := 0) (n := 1) inferInstance hf

instance [p.Moves 0 n] [hf : ∀ a, (f a).Moves 0 n] : (p >>= f).Moves 0 n :=
  .step hf

instance [p.Moves 0 1] [hf : ∀ a, (f a).Moves 1 1] : (p >>= f).Moves 1 1 :=
  .later hf

instance [p.Moves 1 1] [hf : ∀ a, (f a).Moves 0 0] : (p >>= f).Moves 1 1 :=
  .first hf

end

instance {b : Prop} [Decidable b] [p.Moves m n] [q.Moves m n] : (if b then p else q).Moves m n := by
  split <;> infer_instance

instance {f : α → β} [p.Moves m n] : (f <$> p).Moves m n :=
  ⟨fun c s => .map (Moves.yields c s)⟩

instance {φ : Surroundings → Surroundings} [h : p.Moves m n] :
    (withReader φ p : Parse α).Moves m n :=
  ⟨fun c s => h.yields (φ c) s⟩

instance [p.Moves m n] : p.allowIn.Moves m n :=
  inferInstanceAs ((withReader _ p : Parse α).Moves m n)

/-- A check that rejects the text, or passes. -/
theorem Moves.guard {b : Prop} [Decidable b] {f : α → Parse β} {q : Parse β} [p.Fails]
    (hq : q.Moves m n) : (if b then p >>= f else q).Moves m n := by
  split <;> infer_instance

/-- A step that is left out in some cases. -/
theorem Moves.optional {b : Prop} [Decidable b] {p : Parse Unit} {f : Unit → Parse β} [p.Moves 0 n]
    (hf : ∀ u, (f u).Moves 0 n) : (if b then p >>= f else f ()).Moves 0 n := by
  split
  · infer_instance
  · exact hf ()

theorem Moves.loop {turn : α → Parse (Turn α β)} (h : ∀ a, (turn a).Moves 0 n) {fuel : Nat}
    {a : α} : (Parse.loop turn fuel a).Moves 0 n := by
  refine ⟨fun c s => .loop (fun _ s' => s.Moves 0 n s') (fun a s' hs => ?_) (.refl n s)⟩
  refine ((h a).yields c s').mono fun t s'' h => ?_
  have hmoves := hs.trans h
  rw [Nat.zero_add, Nat.zero_add, Nat.min_self] at hmoves
  cases t <;> exact hmoves

instance : omitSemicolon.Moves 0 0 := by
  refine ⟨fun c s a s' heq => ?_⟩
  cases heq
  refine ⟨.refl, Nat.le_refl _, fun o ho => ?_⟩
  rcases List.mem_cons.mp ho with rfl | ho
  · exact .inr ⟨.refl, Nat.le_refl _⟩
  · exact .inl ho

instance (r : ParseState → List (String × Location)) :
    (modify fun s => { s with references := r s } : Parse PUnit).Moves 0 n :=
  ⟨fun _ _ _ _ heq => by cases heq; exact .still rfl rfl⟩

instance (names : ParseState → List String) :
    (modify fun s => { s with declared := names s } : Parse PUnit).Moves 0 n :=
  ⟨fun _ _ _ _ heq => by cases heq; exact .still rfl rfl⟩

instance (name : String) : (declareVar name).Moves 0 n := by unfold declareVar; infer_instance

instance (name : String) (l : Location) : (referPrivate name l).Moves 0 1 := by
  unfold referPrivate; infer_instance

/-! ### Productions that take a token -/

theorem yields_skip_next : Parse.skip.Yields c s fun _ s' =>
    (∃ t tokens, s.tokens.next? = some (t, tokens) ∧ s' = { s with tokens }) ∨
      (s.tokens.next? = none ∧ s' = s) := by
  refine .bind .get fun _ _ h => ?_
  obtain ⟨rfl, rfl⟩ := h
  split
  · next t tokens hnext => exact Yields.modify.mono fun _ _ h => .inl ⟨t, tokens, hnext, h⟩
  · next hnext => exact .pure (.inr ⟨hnext, rfl⟩)

instance : Parse.skip.Moves 0 n := by
  refine ⟨fun c s => yields_skip_next.mono fun _ s' h => ?_⟩
  rcases h with ⟨t, tokens, hnext, rfl⟩ | ⟨-, rfl⟩
  · exact (ParseState.Moves.next hnext n).mono (Nat.zero_le _) (Nat.le_refl _)
  · exact .refl n s'

theorem Yields.skip_moves {t : Token} {rest : List Token}
    (h : s.tokens.significant = t :: rest) :
    Parse.skip.Yields c s fun _ s' => s.Moves 1 n s' := by
  refine yields_skip_next.mono fun _ s' h' => ?_
  rcases h' with ⟨t, tokens, hnext, rfl⟩ | ⟨hnone, -⟩
  · exact .next hnext n
  · simp only [TokenStream.next?, Option.map_eq_none_iff] at hnone
    have := TokenStream.firstSignificant_eq_none hnone
    rw [TokenStream.significant, this] at h
    cases h

/-- Passing over a token before other steps. -/
theorem Yields.skip_then {f : Unit → Parse β} (hf : ∀ u, (f u).Moves m n) {t : Token}
    {rest : List Token} (h : s.tokens.significant = t :: rest) :
    (Parse.skip >>= f).Yields c s fun _ s' => s.Moves (1 + m) (1 + n) s' :=
  .bind (.skip_moves (n := 1 + n) h) fun u s' h =>
    ((hf u).yields c s').mono fun _ _ h' => (h.trans h').mono (Nat.le_refl _) (by simp)

instance : advance.Moves 1 n := by
  refine ⟨fun c s => .bind .get fun _ _ h => ?_⟩
  obtain ⟨rfl, rfl⟩ := h
  split
  · next hnext => exact .bind .modify fun _ s' hs' => .pure (hs' ▸ .next hnext n)
  · exact .fail

theorem yields_eatKind_moves (n : Nat) {kind : TokenKind} : (eatKind kind).Yields c s fun b s' =>
    (b = true → s.Moves 1 n s') ∧ (b = false → s' = s) := by
  refine .bind .atKind fun b s' h => ?_
  obtain ⟨rfl, hb⟩ := h
  split
  · next htrue =>
    obtain ⟨t, rest, hnext, -⟩ := TokenStream.exists_next (beq_iff_eq.mp (hb.symm.trans htrue))
    exact .bind (.skip_moves hnext) fun _ _ h => .pure ⟨fun _ => h, by simp⟩
  · exact .pure ⟨by simp, fun _ => rfl⟩

instance (kind : TokenKind) : (eatKind kind).Moves 0 n := by unfold eatKind; infer_instance

instance (q : Punctuator) : (eat q).Moves 0 n := by unfold eat; infer_instance

instance (k : Keyword) : (eatKeyword k).Moves 0 n := by unfold eatKeyword; infer_instance

instance : semicolon.Moves 0 0 := by unfold semicolon; infer_instance

/-- A token that has to be there. -/
theorem moves_expectKind {kind : TokenKind} :
    (do if !(← eatKind kind) then unexpected : Parse Unit).Moves 1 n := by
  refine ⟨fun c s => .bind (yields_eatKind_moves n) fun b s' h => ?_⟩
  split
  · exact .fail
  · next hb => exact .pure (h.1 (by simpa using hb))

instance (q : Punctuator) : (expect q).Moves 1 n := moves_expectKind

instance (k : Keyword) : (expectKeyword k).Moves 1 n := moves_expectKind

/-- The next token is looked at, and taken in the end. -/
theorem Moves.peek {f : Token → Parse β}
    (h : ∀ t c s rest, s.tokens.significant = t :: rest →
      (f t).Yields c s fun _ s' => s.Moves m n s') :
    (Parse.peek >>= f).Moves m n := by
  refine ⟨fun c s => .bind yields_peek fun t s' h' => ?_⟩
  obtain ⟨rfl, ht⟩ := h'
  obtain ⟨rest, hrest⟩ := List.head?_eq_some_iff.mp (TokenStream.peek?_eq s'.tokens ▸ ht)
  exact h t c s' rest hrest

instance : bindingIdentifier.Moves 1 1 := by
  refine .peek fun t c s rest hnext => ?_
  have taken {a : String} : (skip >>= fun _ => (pure a : Parse String)).Yields c s
      fun _ s' => s.Moves 1 1 s' :=
    .skip_then (m := 0) (n := 0) inferInstance hnext
  split
  · refine .bind .unmoved fun _ s₁ h₁ => ?_
    obtain rfl := h₁
    exact taken
  · refine .read ?_
    split
    · exact .fail
    · exact taken
  · exact .fail
  · exact .fail
  · exact .fail

/-- The turn ends a loop. -/
def isDone : Turn α β → Bool
  | .again _ => false
  | .done _ => true

instance (a : α) : (pure (.again a) : Parse (Turn α β)).Never isDone :=
  .pure rfl

/-- A loop has one turn at least. -/
theorem Moves.loop_first {turn : α → Parse (Turn α β)} (h : ∀ a, (turn a).Moves 1 1) {fuel : Nat}
    {a : α} : (Parse.loop turn fuel a).Moves 1 1 := by
  cases fuel with
  | zero => exact inferInstanceAs ((throw _ : Parse β).Moves 1 1)
  | succ fuel =>
    have := h a
    refine .first fun t => ?_
    cases t with
    | again a => exact .loop fun _ => inferInstance
    | done b => exact inferInstanceAs ((pure b : Parse β).Moves 0 0)

/-- A loop that only ends at a closing token. -/
theorem Moves.closed {q : Punctuator} {finish : α → β} {rest : α → Parse (Turn α β)}
    (h : ∀ a, (rest a).Moves 0 1) (hrest : ∀ a, (rest a).Never isDone) {fuel : Nat} {a : α} :
    (Parse.loop (fun a => do if ← eat q then return .done (finish a) else rest a) fuel a).Moves
      1 1 := by
  refine ⟨fun c s => ?_⟩
  induction fuel generalizing a s with
  | zero => exact Yields.fail (p := throw _)
  | succ fuel ih =>
    refine .bind (P := fun t s' => s.Moves 0 1 s' ∧ (isDone t = true → s.Moves 1 1 s'))
      (.bind (yields_eatKind_moves 1) fun closed s₁ h₁ => ?_) fun t s₂ h₂ => ?_
    · split
      · next hclosed =>
        have hmoves := h₁.1 hclosed
        exact .pure ⟨hmoves.mono (Nat.zero_le _) (Nat.le_refl _), fun _ => hmoves⟩
      · next hclosed =>
        obtain rfl := h₁.2 (by simpa using hclosed)
        refine (((h a).yields c s₁).and ((hrest a).yields c s₁)).mono fun t s₂ h₂ => ⟨h₂.1, ?_⟩
        exact fun hdone => absurd (h₂.2.symm.trans hdone) Bool.false_ne_true
    · cases t with
      | again a => exact (ih s₂).mono fun _ _ h => h₂.1.trans h
      | done b => exact .pure (h₂.2 rfl)

end Parse

/-- The first `n` tokens are labels with their colons, where the last colon may stand behind them. -/
inductive LabelsAhead : (n : Nat) → List Token → Prop
  | none {tokens : List Token} : LabelsAhead 0 tokens
  | name {t colon : Token} {rest : List Token} (ht : t.kind = .identifier)
    (hc : colon.kind = .punctuator .colon) : LabelsAhead 1 (t :: colon :: rest)
  | label {n : Nat} {t colon : Token} {rest : List Token} (ht : t.kind = .identifier)
    (hc : colon.kind = .punctuator .colon) (h : LabelsAhead n rest) :
    LabelsAhead (n + 2) (t :: colon :: rest)

open Parse

namespace Grammar

/-- The productions that others use take a token of their own first, and statements with labels take
the labels. -/
class Moves (g : Grammar) : Prop where
  assignment : g.assignment.Moves 1 1
  exponentiation : g.exponentiation.Moves 1 1
  unary : g.unary.Moves 1 1
  member : g.member.Moves 1 1
  leftHandSide : g.leftHandSide.Moves 1 1
  item : g.item.Moves 1 1
  subStatement : ∀ {n : Nat} c {s : ParseState}, LabelsAhead n s.tokens.significant →
    g.subStatement.Yields c s fun _ s' => s.Moves (n + 1) (n + 1) s'

variable {g : Grammar} [hg : g.Moves]

instance : g.assignment.Moves 1 1 := hg.assignment
instance : g.exponentiation.Moves 1 1 := hg.exponentiation
instance : g.unary.Moves 1 1 := hg.unary
instance : g.member.Moves 1 1 := hg.member
instance : g.leftHandSide.Moves 1 1 := hg.leftHandSide
instance : g.item.Moves 1 1 := hg.item
instance : g.subStatement.Moves 1 1 := ⟨fun c _ => hg.subStatement c .none⟩

/-! ### Functions -/

instance : g.formalParameters.Moves 1 1 := by
  refine .first fun _ => .loop fun params => ?_
  refine .step fun _ => ?_
  split
  · infer_instance
  · refine .step fun _ => .guard (.step fun _ => .step fun _ => .guard ?_)
    exact .step fun _ => .optional fun _ => inferInstance

instance : g.propertyName.Moves 1 1 := by
  refine .first fun t => ?_
  split
  · infer_instance
  split
  · infer_instance
  · refine .step fun x => ?_
    cases x <;> infer_instance
  · refine .step fun x => ?_
    cases x <;> infer_instance
  · infer_instance
  · infer_instance

omit hg in
theorem moves_body {item : Parse Stmt} [item.Moves 1 1] : (g.body item).Moves 0 1 :=
  .step fun _ => .loop fun _ => inferInstance

instance : (g.body g.item).Moves 0 1 := moves_body

instance (name : Option String) (kind : FunctionKind) : (g.functionParts name kind).Moves 1 1 := by
  refine .later fun _ => .first fun _ => .step fun _ => .step fun _ => .step fun _ => ?_
  exact .step fun _ => .guard inferInstance

instance (name : Option String) (kind : FunctionKind) (start : Nat)
    (superProperty superCall : Bool) :
    (g.functionRest name kind start superProperty superCall).Moves 1 1 := by
  unfold functionRest
  infer_instance

instance : g.functionExpression.Moves 1 1 :=
  .later fun _ => .first fun _ => .step fun _ => .guard inferInstance

instance : g.functionDeclaration.Moves 1 1 :=
  .later fun _ => .first fun _ => .step fun _ => .guard inferInstance

/-! ### Classes -/

instance : elementModifiers.Moves 0 1 := by
  refine .step fun _ => .step fun _ => .guard (.step fun _ => .optional fun _ => .step fun _ => ?_)
  refine .guard (.step fun _ => .guard (.step fun _ => ?_))
  split
  · infer_instance
  · infer_instance

instance (start : Nat) (isStatic : Bool) (kind : MethodKind) (b : ClassBody) :
    (g.privateElement start isStatic kind b).Moves 1 1 :=
  .first fun _ => .guard (.guard inferInstance)

instance (start : Nat) (isStatic : Bool) (kind : MethodKind) (derived : Bool) (b : ClassBody) :
    (g.publicElement start isStatic kind derived b).Moves 1 1 := by
  refine .later fun _ => .first fun _ => .step fun _ => ?_
  split
  · exact .guard (.guard inferInstance)
  · exact .guard inferInstance

instance (derived : Bool) (b : ClassBody) : (g.classElement derived b).Moves 1 1 :=
  .later fun _ => .later fun _ => inferInstance

instance (derived : Bool) : (g.classElements derived).Moves 1 1 :=
  .closed (fun _ => inferInstance) fun _ => inferInstance

instance (derived : Bool) : (g.classBody derived).Moves 1 1 := by
  refine .later fun _ => .later fun _ => .first fun b => .step fun _ => .step fun c => ?_
  split
  · infer_instance
  split
  · infer_instance
  · infer_instance

instance (isDeclaration : Bool) (start : Nat) : (g.classRest isDeclaration start).Moves 1 1 := by
  refine .later fun _ => .later fun _ => .guard ?_
  split
  all_goals
    refine .later fun _ => .later fun _ => ?_
    infer_instance

instance (isDeclaration : Bool) : (g.classDefinition isDeclaration).Moves 1 1 := by
  unfold classDefinition
  infer_instance

/-! ### Expressions -/

instance : g.nestedExpression.Moves 1 1 :=
  .first fun _ => .step fun _ => .guard inferInstance

instance : g.memberKey?.Moves 0 1 := by
  refine .step fun _ => .guard (.step fun _ => ?_)
  split
  · infer_instance
  refine .step fun _ => ?_
  split <;> infer_instance

instance : g.arguments.Moves 1 1 := by
  have : (loop (fun args => do
      if ← eat .rightParen then return .done args.reverse
      if ← atPunct .ellipsis then unsupported "Spread arguments"
      let e ← g.assignment
      if !(← atPunct .rightParen) then expect .comma
      return .again (e :: args)) g.fuel [] : Parse (List Expr)).Moves 0 1 := by
    refine .loop fun args => .step fun _ => ?_
    split
    · infer_instance
    · exact .step fun _ => .guard (.step fun _ => .step fun _ => .optional fun _ => inferInstance)
  unfold Grammar.arguments
  infer_instance

instance (start : Nat) (keyToken : Token) (key : PropertyName) :
    (g.propertyRest start keyToken key).Moves 0 1 := by
  refine .step fun _ => ?_
  split
  · infer_instance
  refine .step fun _ => ?_
  split
  · infer_instance
  split
  · refine .step fun _ => .guard ?_
    split
    · infer_instance
    · exact .step fun _ => .guard inferInstance
    · infer_instance
  · infer_instance

instance : accessorModifier.Moves 0 1 := by unfold accessorModifier; infer_instance

instance : g.objectProperty.Moves 1 1 := by
  refine .later fun _ => .later fun _ => .guard (.later fun _ => .guard (.later fun accessor => ?_))
  refine .later fun keyToken => .first fun key => ?_
  split <;> infer_instance

instance : g.objectLiteral.Moves 1 1 := by
  have : (loop (fun properties => do
      if ← eat .rightBrace then return .done (.object properties.reverse)
      let property ← g.objectProperty
      if !(← atPunct .rightBrace) then expect .comma
      return .again (property :: properties)) g.fuel [] : Parse Expr).Moves 0 1 := by
    refine .loop fun properties => .step fun _ => ?_
    split
    · infer_instance
    · exact .step fun _ => .step fun _ => .optional fun _ => inferInstance
  unfold objectLiteral
  infer_instance

instance : g.parenthesized.Moves 1 1 := by
  refine .later fun _ => .later fun _ => .guard ?_
  infer_instance

instance : g.primary.Moves 1 1 := by
  refine .peek fun t c s rest hnext => ?_
  have skipped {f : Unit → Parse Expr} (hf : ∀ u, (f u).Moves 0 0) :
      (skip >>= f).Yields c s fun _ s' => s.Moves 1 1 s' :=
    .skip_then hf hnext
  split
  · exact skipped inferInstance
  · refine .bind .checkReference fun _ s₁ h₁ => ?_
    obtain rfl := h₁
    exact skipped inferInstance
  · refine .read ?_
    split
    · exact .fail
    · exact skipped inferInstance
  · exact skipped inferInstance
  · exact skipped inferInstance
  · refine skipped fun _ => .step fun x => ?_
    cases x <;> infer_instance
  · refine skipped fun _ => .step fun x => ?_
    cases x <;> infer_instance
  · exact skipped inferInstance
  · exact skipped inferInstance
  · exact Moves.yields c s
  · exact .fail
  · exact .fail
  · exact .fail
  · exact Moves.yields c s
  · exact Moves.yields c s
  · exact .fail

theorem yields_superProperty_moves {c : Surroundings} {s : ParseState} {t : Token}
    {rest : List Token} (hnext : s.tokens.significant = t :: rest) :
    g.superProperty.Yields c s fun _ s' => s.Moves 1 1 s' := by
  refine .bind (P := fun _ s' => s' = s) (fun _ _ heq => by cases heq; rfl) fun start s₁ h₁ => ?_
  obtain rfl := h₁
  refine .skip_then (m := 0) (n := 0) (fun _ => .step fun _ => .guard (.step fun key? => ?_)) hnext
  split <;> infer_instance

instance (e : Expr) : (g.memberChain e).Moves 0 1 := by
  refine .loop fun e => .step fun key? => ?_
  cases key? <;> infer_instance

instance : g.newExpression.Moves 1 1 :=
  .later fun _ => .guard (.first fun _ => .step fun _ => inferInstance)

instance : g.memberExpression.Moves 1 1 := by
  refine ⟨fun c s => .bind (yields_eatKind_moves 1) fun isNew s₁ h₁ => .bind .atKind fun isSuper s₂ h₂ => ?_⟩
  obtain ⟨rfl, hsuper⟩ := h₂
  split
  · next hnew =>
    have hrest : (g.newExpression >>= g.memberChain).Moves 0 0 := inferInstance
    exact (hrest.yields c s₂).mono fun _ _ h => (h₁.1 hnew).trans h
  next hnew =>
  obtain rfl := h₁.2 (by simpa using hnew)
  split
  · next hs =>
    obtain ⟨t, rest, hnext, -⟩ := TokenStream.exists_next (beq_iff_eq.mp (hsuper.symm.trans hs))
    refine .bind (yields_superProperty_moves hnext) fun e s₃ h₃ => ?_
    have hrest : (g.memberChain e).Moves 0 0 := inferInstance
    exact (hrest.yields c s₃).mono fun _ _ h => h₃.trans h
  · have hrest : (g.primary >>= g.memberChain).Moves 1 1 := inferInstance
    exact hrest.yields c s₂

theorem yields_superCallExpression_moves {c : Surroundings} {s : ParseState} {t : Token}
    {rest : List Token} (hnext : s.tokens.significant = t :: rest) :
    g.superCallExpression.Yields c s fun _ s' => s.Moves 2 2 s' := by
  refine .bind (P := fun _ s' => s' = s) (fun _ _ heq => by cases heq; rfl) fun start s₁ h₁ => ?_
  obtain rfl := h₁
  exact .skip_then (m := 1) (n := 1) (fun _ => .later fun _ => .guard inferInstance) hnext

instance (e : Expr) : (g.callChain e).Moves 0 1 := by
  refine .loop fun e => .step fun _ => ?_
  split
  · infer_instance
  · refine .step fun key? => ?_
    cases key? <;> infer_instance

instance : g.leftHandSideExpression.Moves 1 1 := by
  refine ⟨fun c s => .bind .atKind fun isSuper s₁ h₁ => .bind .nthIs fun isCall s₂ h₂ => ?_⟩
  obtain ⟨rfl, hsuper⟩ := h₁
  obtain ⟨rfl, -⟩ := h₂
  split
  · next hs =>
    rw [Bool.and_eq_true] at hs
    obtain ⟨t, rest, hnext, -⟩ := TokenStream.exists_next (beq_iff_eq.mp (hsuper.symm.trans hs.1))
    refine .bind (yields_superCallExpression_moves hnext) fun e s₃ h₃ => ?_
    have hrest : (g.callChain e).Moves 0 0 := inferInstance
    refine (hrest.yields c s₃).mono fun _ _ h => (h₃.trans h).mono (by omega) (by omega)
  · have hrest : (g.memberExpression >>= g.callChain).Moves 1 1 := inferInstance
    exact hrest.yields c s₂

/-! ### Operators -/

instance : atUpdate?.Still := by unfold atUpdate?; infer_instance

instance : g.updateExpression.Moves 1 1 := by
  refine .later fun start => ⟨fun c s => .bind yields_atUpdate? fun op? s₁ h => ?_⟩
  obtain ⟨rfl, hprefix⟩ := h
  cases op? with
  | some op =>
    obtain ⟨q, hq⟩ := hprefix rfl
    obtain ⟨t, rest, hnext, -⟩ := TokenStream.exists_next hq
    exact .skip_then (m := 0) (n := 0) inferInstance hnext
  | none =>
    refine (Moves.first (p := g.leftHandSideExpression) fun e => .step fun _ => ?_).yields c s₁
    split
    · infer_instance
    · refine .step fun op? => ?_
      cases op? <;> infer_instance

instance : g.unaryExpression.Moves 1 1 := by
  refine .peek fun t c s rest hnext => ?_
  split
  · exact .skip_then (m := 0) (n := 0)
      (fun _ => .step fun _ => by dsimp only; split <;> infer_instance) hnext
  · exact Moves.yields c s

instance : g.exponentiationExpression.Moves 1 1 := by
  refine .later fun kind => ?_
  split
  · exact .first fun _ => .step fun _ => .guard inferInstance
  · infer_instance

instance (levels : List BinaryLevel) : (g.binaryExpression levels).Moves 1 1 := by
  induction levels with
  | nil => exact inferInstanceAs (g.exponentiationExpression.Moves 1 1)
  | cons level tighter ih =>
    refine .first fun first => .loop fun left => .step fun kind => ?_
    split <;> infer_instance

/-- Operands of the same operator, one after another. -/
theorem moves_logical {q : Punctuator} {op : LogicalOp} {operand : Parse Expr} [operand.Moves 1 1]
    (e : Expr) {fuel : Nat} : (loop (fun left => do
      if ← eat q then return .again (.logical op left (← operand))
      return .done left) fuel e : Parse Expr).Moves 0 1 :=
  .loop fun _ => inferInstance

instance : g.logicalAnd.Moves 1 1 :=
  .later fun _ => .first fun _ => (moves_logical _).mono (Nat.le_refl _) (Nat.zero_le _)

instance : g.logicalOr.Moves 1 1 := by
  refine .first fun _ => ?_
  have (e : Expr) : (loop (fun left => do
      if ← eat .logicalOr then return .again (.logical .or left (← g.logicalAnd))
      return .done left) g.fuel e : Parse Expr).Moves 0 1 := moves_logical e
  exact .step fun _ => .step fun _ => .guard inferInstance

instance : g.conditionalExpression.Moves 1 1 := by
  unfold conditionalExpression; infer_instance

instance : g.assignmentExpression.Moves 1 1 := by
  refine .later fun _ => .first fun _ => .step fun _ => .guard <| .step fun _ => .guard ?_
  refine .step fun _ => ?_
  split <;> infer_instance

instance : g.expression.Moves 1 1 :=
  .first fun _ => .step fun _ => .guard inferInstance

/-! ### Declarations -/

instance : g.condition.Moves 1 1 := by unfold condition; infer_instance

instance (kind : VarKind) (name : String) (l : Location) : (bindName kind name l).Moves 0 1 := by
  unfold bindName; infer_instance

instance : g.initializer?.Moves 0 1 := by unfold initializer?; infer_instance

instance (kind : VarKind) (needsInit : Bool) : (g.declarator kind needsInit).Moves 1 1 :=
  .later fun _ => .first fun _ => .step fun _ => .step fun _ => .guard inferInstance

instance (kind : VarKind) (needsInit : Bool) : (g.declarators kind needsInit).Moves 1 1 :=
  .loop_first fun _ => inferInstance

instance : g.variableStatement.Moves 1 1 := by unfold variableStatement; infer_instance

/-- The keyword is taken, and a name behind it. -/
theorem moves_lexicalDeclaration : g.lexicalDeclaration.Moves 2 2 := by
  have hrest (kind : VarKind) : (g.declarators kind true >>= fun declarators => semicolon >>= fun _ =>
      pure (Stmt.variables kind declarators)).Moves 1 1 := inferInstance
  refine ⟨fun c s => .bind (yields_eatKind_moves 2) fun b s₁ h₁ => ?_⟩
  split
  · next hb => exact ((hrest _).yields c s₁).mono fun _ _ h => (h₁.1 hb).trans h
  · next hb =>
    obtain rfl := h₁.2 (by simpa using hb)
    exact (Moves.bind (m := 1) (n := 2) inferInstance fun _ => hrest _).yields c s₁

instance : g.lexicalDeclaration.Moves 1 1 :=
  moves_lexicalDeclaration.mono (by omega) (by omega)

instance : g.block.Moves 1 1 := by
  have : (loop (fun done => do
      if ← eat .rightBrace then return .done done.reverse
      if ← atEnd then fail .unexpectedEnd
      return .again ((← g.item) :: done)) g.fuel [] : Parse (List Stmt)).Moves 0 1 := by
    refine .loop fun done => .step fun _ => ?_
    split
    · infer_instance
    · exact .step fun _ => .guard inferInstance
  unfold block
  infer_instance

/-! ### Statements -/

instance : g.expressionStatement.Moves 1 1 := by unfold expressionStatement; infer_instance

instance (n fuel : Nat) : (labelsLoop n fuel).Still :=
  ⟨fun c s => (labelsLoop_loopAhead n fuel c s).mono fun _ _ h => by rw [h.1]⟩

/-- A label and its colon are taken, and then those ahead. -/
theorem yields_labeledStatement_moves {c : Surroundings} {s : ParseState} {t colon : Token}
    {rest : List Token} {n : Nat} (hnext : s.tokens.significant = t :: colon :: rest)
    (hrest : LabelsAhead n rest) :
    g.labeledStatement.Yields c s fun _ s' => s.Moves (n + 3) (n + 3) s' := by
  refine .bind (((inferInstance : advance.Moves 1 (n + 3)).yields c s).and .advance)
    fun label s₁ h₁ => .bind .checkReference fun _ s₂ h₂ => ?_
  subst h₂
  have hcolon : s₂.tokens.significant = colon :: rest := (List.cons.inj (h₁.2 ▸ hnext)).2
  refine .bind (((inferInstance : (expect .colon).Moves 1 (n + 3)).yields c s₂).and .expect)
    fun _ s₃ h₃ => .read ?_
  have hlabels : LabelsAhead n s₃.tokens.significant := by
    obtain ⟨-, t, ht⟩ := h₃
    rwa [← (List.cons.inj (ht.symm.trans hcolon)).2] at hrest
  have htaken := h₁.1.trans h₃.1
  split
  · exact .fail
  refine .bind (labelsLoop_loopAhead 0 g.fuel c s₃) fun isLoop s₄ h₄ => ?_
  obtain rfl := h₄.1
  refine .bind (.withReader (hg.subStatement _ hlabels)) fun body s₅ h₅ => .pure ?_
  exact (htaken.trans h₅).mono (by omega) (by omega)

instance : g.labeledStatement.Moves 1 1 :=
  .first fun _ => .step fun _ => .step fun _ => .step fun _ => .guard inferInstance

instance : g.ifStatement.Moves 1 1 := by unfold ifStatement; infer_instance

instance : g.loopBody.Moves 1 1 := by unfold loopBody; infer_instance

instance : g.whileStatement.Moves 1 1 := by unfold whileStatement; infer_instance

instance : g.doStatement.Moves 1 1 := by unfold doStatement; infer_instance

instance : g.forInit.Moves 0 1 := by
  refine .step fun _ => ?_
  split
  · infer_instance
  · refine .step fun kind? => ?_
    cases kind? <;> infer_instance

instance (stop : Punctuator) : (g.optionalExpression stop).Moves 0 1 := by
  unfold optionalExpression; infer_instance

instance : g.forStatement.Moves 1 1 := by
  refine .first fun _ => .step fun _ => .guard <| .step fun _ => .step fun _ => .step fun _ => ?_
  exact .step fun _ => .guard (.step fun _ => inferInstance)

instance : g.returnStatement.Moves 1 1 := by
  refine .later fun _ => .first fun _ => .step fun _ => .guard ?_
  refine .step fun _ => .step fun _ => .step fun _ => .step fun _ => ?_
  infer_instance

instance : label?.Moves 0 1 := by unfold label?; infer_instance

instance : breakStatement.Moves 1 1 := by
  refine .later fun _ => .first fun _ => .step fun _ => .step fun label => ?_
  cases label with
  | some label => exact .guard inferInstance
  | none => exact .guard inferInstance

instance : continueStatement.Moves 1 1 := by
  refine .later fun _ => .first fun _ => .step fun _ => .guard (.step fun label => ?_)
  cases label with
  | none => infer_instance
  | some label =>
    dsimp only
    split
    · infer_instance
    · exact .guard inferInstance

instance : g.throwStatement.Moves 1 1 :=
  .first fun _ => .step fun _ => .guard (.step fun _ => inferInstance)

instance : catchParameter.Moves 0 1 := by unfold catchParameter; infer_instance

instance : g.handler?.Moves 0 1 := by
  refine .step fun _ => ?_
  split
  · infer_instance
  refine .step fun param => .step fun _ => ?_
  cases param <;> infer_instance

instance : g.finalizer?.Moves 0 1 := by unfold finalizer?; infer_instance

instance : g.tryStatement.Moves 1 1 := by
  refine .later fun _ => .first fun _ => .step fun _ => .step fun _ => .step fun _ => ?_
  split <;> infer_instance

instance : g.caseBody.Moves 0 1 := by
  refine .loop fun done => .step fun _ => .step fun _ => .step fun _ => .step fun _ => ?_
  dsimp only
  split <;> infer_instance

instance (seenDefault : Bool) : (g.caseTest seenDefault).Moves 0 1 := by
  refine .step fun _ => .step fun _ => ?_
  split
  · infer_instance
  refine .step fun _ => ?_
  split
  · exact .guard inferInstance
  · infer_instance

instance : g.switchCases.Moves 1 1 :=
  .closed (fun _ => inferInstance) fun _ => inferInstance

instance : g.switchStatement.Moves 1 1 :=
  .first fun _ => .step fun _ => .step fun _ => .step fun _ => .step fun _ => inferInstance

instance (first : TokenKind) : (g.declaration first).Moves 1 1 := by
  unfold declaration
  split <;> infer_instance

section

variable {c : Surroundings} {s : ParseState} {t : Token} {rest : List Token}

theorem yields_statement_moves (hnext : s.tokens.significant = t :: rest) (first : TokenKind) :
    (g.statement first).Yields c s fun _ s' => s.Moves 1 1 s' := by
  unfold statement
  split
  case h_2 => exact .skip_then (m := 0) (n := 0) inferInstance hnext
  case h_17 => exact .skip_then (m := 0) (n := 0) inferInstance hnext
  all_goals exact Moves.yields c s

theorem yields_labeled_moves {colon : Token} {n : Nat}
    (hnext : s.tokens.significant = t :: colon :: rest) (ht : t.kind = .identifier)
    (hcolon : colon.kind = .punctuator .colon) (h : LabelsAhead n rest) :
    g.singleStatement.Yields c s fun _ s' => s.Moves (n + 3) (n + 3) s' := by
  have hfirst : s.tokens.peekKind? = some t.kind := by
    rw [TokenStream.peekKind?, TokenStream.peek?_eq, hnext]
    rfl
  refine .bind yields_peekKind? fun kind? s₁ h₁ => ?_
  obtain ⟨rfl, hkind⟩ := h₁
  rw [hfirst] at hkind
  subst hkind
  refine .bind (yields_atDeclaration hfirst (.inr ht)) fun b s₂ hnone => ?_
  obtain ⟨rfl, rfl⟩ := hnone
  rw [ht]
  refine .bind (P := fun b s' => s' = s₂ ∧ b = true) ?_ fun b s₃ hlabel => ?_
  · intro b s' heq
    cases heq
    simp [TokenStream.peekNth?_eq, hnext, hcolon]
  · obtain ⟨rfl, rfl⟩ := hlabel
    exact yields_labeledStatement_moves hnext h

theorem yields_singleStatement_moves {n : Nat} (h : LabelsAhead n s.tokens.significant) :
    g.singleStatement.Yields c s fun _ s' => s.Moves (n + 1) (n + 1) s' := by
  generalize htokens : s.tokens.significant = tokens at h
  cases h with
  | none =>
    refine .bind yields_peekKind? fun kind? s₁ h₁ => ?_
    obtain ⟨rfl, hkind⟩ := h₁
    cases kind? with
    | none => exact .fail
    | some first =>
      obtain ⟨t, rest, hnext, -⟩ := TokenStream.exists_next hkind.symm
      refine .bind .unmoved fun b s₂ h₂ => ?_
      obtain rfl := h₂
      split
      · exact .fail
      · exact yields_statement_moves hnext first
  | name ht hc =>
    exact (yields_labeled_moves htokens ht hc .none).mono fun _ _ h =>
      h.mono (by omega) (by omega)
  | label ht hc h => exact yields_labeled_moves htokens ht hc h

end

instance : g.singleStatement.Moves 1 1 :=
  ⟨fun _ _ => yields_singleStatement_moves .none⟩

instance : g.statementListItem.Moves 1 1 := by
  refine ⟨fun c s => .bind yields_peekKind? fun kind? s₁ h₁ => ?_⟩
  obtain ⟨rfl, hkind⟩ := h₁
  cases kind? with
  | none => exact .fail
  | some first =>
    obtain ⟨t, rest, hnext, -⟩ := TokenStream.exists_next hkind.symm
    refine .bind .unmoved fun b s₂ h₂ => ?_
    obtain rfl := h₂
    split
    · exact Moves.yields c s₂
    · exact yields_statement_moves hnext first

instance : g.script.Moves 0 1 := by
  have : (g.body g.statementListItem).Moves 0 1 := moves_body
  exact .step fun _ => .step fun _ => .guard inferInstance

/-- The productions of any depth of nesting, by induction on the depth. -/
theorem moves_ofFuel (n : Nat) : (ofFuel n).Moves := by
  induction n with
  | zero =>
    refine ⟨?_, ?_, ?_, ?_, ?_, ?_, fun _ _ _ => Yields.fail (p := throw _)⟩
    · exact inferInstanceAs ((throw _ : Parse Expr).Moves 1 1)
    · exact inferInstanceAs ((throw _ : Parse Expr).Moves 1 1)
    · exact inferInstanceAs ((throw _ : Parse Expr).Moves 1 1)
    · exact inferInstanceAs ((throw _ : Parse Expr).Moves 1 1)
    · exact inferInstanceAs ((throw _ : Parse Expr).Moves 1 1)
    · exact inferInstanceAs ((throw _ : Parse Stmt).Moves 1 1)
  | succ n ih =>
    exact
      { assignment := inferInstanceAs ((ofFuel n).assignmentExpression.Moves 1 1)
        exponentiation := inferInstanceAs ((ofFuel n).exponentiationExpression.Moves 1 1)
        unary := inferInstanceAs ((ofFuel n).unaryExpression.Moves 1 1)
        member := inferInstanceAs ((ofFuel n).memberExpression.Moves 1 1)
        leftHandSide := inferInstanceAs ((ofFuel n).leftHandSideExpression.Moves 1 1)
        item := inferInstanceAs ((ofFuel n).statementListItem.Moves 1 1)
        subStatement := fun _ _ h => yields_singleStatement_moves h }

end Grammar

end Ecma
