import Ecma.Proofs.Scope.Global
import Ecma.Proofs.Syntax.Parameters
import Ecma.Proofs.Syntax.Pieces
import Ecma.Proofs.Syntax.Semicolon
import Ecma.Proofs.Text.Encoding

/-! The functions that `Function` makes. Such a function has the parameters and the statements that the
pieces of its text are by themselves exactly if the parameters, in their parentheses, are tokens of
their own that do not close the parenthesis. -/

namespace Ecma

open Parse

/-! ### Steps of a function -/

/-- The surroundings of the parameters and the body of a function. -/
def Surroundings.inside (c : Surroundings) (superProperty superCall : Bool) : Surroundings :=
  { c with
    noIn := false, inFunction := true, inIteration := false, inSwitch := false, labels := []
    superProperty, superCall }

/-- The states that a function is read through, from its parameters to the end of its body. -/
structure FunctionDef.Steps (f : FunctionDef) (g : Grammar) (c : Surroundings)
    (s s₁ s₂ s₃ s₄ : ParseState) : Prop where
  parameters : g.formalParameters c s = .ok (f.params, s₁)
  opens : expect .leftBrace c s₁ = .ok ((), s₂)
  body : g.body g.item c s₂ = .ok ((f.body, f.strict), s₃)
  closes : expect .rightBrace c s₃ = .ok ((), s₄)
  names : clash? true (f.params ++ Stmt.varNamesOf f.body) f.body = none

/-- What a function gets when the brace that ends its body has been taken. -/
structure FunctionDef.Closes (f : FunctionDef) (name : Option String) (kind : FunctionKind)
    (start : Nat) (c : Surroundings) (s s₄ s' : ParseState) : Prop where
  name : f.name = name
  kind : f.kind = kind
  varNames : f.varNames = s₄.declared
  source : f.source = String.ofList (slice start s₄.tokens.previousEnd 0 c.source)
  state : s' = { s₄ with declared := s.declared }

namespace Grammar

variable {g : Grammar} {c : Surroundings} {s : ParseState}

theorem yields_functionParts_steps (name : Option String) (kind : FunctionKind) :
    (g.functionParts name kind).Yields c s fun r s' => ∃ s₁ s₂ s₃,
      g.formalParameters c s = .ok (r.1, s₁) ∧ expect .leftBrace c s₁ = .ok ((), s₂) ∧
        g.body g.item c s₂ = .ok (r.2, s₃) ∧ expect .rightBrace c s₃ = .ok ((), s') ∧
          clash? true (r.1 ++ Stmt.varNamesOf r.2.1) r.2.1 = none := by
  refine .bind .unmoved fun start s₀ h₀ => ?_
  obtain rfl := h₀
  refine .bind .self fun params s₁ h₁ => .bind .self fun _ s₂ h₂ => .bind .self fun r s₃ h₃ => ?_
  refine .bind .self fun _ s₄ h₄ => .bind .unmoved fun _ s₅ h₅ => ?_
  obtain rfl := h₅
  split
  · exact .fail
  refine .bind (P := fun _ s' => s' = s₅ ∧ clash? true (params ++ Stmt.varNamesOf r.1) r.1 = none)
    ?_ fun _ s₆ h₆ => ?_
  · refine Yields.and .unmoved ?_
    unfold checkDeclarations
    split
    · exact .fail
    · next hnone => exact .pure hnone
  · obtain ⟨rfl, hnone⟩ := h₆
    exact .pure ⟨s₁, s₂, s₃, h₁, h₂, h₃, h₄, hnone⟩

theorem yields_functionRest_steps (name : Option String) (kind : FunctionKind) (start : Nat)
    (superProperty superCall : Bool) :
    (g.functionRest name kind start superProperty superCall).Yields c s fun f s' =>
      ∃ s₁ s₂ s₃ s₄, f.Steps g (c.inside superProperty superCall) { s with declared := [] }
        s₁ s₂ s₃ s₄ ∧ f.Closes name kind start c s s₄ s' := by
  refine .bind (P := fun names s' => names = s.declared ∧ s' = s)
    (fun _ _ heq => by cases heq; exact ⟨rfl, rfl⟩) fun outer s₁ h₁ => ?_
  obtain ⟨rfl, rfl⟩ := h₁
  refine .bind .modify fun _ s₂ h₂ => ?_
  obtain rfl := h₂
  refine .bind (.withReader (yields_functionParts_steps name kind)) fun r s₃ h₃ => ?_
  obtain ⟨t₁, t₂, t₃, hparameters, hopens, hbody, hcloses, hnames⟩ := h₃
  refine .bind (P := fun names s' => names = s₃.declared ∧ s' = s₃)
    (fun _ _ heq => by cases heq; exact ⟨rfl, rfl⟩) fun names s₄ h₄ => ?_
  obtain ⟨rfl, rfl⟩ := h₄
  refine .bind .modify fun _ s₅ h₅ => ?_
  obtain rfl := h₅
  exact fun _ _ heq => by
    cases heq
    exact ⟨t₁, t₂, t₃, s₄, ⟨hparameters, hopens, hbody, hcloses, hnames⟩, rfl, rfl, rfl, rfl, rfl⟩

end Grammar

/-! ### Pieces by themselves -/

/-- The statements between braces that stand for the body of a function, and whether they are strict
code. -/
def Grammar.functionBlock (g : Grammar) : Parse (List Stmt × Bool) := do
  expect .leftBrace
  let (statements, isStrict) ← g.body g.item
  expect .rightBrace
  checkDeclarations true (Stmt.varNamesOf statements) statements
  return (statements, isStrict)

/-- What a production reads from all tokens of a text, as it stands in a function of a script that
is not strict. -/
def Parse.readAll {α : Type} (p : Grammar → Parse α) (text : String) : Option α :=
  match TokenStream.ofString text with
  | .error _ => none
  | .ok tokens =>
    let c := (Program.surroundings text).inside false false
    match p (Grammar.ofFuel (tokens.remaining + 1)) c ⟨tokens, [], [], []⟩ with
    | .ok (a, s) => if s.tokens.isAtEnd then some a else none
    | .error _ => none

/-- The names in parameters, if these are a list of parameters and nothing more. -/
def parameterList? (params : List String) : Option (List String) :=
  readAll Grammar.formalParameters (parameterText params)

/-- The statements of a body, and whether they are strict code, if it is one and nothing more. -/
def functionBody? (body : String) : Option (List Stmt × Bool) :=
  readAll Grammar.functionBlock (bodyText body)

theorem Parse.readAll_eq_some_iff {α : Type} {p : Grammar → Parse α} {text : String} {a : α} :
    readAll p text = some a ↔ ∃ tokens s, TokenStream.ofString text = .ok tokens ∧
      p (Grammar.ofFuel (tokens.remaining + 1)) ((Program.surroundings text).inside false false)
        ⟨tokens, [], [], []⟩ = .ok (a, s) ∧ s.tokens.isAtEnd = true := by
  constructor
  · intro h
    unfold readAll at h
    split at h
    · cases h
    next tokens htokens =>
    dsimp only at h
    split at h
    · next s hread =>
      split at h
      · next hend =>
        cases h
        exact ⟨tokens, s, htokens, hread, hend⟩
      · cases h
    · cases h
  · rintro ⟨tokens, s, htokens, hread, hend⟩
    simp only [readAll, htokens, hread, hend, if_true]

/-! ### Places among tokens -/

/-- A list is split in one way at the first element of a kind. -/
theorem append_cons_inj {α : Type} {p : α → Prop} {l l' m m' : List α} {x y : α}
    (hl : ∀ a ∈ l, ¬p a) (hl' : ∀ a ∈ l', ¬p a) (hx : p x) (hy : p y)
    (h : l ++ x :: m = l' ++ y :: m') : l = l' ∧ x = y ∧ m = m' := by
  induction l generalizing l' with
  | nil =>
    cases l' with
    | nil => exact ⟨rfl, List.cons.inj h⟩
    | cons a l' =>
      obtain ⟨rfl, -⟩ := List.cons.inj h
      exact absurd hx (hl' x List.mem_cons_self)
  | cons a l ih =>
    cases l' with
    | nil =>
      obtain ⟨rfl, -⟩ := List.cons.inj h
      exact absurd hy (hl a List.mem_cons_self)
    | cons b l' =>
      obtain ⟨rfl, htail⟩ := List.cons.inj h
      obtain ⟨rfl, hrest⟩ := ih (fun a ha => hl a (List.mem_cons_of_mem _ ha))
        (fun a ha => hl' a (List.mem_cons_of_mem _ ha)) htail
      exact ⟨rfl, hrest⟩

namespace TokenStream

variable {start s : TokenStream} {before after : List Token} {t : Token}

theorem Reaches.exists_front (h : start.Reaches s) : ∃ front, start.rest = front ++ s.rest := by
  induction h with
  | refl => exact ⟨[], rfl⟩
  | @next s' s'' t _ ht ih =>
    obtain ⟨front, hfront⟩ := ih
    obtain ⟨-, skipped, hskipped⟩ := exists_of_next? ht
    exact ⟨front ++ skipped ++ [t], by rw [hfront, hskipped]; simp⟩

/-- Significant tokens with as many others behind them are the same one. -/
theorem eq_of_countP {u : Token} {rest front : List Token} (hu : u.isSignificant = true)
    (hcount : rest.countP Token.isSignificant = after.countP Token.isSignificant)
    (h : t :: after = front ++ u :: rest) : t = u ∧ after = rest := by
  cases front with
  | nil => exact List.cons.inj h
  | cons v front =>
    have hafter : after = front ++ u :: rest := (List.cons.inj h).2
    rw [hafter, List.countP_append, List.countP_cons_of_pos hu] at hcount
    omega

/-- The next token, where as many are left as stand behind a known one. -/
theorem Reaches.next?_eq (h : start.Reaches s) (htokens : start.rest = before ++ t :: after)
    (ht : t.isSignificant = true)
    (hremaining : s.remaining = after.countP Token.isSignificant + 1) :
    s.next? = some (t, { s with rest := after, previousEnd := t.endOffset }) := by
  obtain ⟨front, hfront⟩ := h.exists_front
  cases hfirst : firstSignificant s.rest with
  | none =>
    rw [remaining_eq, significant, firstSignificant_eq_none hfirst] at hremaining
    cases hremaining
  | some next =>
    obtain ⟨u, rest⟩ := next
    obtain ⟨hu, skipped, hskipped⟩ := firstSignificant_split hfirst
    have hnext : s.next? = some (u, { s with rest, previousEnd := u.endOffset }) := by
      rw [next?, hfirst]
      rfl
    have hrest : rest.countP Token.isSignificant = after.countP Token.isSignificant := by
      have := remaining_of_next? hnext
      rw [hremaining, remaining] at this
      exact (Nat.succ.inj this).symm
    have hsplit : before ++ t :: after = (front ++ skipped) ++ u :: rest := by
      rw [← htokens, hfront, hskipped, List.append_assoc]
    obtain ⟨rfl, rfl⟩ : t = u ∧ after = rest := by
      rcases List.append_eq_append_iff.mp hsplit with ⟨l, -, hl⟩ | ⟨l, -, hl⟩
      · exact eq_of_countP hu hrest hl
      · obtain ⟨hsame, hafter⟩ := eq_of_countP ht hrest.symm hl
        exact ⟨hsame.symm, hafter.symm⟩
    exact hnext

end TokenStream

namespace Parse

variable {c : Surroundings} {s : ParseState}

theorem yields_expect_next {q : Punctuator} : (expect q).Yields c s fun _ s' =>
    ∃ x, s.Next x s'.lexemes s' ∧ x.1 = .punctuator q := by
  intro u s' heq
  obtain ⟨t, ht, htaken⟩ := yields_expect u s' heq
  obtain ⟨s'', hnext⟩ := ParseState.exists_next_of_significant htaken
  cases heq.symm.trans (expect_next hnext ht)
  exact ⟨t.lexeme, hnext, ht⟩

theorem yields_expectKeyword_next {k : Keyword} : (expectKeyword k).Yields c s fun _ s' =>
    ∃ x, s.Next x s'.lexemes s' ∧ x.1 = .keyword k := by
  intro u s' heq
  obtain ⟨-, t, ht, htaken⟩ := Yields.expectKeyword u s' heq
  obtain ⟨s'', hnext⟩ := ParseState.exists_next_of_significant htaken
  cases heq.symm.trans (expectKeyword_next hnext ht)
  exact ⟨t.lexeme, hnext, ht⟩

end Parse

/-! ### The one statement of a script -/

namespace Grammar

variable {g : Grammar} {c : Surroundings} {s : ParseState}

/-- By induction on the turns: the statements that are read come behind those before them, and if
there is none then nothing is taken. -/
theorem yields_bodyTurns {item : Parse Stmt} (fuel : Nat) (p : Prologue) :
    (loop (fun (p : Prologue) => do
      if (← atEnd) || (← atPunct .rightBrace) then return .done (p.statements.reverse, p.strict)
      let useStrict ← atUseStrict
      let s ← withReader (fun c => { c with strict := p.strict }) item
      let leading := p.leading && isDirective s
      return .again ⟨s :: p.statements, leading, p.strict || (leading && useStrict)⟩) fuel p :
        Parse (List Stmt × Bool)).Yields c s fun r s' =>
      ∃ more, r.1 = p.statements.reverse ++ more ∧ (more = [] → s' = s) ∧
        ∀ x, more = [x] → item { c with strict := p.strict } s = .ok (x, s') := by
  induction fuel generalizing s p with
  | zero => exact .fail (p := throw _)
  | succ fuel ih =>
    refine .bind (P := fun t s' => (∃ r, t = .done r ∧ r.1 = p.statements.reverse ∧ s' = s) ∨
      ∃ x strict leading, t = .again ⟨x :: p.statements, leading, strict⟩ ∧
        item { c with strict := p.strict } s = .ok (x, s')) ?_ fun t s₁ h₁ => ?_
    · refine .bind .unmoved fun _ s₁ h₁ => .bind .unmoved fun _ s₂ h₂ => ?_
      obtain rfl := h₁
      obtain rfl := h₂
      split
      · exact .pure (.inl ⟨_, rfl, rfl, rfl⟩)
      · refine .bind .unmoved fun useStrict s₃ h₃ => ?_
        obtain rfl := h₃
        exact .bind (.withReader .self) fun x s₄ h₄ => .pure (.inr ⟨x, _, _, rfl, h₄⟩)
    · rcases h₁ with ⟨r, rfl, hr, rfl⟩ | ⟨x, isStrict, leading, rfl, hx⟩
      · exact .pure ⟨[], by simpa using hr, fun _ => rfl, by simp⟩
      · refine Yields.mono (ih _) fun r s₂ h₂ => ?_
        obtain ⟨more, hr, hstays, -⟩ := h₂
        refine ⟨x :: more, by simpa using hr, by simp, fun y hy => ?_⟩
        obtain ⟨rfl, hnil⟩ := List.cons.inj hy
        rwa [hstays hnil]

/-- A script of one statement is read as that statement, up to its end. -/
theorem yields_script_single : g.script.Yields c s fun p _ => ∀ x, p.body = [x] →
    ∃ s₁, g.statementListItem c s = .ok (x, s₁) ∧ s₁.tokens.isAtEnd = true := by
  refine .bind (P := fun r s' => ∀ x, r.1 = [x] → g.statementListItem c s = .ok (x, s')) ?_
    fun r s₁ h₁ => ?_
  · refine .bind (P := fun b s' => b = c.strict ∧ s' = s)
      (fun _ _ heq => by cases heq; exact ⟨rfl, rfl⟩) fun b s₁ h₁ => ?_
    obtain ⟨rfl, rfl⟩ := h₁
    refine Yields.mono (yields_bodyTurns _ _) fun r s₂ h₂ x hx => ?_
    obtain ⟨more, hr, -, hitem⟩ := h₂
    exact hitem x (hr.symm.trans hx)
  · refine .bind (P := fun b s' => s' = s₁ ∧ b = s₁.tokens.isAtEnd)
      (fun _ _ heq => by cases heq; exact ⟨rfl, rfl⟩) fun b s₂ h₂ => ?_
    obtain ⟨rfl, rfl⟩ := h₂
    split
    · exact .fail
    · next hend =>
      refine .bind .unmoved fun _ s₃ h₃ => .bind .unmoved fun _ s₄ h₄ => .pure fun x hx => ?_
      exact ⟨s₂, h₁ x hx, by simpa using hend⟩

theorem statementListItem_function (h : firstKind? s.lexemes = some (.keyword .functionKw)) :
    g.statementListItem c s = g.functionDeclaration c s := by
  have hkind : Parse.peekKind? c s = .ok (some (.keyword .functionKw), s) := by
    rw [← h, ← s.peekKind?_lexemes]
    rfl
  have hdeclaration : atDeclaration c s = .ok (true, s) := by
    unfold atDeclaration
    rw [bind_of_ok hkind]
    rfl
  unfold statementListItem
  rw [bind_of_ok hkind]
  dsimp only
  rw [bind_of_ok hdeclaration, if_pos rfl]
  rfl

/-- The steps of a function that is declared, behind its name. -/
theorem yields_functionDeclaration_steps :
    g.functionDeclaration.Yields c s fun t s' => ∃ f s₀ s₁ s₂ s₃ s₄ x y, t = .function f ∧
      s.lexemes = x :: y :: s₀.lexemes ∧ s.tokens.Reaches s₀.tokens ∧ s.Passes s₀ ∧
      f.Steps g (c.inside false false) { s₀ with declared := [] } s₁ s₂ s₃ s₄ ∧
      s'.tokens = s₄.tokens := by
  have lexemes {s s' : ParseState} {t : Token}
      (h : s.tokens.significant = t :: s'.tokens.significant) :
      s.lexemes = t.lexeme :: s'.lexemes := by
    rw [ParseState.lexemes, h, List.map_cons, ParseState.lexemes]
  refine .bind .unmoved fun start s₁ h₁ => ?_
  obtain rfl := h₁
  have hkeyword : (expectKeyword .functionKw).Moves 1 1 := inferInstance
  have hname : bindingIdentifier.Moves 1 1 := inferInstance
  refine .bind (.and .expectKeyword (hkeyword.yields c s₁)) fun _ s₂ h₂ => ?_
  obtain ⟨⟨hpasses₂, x, -, hx⟩, hmoves₂⟩ := h₂
  refine .bind .unmoved fun _ s₃ h₃ => ?_
  obtain rfl := h₃
  split
  · exact .fail
  refine .bind (.and .bindingIdentifier (hname.yields c s₃)) fun name s₄ h₄ => ?_
  obtain ⟨⟨hpasses₄, y, -, -, -, hy⟩, hmoves₄⟩ := h₄
  refine .bind (yields_functionRest_steps _ _ _ _ _) fun f s₅ h₅ => .pure ?_
  obtain ⟨t₁, t₂, t₃, t₄, hsteps, hcloses⟩ := h₅
  refine ⟨f, s₄, t₁, t₂, t₃, t₄, x.lexeme, y.lexeme, rfl, ?_, ?_, hpasses₂.trans hpasses₄, hsteps,
    by rw [hcloses.state]⟩
  · rw [lexemes hx, lexemes hy]
  · exact hmoves₂.reaches.trans hmoves₄.reaches

end Grammar

namespace Grammar

/-- A body at the end of a stretch of text is the same one wherever the stretch stands. -/
theorem body_of_copy {i : Excerpt} {n m : Nat} {c : Surroundings} {r : List Stmt × Bool}
    {s s' s'' t : ParseState} (hbody : (ofFuel n).body (ofFuel n).item c s = .ok (r, s'))
    (hcloses : expect .rightBrace c s' = .ok ((), s'')) (hend : s''.tokens.remaining = i.left)
    (hc : c.source = i.source) (hjoined : i.Joined s t) (hlt : t.tokens.remaining + 1 < m) :
    ∃ t' t'', (ofFuel m).body (ofFuel m).item (i.around c) t = .ok (r, t') ∧
      expect .rightBrace (i.around c) t' = .ok ((), t'') ∧ t''.tokens.rest = i.rest' ∧
        i.Marks s''.tokens.previousEnd t''.tokens.previousEnd ∧
        t''.references.map Prod.fst = s''.references.map Prod.fst ∧
        t''.declared = s''.declared := by
  have := copies_ofFuel i m n
  have hagrees : i.Agrees (ofFuel m).fuel 1 0 ((ofFuel n).body (ofFuel n).item)
      ((ofFuel m).body (ofFuel m).item) := inferInstance
  obtain ⟨x, hnext, hx⟩ := yields_expect_next () s'' hcloses
  obtain ⟨u, hu, rfl⟩ := hnext.next
  have hremaining := TokenStream.remaining_of_next? hu
  rw [fuel_ofFuel_eq] at hagrees
  obtain hpast | ⟨-, t', ht', hjoined'⟩ := hagrees.leads c s t hc hjoined hlt r s' hbody
  · -- The brace that closes the body is still to come.
    have hle : s'.tokens.remaining ≤ i.left := hpast
    omega
  obtain ⟨u', v, tokens, tokens', hs, ht, hsame, hrest⟩ := hjoined'.next?
  rw [hu] at hs
  cases hs
  have hkind : v.kind = .punctuator .rightBrace := hsame.kind.trans hx
  rcases hrest with hjoined'' | ⟨-, -, hrest⟩
  · obtain ⟨k, hk, -⟩ := hjoined''.remaining
    dsimp only at hk
    omega
  · refine ⟨t', { t' with tokens := tokens' }, ht', ?_, hrest, ?_, ?_, ?_⟩
    · exact expect_next (x := v.lexeme) (s := t') ⟨⟨v, ht, rfl⟩, rfl, rfl⟩ hkind
    · rw [TokenStream.previousEnd_of_next? hu, TokenStream.previousEnd_of_next? ht]
      exact hsame.stop
    · rw [hnext.same]
      exact hjoined'.references
    · rw [hnext.same]
      exact hjoined'.declared

end Grammar

/-- What does not clash with some names does not clash with fewer of them. -/
theorem firstClash_mono {taken taken' seen names : List String} (h : taken' ⊆ taken)
    (hnone : firstClash taken seen names = none) : firstClash taken' seen names = none := by
  induction names generalizing seen with
  | nil => rfl
  | cons name rest ih =>
    rw [firstClash] at hnone ⊢
    split at hnone
    · cases hnone
    next hfree =>
    rw [Bool.not_eq_true, Bool.or_eq_false_iff] at hfree
    have hnew : taken'.contains name = false := by
      rw [← Bool.not_eq_true, List.contains_iff_mem]
      exact fun hmem => Bool.not_eq_true _ ▸ hfree.2 <| List.contains_iff_mem.mpr (h hmem)
    rw [hfree.1, hnew, Bool.or_self, if_neg Bool.false_ne_true]
    exact ih hnone

theorem clash?_mono {taken taken' : List String} {body : List Stmt} (h : taken' ⊆ taken)
    (hnone : clash? true taken body = none) : clash? true taken' body = none := by
  simp only [clash?, if_true, Option.or_eq_none_iff] at hnone ⊢
  exact ⟨firstClash_mono h hnone.1, hnone.2⟩

theorem Grammar.functionBlock_eq {g : Grammar} {c : Surroundings} {s s₁ s₂ s₃ : ParseState}
    {r : List Stmt × Bool} (hopens : expect .leftBrace c s = .ok ((), s₁))
    (hbody : g.body g.item c s₁ = .ok (r, s₂)) (hcloses : expect .rightBrace c s₂ = .ok ((), s₃))
    (hnames : clash? true (Stmt.varNamesOf r.1) r.1 = none) :
    g.functionBlock c s = .ok (r, s₃) := by
  unfold functionBlock checkDeclarations
  rw [bind_of_ok hopens, bind_of_ok hbody]
  dsimp only
  rw [bind_of_ok hcloses, hnames]
  rfl

/-- A list of relations between two lists, split behind an element of the first one. -/
theorem exists_of_forall₂_append {α β : Type} {R : α → β → Prop} {l m : List α} {x : α}
    {l' : List β} (h : List.Forall₂ R (l ++ x :: m) l') :
    ∃ k y k', l' = k ++ y :: k' ∧ List.Forall₂ R l k ∧ R x y ∧ List.Forall₂ R m k' := by
  induction l generalizing l' with
  | nil =>
    cases h with
    | cons hx hm => exact ⟨[], _, _, rfl, .nil, hx, hm⟩
  | cons a l ih =>
    cases h with
    | cons ha hl =>
      obtain ⟨k, y, k', rfl, hk, hx, hm⟩ := ih hl
      exact ⟨_ :: k, y, k', rfl, .cons ha hk, hx, hm⟩

theorem countP_eq_of_forall₂ {α β : Type} {R : α → β → Prop} {p : α → Bool} {q : β → Bool}
    {l : List α} {l' : List β} (h : List.Forall₂ R l l') (hR : ∀ a b, R a b → q b = p a) :
    l'.countP q = l.countP p := by
  induction h with
  | nil => rfl
  | cons hab _ ih => rw [List.countP_cons, List.countP_cons, ih, hR _ _ hab]

/-- Where the braces of a body stand among the tokens, if its opening one is known. -/
theorem FunctionDef.Steps.exists_split {f : FunctionDef} {n : Nat} {c : Surroundings}
    {s₀ s₁ s₂ s₃ s₄ : ParseState} (h : f.Steps (Grammar.ofFuel n) c s₀ s₁ s₂ s₃ s₄)
    {tokens : TokenStream} (hreaches : tokens.Reaches s₀.tokens) {before inner : List Token}
    {opening : Token} (htokens : tokens.rest = before ++ opening :: inner)
    (hopens : opening.isSignificant = true)
    (hremaining : s₁.tokens.remaining = inner.countP Token.isSignificant + 1) :
    s₂.tokens.rest = inner ∧ s₂.tokens.previousEnd = opening.endOffset ∧
      s₂.references = s₀.references ∧ s₂.declared = s₀.declared ∧
      ∃ used closing, inner = used ++ closing :: s₄.tokens.rest ∧
        closing.kind = .punctuator .rightBrace := by
  have hproductions := Grammar.moves_ofFuel n
  have hparameters : (Grammar.ofFuel n).formalParameters.Moves 1 1 := inferInstance
  have hbody : ((Grammar.ofFuel n).body (Grammar.ofFuel n).item).Moves 0 1 := inferInstance
  have hpasses : s₀.Passes s₁ := Plain.yields _ s₀ _ s₁ h.parameters
  have hreaches₁ := hreaches.trans (hparameters.yields _ s₀ _ s₁ h.parameters).reaches
  have hnext := hreaches₁.next?_eq htokens hopens hremaining
  obtain ⟨x, hfirst, -⟩ := yields_expect_next _ s₂ h.opens
  obtain ⟨t, ht, -⟩ := hfirst.next
  obtain ⟨-, htokens₂⟩ := Prod.mk.inj (Option.some.inj (hnext.symm.trans ht))
  have hrest : s₂.tokens.rest = inner := by rw [← htokens₂]
  obtain ⟨y, hlast, hy⟩ := yields_expect_next _ s₄ h.closes
  obtain ⟨closing, hclosing, rfl⟩ := hlast.next
  obtain ⟨used, hused⟩ := (hbody.yields _ s₂ _ s₃ h.body).reaches.exists_front
  obtain ⟨-, skipped, hskipped⟩ := TokenStream.exists_of_next? hclosing
  refine ⟨hrest, by rw [← htokens₂], ?_, ?_, used ++ skipped, closing, ?_, hy⟩
  · rw [hfirst.same, hpasses.rest]
  · rw [hfirst.same, hpasses.rest]
  · rw [← hrest, hused, hskipped, List.append_assoc]

/-- Parameters that are a list of parameters do not close the parenthesis in front of them: the last
token of their text does. -/
theorem staysOpen_of_parameterList? {params names : List String}
    (h : parameterList? params = some names) : StaysOpen params := by
  obtain ⟨tokens, s', htokens, hread, hend⟩ := readAll_eq_some_iff.mp h
  obtain ⟨left, l, right, hlexemes, hleft, hright, hnames⟩ :=
    Grammar.yields_formalParameters_lexemes _ s' hread
  rw [s'.isAtEnd_lexemes, List.isEmpty_iff] at hend
  obtain ⟨segments, hruns, hbetween⟩ := TokenStream.runs_ofString htokens
  let c := Cursor.ofString (parameterText params)
  let text := '(' :: (",".intercalate params).toList
  have htext : segments.flatMap Segment.text = text ++ ['\n', ')'] := by
    rw [← show _ = segments.flatMap Segment.text from hbetween.text, toList_parameterText]
    rfl
  have hsegments : Segment.lexemes segments = (left :: l) ++ [right] := by
    rw [hend] at hlexemes
    have hrest : tokens.rest = Segment.tokensFrom c segments := hbetween.rest
    rw [← Segment.lexemes_eq c, ← hrest]
    exact hlexemes
  obtain ⟨front, rfl⟩ := hruns.exists_last_mark htext hsegments hright
  rw [Segment.lexemes_append] at hsegments
  have hfront : Segment.lexemes front = left :: l := List.append_inj_left' hsegments rfl
  rw [List.flatMap_append] at htext
  have hfrontText : front.flatMap Segment.text = text ++ ['\n'] := by
    have hclose : front.flatMap Segment.text ++ [')'] = (text ++ ['\n']) ++ [')'] :=
      htext.trans (by rw [List.append_assoc]; rfl)
    exact List.append_inj_left' hclose rfl
  let source := "(" ++ ",".intercalate params ++ "\n"
  have hsource : source.toList = text ++ ['\n'] :=
    toList_between (show "(".toList = ['('] from rfl) rfl _
  obtain ⟨hrunsFront, -⟩ := hruns.of_append
  have hcut : Scan.Runs (Cursor.ofString source) front := by
    have hc : c.rest = front.flatMap Segment.text ++ [')'] := by
      rw [hfrontText, List.append_assoc]
      exact toList_parameterText params
    have hsourceRest : (Cursor.ofString source).rest = front.flatMap Segment.text ++ [] := by
      rw [hfrontText, List.append_nil]
      exact hsource
    refine hrunsFront.cut (Cursor.isExact_ofString _) hc hsourceRest ?_ ?_ ?_ fun _ => rfl
    · exact ⟨[], _, _, rfl, rfl, by rintro ch ⟨⟩⟩
    · intro digit _ hbegins _
      simp at hbegins
    · intro s hs hline
      rw [hrunsFront.last_not_line hfrontText s hs] at hline
      cases hline
  have hlexed : Lexed.ofString source = _ :=
    Lexed.scan_runs hcut (hsource.trans hfrontText.symm) [] (Nat.lt_succ_self _)
  rw [StaysOpen, show Lexed.ofString _ = _ from hlexed]
  refine ⟨rfl, fun t ht hkind => ?_⟩
  have hlexeme : t.lexeme ∈ left :: l := by
    rw [← hfront, ← Segment.lexemes_eq (Cursor.ofString source)]
    exact List.mem_map_of_mem (List.mem_filter.mpr ⟨ht, by rw [Token.isSignificant, hkind]; rfl⟩)
  rcases List.mem_cons.mp hlexeme with heq | hmem
  · rw [← heq, show t.lexeme.1 = t.kind from rfl, hkind] at hleft
    cases hleft
  · exact hnames.not_closing _ hmem hkind
namespace PieceSegments

variable {params : List String} {body : String} {list rest : List Segment}

theorem lexemes_parameterSegments (list : List Segment) :
    Segment.lexemes (parameterSegments list) = (.punctuator .leftParen, "(") ::
      (Segment.lexemes list ++ [(.punctuator .rightParen, ")")]) := by
  rw [parameterSegments, Segment.lexemes_mark, Segment.lexemes_append, Segment.lexemes_mark]
  rfl

/-- The text of the parameters is a list of parameters if its tokens are. -/
theorem parameterList?_eq (h : PieceSegments params body list rest) {names : List String}
    (hnames : ParameterLexemes (Segment.lexemes list) names) :
    parameterList? params = some names := by
  obtain ⟨tokens, htokens, -, -, hlexemes⟩ :=
    Segment.exists_stream h.parameters h.parametersText.symm
  rw [lexemes_parameterSegments] at hlexemes
  have hfuel : (Segment.lexemes list).length < (Grammar.ofFuel (tokens.remaining + 1)).fuel := by
    have hlength := congrArg List.length hlexemes
    rw [List.length_map, ← TokenStream.remaining_eq, List.length_cons, List.length_append] at hlength
    rw [Grammar.fuel_ofFuel_eq, hlength]
    omega
  obtain ⟨s', hread, hs'⟩ := Grammar.formalParameters_of_lexemes
    (c := (Program.surroundings (parameterText params)).inside false false)
    (s := ⟨tokens, [], [], []⟩) rfl rfl hnames rfl hlexemes hfuel
  exact readAll_eq_some_iff.mpr ⟨tokens, s', htokens, hread, by rw [s'.isAtEnd_lexemes, hs']; rfl⟩

/-- The segments before the body of a dynamic function. -/
def front (list : List Segment) : List Segment :=
  Scan.header ++ (parameterSegments list ++ [.space [' ']])

theorem runs_whole (h : PieceSegments params body list rest) :
    Scan.Runs (Cursor.ofString (dynamicSource params body)) (front list ++ bodySegments rest) := by
  simpa [front] using h.whole

theorem toList_whole (h : PieceSegments params body list rest) :
    (dynamicSource params body).toList =
      (front list ++ bodySegments rest).flatMap Segment.text := by
  rw [toList_dynamicSource, ← Scan.text_header, ← h.parametersText, ← h.blockText]
  simp [front, Segment.text]

theorem lexemes_header : Segment.lexemes Scan.header =
    [(.keyword .functionKw, "function"), (.identifier, "anonymous")] :=
  rfl

/-- The lexemes of the whole text are those of its pieces. -/
theorem lexemes_whole (list rest : List Segment) :
    Segment.lexemes (front list ++ bodySegments rest) =
      (.keyword .functionKw, "function") :: (.identifier, "anonymous") ::
        (.punctuator .leftParen, "(") :: (Segment.lexemes list ++ (.punctuator .rightParen, ")") ::
          Segment.lexemes (bodySegments rest)) := by
  have hspace : Segment.lexemes [.space [' ']] = [] := rfl
  rw [front, Segment.lexemes_append, Segment.lexemes_append, Segment.lexemes_append, hspace,
    lexemes_header, lexemes_parameterSegments]
  simp

/-- The place of the body in the whole text. -/
def cursor (params : List String) (body : String) (list : List Segment) : Cursor :=
  (Cursor.ofString (dynamicSource params body)).advanceBy ((front list).flatMap Segment.text).length

/-- The text of the body stands in the whole text and by itself. -/
def excerpt (body : String) (list : List Segment) (behind behind' : List Token) : Excerpt where
  before := (front list).flatMap Segment.text
  text := (bodyText body).toList
  after := []
  rest := behind
  before' := []
  after' := []
  rest' := behind'

/-- A token of the body is the same in both texts. -/
theorem same_of_parallels (h : PieceSegments params body list rest) {behind behind' : List Token}
    {t t' : Token} (ht : Segment.Parallels (cursor params body list)
      (Cursor.ofString (bodyText body)) (byteCount ((bodySegments rest).flatMap Segment.text)) t t') :
    (excerpt body list behind behind').Same t t' := by
  rw [h.blockText] at ht
  refine Excerpt.Same.of_parallels ?_ rfl ht
  have hoffset := Cursor.ofString_advanceBy_offset
    (h.toList_whole.trans (List.flatMap_append ..))
  rw [cursor, hoffset, utf8ByteSize_ofList]
  rfl

/-- The tokens of the body stand side by side in both texts, from the brace on. -/
theorem exists_sides (h : PieceSegments params body list rest) {d e : Cursor}
    (hd : d = cursor params body list) (he : e = Cursor.ofString (bodyText body)) :
    ∃ opening inner opening' inner',
      Segment.tokensFrom d (bodySegments rest) = opening :: inner ∧
      Segment.tokensFrom e (bodySegments rest) = opening' :: inner' ∧
      opening.kind = .punctuator .leftBrace ∧
      List.Forall₂ (Segment.Parallels d e (byteCount ((bodySegments rest).flatMap Segment.text)))
        (opening :: inner) (opening' :: inner') := by
  have hwhole : (Cursor.ofString (dynamicSource params body)).rest =
      (front list ++ bodySegments rest).flatMap Segment.text := h.toList_whole
  have hdrest : d.rest = (bodySegments rest).flatMap Segment.text ++ [] := by
    rw [List.append_nil, hd, cursor, Cursor.advanceBy_rest, hwhole, List.flatMap_append,
      List.drop_left]
  have herest : e.rest = (bodySegments rest).flatMap Segment.text ++ [] := by
    rw [List.append_nil, h.blockText, he]
    rfl
  have hblock : Scan.Runs e (bodySegments rest) := he ▸ h.block
  have hsides := Segment.parallels_tokensFrom (hblock.tile [] herest) hdrest herest
  exact ⟨_, _, _, _, rfl, rfl, rfl, hsides⟩

/-- The text of the body is a body by itself, with the same statements. -/
theorem functionBody?_eq (h : PieceSegments params body list rest) {f : FunctionDef} {n : Nat}
    {tokens : TokenStream} {s s₁ s₂ s₃ s₄ : ParseState}
    (htokens : tokens.rest = Segment.tokensFrom (Cursor.ofString (dynamicSource params body))
      (front list ++ bodySegments rest))
    (hreaches : tokens.Reaches s.tokens) (hreferences : s.references = [])
    (hdeclared : s.declared = [])
    (hsteps : f.Steps (Grammar.ofFuel n)
      ((Program.surroundings (dynamicSource params body)).inside false false) s s₁ s₂ s₃ s₄)
    (hlexemes : s₁.lexemes = Segment.lexemes (bodySegments rest))
    (hend : s₄.tokens.remaining = 0) : functionBody? body = some (f.body, f.strict) := by
  obtain ⟨opening, inner, opening', inner', hleft, hright, hbrace, hside⟩ := h.exists_sides rfl rfl
  have hopens : opening.isSignificant = true := by rw [Token.isSignificant, hbrace]; rfl
  obtain ⟨hsideOpening, hside⟩ := List.forall₂_cons.mp hside
  have hremaining : s₁.tokens.remaining = inner.countP Token.isSignificant + 1 := by
    have hlength := congrArg List.length hlexemes
    rw [← Segment.lexemes_eq (cursor params body list), hleft, List.length_map, ParseState.lexemes,
      List.length_map, ← TokenStream.remaining_eq, List.filter_cons_of_pos hopens,
      List.length_cons, ← List.countP_eq_length_filter] at hlength
    exact hlength
  rw [Segment.tokensFrom_append] at htokens
  obtain ⟨hrest, hprevious, hreferences₂, hdeclared₂, used, closing, rfl, hcloses⟩ :=
    hsteps.exists_split hreaches (htokens.trans (congrArg _ hleft)) hopens hremaining
  obtain ⟨used', closing', behind', rfl, hused, hclosing, hbehind⟩ := exists_of_forall₂_append hside
  let i := excerpt body list s₄.tokens.rest behind'
  have hsame {t t' : Token} (ht : Segment.Parallels (cursor params body list)
      (Cursor.ofString (bodyText body)) (byteCount ((bodySegments rest).flatMap Segment.text))
      t t') : i.Same t t' := h.same_of_parallels ht
  -- The second run starts behind the brace of the text of the body.
  obtain ⟨tokens', htokens', -, hrest', -⟩ := Segment.exists_stream h.block h.blockText.symm
  rw [hright] at hrest'
  let t₂ : ParseState := ⟨{ tokens' with
    rest := used' ++ closing' :: behind', previousEnd := opening'.endOffset }, [], [], []⟩
  have hsameOpening := hsame hsideOpening
  have hopens' : opening'.isSignificant = true := hsameOpening.isSignificant.trans hopens
  have hnext : tokens'.next? = some (opening', t₂.tokens) := by
    rw [TokenStream.next?, hrest', TokenStream.firstSignificant, if_pos hopens']
    rfl
  let c := (Program.surroundings (dynamicSource params body)).inside false false
  have hc : c.source = i.source := by
    change (dynamicSource params body).toList = _
    rw [h.toList_whole, List.flatMap_append, h.blockText, Excerpt.source]
    exact (List.append_nil _).symm
  have hc' : i.around c = (Program.surroundings (bodyText body)).inside false false := by
    have hsource : i.source' = (bodyText body).toList := List.append_nil _
    rw [Excerpt.around, hsource]
    rfl
  have hjoined : i.Joined s₂ t₂ := by
    refine ⟨?_, ?_, ?_, ?_⟩
    · rw [hrest]
      exact .of_forall₂ (hused.imp fun _ _ => hsame) (hsame hclosing) hcloses
    · rw [hprevious]
      exact hsameOpening.stop
    · rw [hreferences₂, hreferences]
    · rw [hdeclared₂, hdeclared]
  obtain ⟨t₃, t₄, hbody, hcloses', hrest₄, -⟩ := Grammar.body_of_copy (m := tokens'.remaining + 1)
    hsteps.body hsteps.closes rfl hc hjoined (by rw [TokenStream.remaining_of_next? hnext]; omega)
  rw [hc'] at hbody hcloses'
  have hopening : expect .leftBrace ((Program.surroundings (bodyText body)).inside false false)
      ⟨tokens', [], [], []⟩ = .ok ((), t₂) :=
    expect_next (l := t₂.lexemes) ⟨⟨opening', hnext, rfl⟩, rfl, rfl⟩
      (hsameOpening.kind.trans hbrace)
  have hblock := Grammar.functionBlock_eq hopening hbody hcloses'
    (clash?_mono (List.subset_append_right _ _) hsteps.names)
  refine readAll_eq_some_iff.mpr ⟨tokens', t₄, htokens', hblock, ?_⟩
  rw [t₄.isAtEnd_lexemes, List.isEmpty_iff, ← List.length_eq_zero_iff, ParseState.lexemes,
    List.length_map, ← TokenStream.remaining_eq, TokenStream.remaining, hrest₄, ← hend]
  exact countP_eq_of_forall₂ hbehind fun _ _ ht => (hsame ht).isSignificant

end PieceSegments

/-- The function that pieces are read as has what the pieces are by themselves, if its parameters
stay open. -/
theorem pieces_of_parse {params : List String} {body : String} {p : Program} {f : FunctionDef}
    (hopen : StaysOpen params) (h : Program.parse (dynamicSource params body) = .ok p)
    (hp : p.body = [.function f]) :
    parameterList? params = some f.params ∧ functionBody? body = some (f.body, f.strict) := by
  obtain ⟨tokens, s', hlex, hread, -⟩ := Program.parse_eq_ok h
  have herror : (Lexed.ofString (dynamicSource params body)).error = none := by
    cases herror : (Lexed.ofString (dynamicSource params body)).error with
    | none => rfl
    | some e =>
      simp only [TokenStream.ofString, herror] at hlex
      cases hlex
  obtain ⟨list, rest, hpieces⟩ := exists_pieceSegments hopen herror
  obtain ⟨tokens', hlex', -, hrest, hlexemes⟩ :=
    Segment.exists_stream hpieces.runs_whole hpieces.toList_whole
  obtain rfl := Except.ok.inj (hlex.symm.trans hlex')
  rw [PieceSegments.lexemes_whole] at hlexemes
  obtain ⟨s₁, hitem, hend⟩ := Grammar.yields_script_single _ s' hread _ hp
  rw [Grammar.statementListItem_function (by rw [ParseState.lexemes, hlexemes]; rfl)] at hitem
  obtain ⟨g, s₂, t₁, t₂, t₃, t₄, x, y, heq, hnames, hreaches, hpasses, hsteps, hlast⟩ :=
    Grammar.yields_functionDeclaration_steps _ s₁ hitem
  obtain rfl : f = g := Stmt.function.inj heq
  -- The parenthesis that closes the parameters is the one behind their text.
  have hbehind : s₂.lexemes = _ := (List.cons.inj (List.cons.inj (hnames.symm.trans hlexemes)).2).2
  obtain ⟨left, l, right, hparameters, -, hright, hl⟩ :=
    Grammar.yields_formalParameters_lexemes _ t₁ hsteps.parameters
  have hnot : ∀ x ∈ Segment.lexemes list, x.1 ≠ .punctuator .rightParen := by
    intro x hx
    obtain ⟨t, ht, rfl⟩ := List.mem_map.mp hx
    exact hpieces.stays _ t (List.mem_filter.mp ht).1
  obtain ⟨hlist, -, hbody⟩ := append_cons_inj (p := fun x : Lexeme => x.1 = .punctuator .rightParen)
    hnot hl.not_closing rfl hright (List.cons.inj (hbehind.symm.trans hparameters)).2
  refine ⟨hpieces.parameterList?_eq (hlist ▸ hl), ?_⟩
  rw [s₁.isAtEnd_lexemes, List.isEmpty_iff, ParseState.lexemes, List.map_eq_nil_iff, hlast] at hend
  refine hpieces.functionBody?_eq (s := { s₂ with declared := [] }) hrest hreaches ?_ rfl hsteps
    hbody.symm ?_
  · rw [hpasses.rest]
  · rw [TokenStream.remaining_eq, hend, List.length_nil]

/-! ### Function objects -/

theorem FunctionDef.body_of_ofProgram? {source : String} {p : Program} {f : FunctionDef}
    (h : ofProgram? source p = some f) : p.body = [.function f] := by
  unfold ofProgram? at h
  split at h
  · next g hg =>
    split at h
    · cases h
      exact hg
    · cases h
  · cases h

theorem Eval.raise_ne_ok {α : Type} {c : Cause} {s s' : State} {a : α} :
    (raise c : Eval α) s ≠ .ok a s' := by
  obtain ⟨s'', h, -⟩ := raise_adds c (Nat.le_refl s.heap.objects.size)
  rw [h]
  nofun

namespace Engine

variable {eng : Engine} {call : Invocation} {params : List Units} {body : Units} {s s' : State}

/-- What `Function` makes of texts: the function that the pasted text declares. -/
theorem functionConstructor_eq_ok (hargs : call.args = (params ++ [body]).map .string) {v : Value}
    (h : eng.functionConstructor call s = .ok v s') :
    ∃ p f, Program.parse (dynamicSource (params.map Units.text) body.text) = .ok p ∧
      p.body = [.function f] ∧ (Value.object <$> Eval.atSite ⟨p, []⟩
        (Eval.instantiateFunction f Intrinsic.globalScope "anonymous") : Eval Value) s =
          .ok v s' := by
  have hlast : call.args.getLast? = some (.string body) := by
    rw [hargs, List.map_append, List.map_singleton, List.getLast?_concat]
  have hinit : call.args.dropLast = params.map .string := by
    rw [hargs, List.map_append, List.map_singleton, List.dropLast_concat]
  have hparams : ((params.map Value.string).mapM fun v => Units.text <$> eng.toUnits v) =
      (pure (params.map Units.text) : Eval _) := by
    rw [List.mapM_map]
    exact List.mapM_pure
  have hbody : (Units.text <$> eng.toUnits (.string body) : Eval _) = pure body.text := rfl
  unfold functionConstructor at h
  rw [hlast, hinit, hparams] at h
  dsimp only at h
  simp only [hbody, pure_bind] at h
  cases hparse : Program.parse (dynamicSource (params.map Units.text) body.text) with
  | error e =>
    rw [hparse] at h
    exact absurd h Eval.raise_ne_ok
  | ok p =>
    rw [hparse] at h
    dsimp only at h
    cases hf : FunctionDef.ofProgram? (dynamicSource (params.map Units.text) body.text) p with
    | none =>
      rw [hf] at h
      exact absurd h Eval.raise_ne_ok
    | some f =>
      rw [hf] at h
      exact ⟨p, f, rfl, FunctionDef.body_of_ofProgram? hf, h⟩

/-- A function that is made of texts has the parameters and the statements that the texts are by
themselves exactly if the parameters stay open. -/
theorem dynamic_pieces (hargs : call.args = (params ++ [body]).map .string) {v : Value}
    (h : eng.functionConstructor call s = .ok v s') :
    ∃ o function f, v = .object o ∧ s'.heap.scriptFunction? o = some function ∧
      function.code = .script f ∧
        (StaysOpen (params.map Units.text) ↔
          parameterList? (params.map Units.text) = some f.params ∧
            functionBody? body.text = some (f.body, f.strict)) := by
  obtain ⟨p, f, hparse, hp, hmade⟩ := functionConstructor_eq_ok hargs h
  obtain ⟨s₁, function, hs₁, -, -, hfunction, hcode, -⟩ :=
    Eval.instantiateFunction_adds (s := { s with site := ⟨p, []⟩ }) f Intrinsic.globalScope
      "anonymous" (Nat.le_refl s.heap.objects.size)
  have hresult : _ = EStateM.Result.ok v s' := hmade
  simp only [Functor.map, EStateM.map, Eval.atSite, hs₁] at hresult
  cases hresult
  exact ⟨_, function, f, rfl, hfunction, hcode, fun hopen => pieces_of_parse hopen hparse hp,
    fun hpieces => staysOpen_of_parameterList? hpieces.1⟩

/-- A list of parameters over two texts, and a body that uses them. -/
theorem dynamic_pieces_sum :
    let params : List Units := ["a, b", "c"]
    let body : Units := "return a + b + c;"
    let call : Invocation := ⟨.undefined, (params ++ [body]).map .string, none⟩
    StaysOpen (params.map Units.text) ∧ ∃ v s' o function f,
      (ofFuel 1).functionConstructor call State.initial = .ok v s' ∧ v = .object o ∧
        s'.heap.scriptFunction? o = some function ∧ function.code = .script f ∧
          parameterList? (params.map Units.text) = some f.params ∧
            functionBody? body.text = some (f.body, f.strict) := by
  intro params body call
  have hopen : StaysOpen (params.map Units.text) := by decide +kernel
  have hmade : (((ofFuel 1).functionConstructor call).run' State.initial).isSome = true := by
    decide +kernel
  rw [EStateM.run', EStateM.run] at hmade
  cases h : (ofFuel 1).functionConstructor call State.initial with
  | error e s' => rw [h] at hmade; cases hmade
  | ok v s' =>
    obtain ⟨o, function, f, rfl, hfunction, hcode, hpieces⟩ := dynamic_pieces rfl h
    obtain ⟨hparams, hbody⟩ := hpieces.mp hopen
    exact ⟨hopen, .object o, s', o, function, f, rfl, rfl, hfunction, hcode, hparams, hbody⟩

/-- A comment that is opened in the parameters and closed in the body makes a function, but it is no
list of parameters, and what closes it no body. -/
theorem dynamic_pieces_comment :
    let call : Invocation := ⟨.undefined, [.ofText "/*", .ofText "*/) \x7b"], none⟩
    (((ofFuel 1).functionConstructor call).run' State.initial).isSome = true ∧
      parameterList? ["/*"] = none ∧ functionBody? "*/) \x7b" = none := by
  decide +kernel

end Engine
end Ecma
