import Ecma.Proofs.Syntax.Quoting
import Ecma.Proofs.Syntax.Shorthand
import Ecma.Proofs.Token.Splice

/-! What the steps of productions do where the tokens to come are known, line terminators among them
or not. -/

namespace Ecma

open Parse

/-- The next token shows a lexeme, and others are left behind it. -/
structure ParseState.Next (s : ParseState) (x : Lexeme) (l : List Lexeme) (s' : ParseState) :
    Prop where
  next : ∃ t, s.tokens.next? = some (t, s'.tokens) ∧ t.lexeme = x
  same : s' = { s with tokens := s'.tokens }
  lexemes : s'.lexemes = l

namespace ParseState

variable {s s' : ParseState} {x : Lexeme} {l : List Lexeme}

theorem exists_next (h : s.lexemes = x :: l) : ∃ s', s.Next x l s' := by
  obtain ⟨t, rest, hsignificant, rfl, rfl⟩ := List.map_eq_cons_iff.mp h
  cases hnext : s.tokens.next? with
  | none =>
    simp only [TokenStream.next?, Option.map_eq_none_iff] at hnext
    rw [TokenStream.significant, TokenStream.firstSignificant_eq_none hnext] at hsignificant
    cases hsignificant
  | some next =>
    obtain ⟨t', tokens⟩ := next
    obtain ⟨rfl, hrest⟩ := List.cons.inj (hsignificant.symm.trans (TokenStream.next?_eq_some hnext))
    exact ⟨{ s with tokens }, ⟨t, hnext, rfl⟩, rfl, by rw [ParseState.lexemes, ← hrest]⟩

theorem exists_next_of_significant {t : Token}
    (h : s.tokens.significant = t :: s'.tokens.significant) :
    ∃ s'', s.Next t.lexeme s'.lexemes s'' :=
  exists_next (congrArg (List.map Token.lexeme) h)

theorem Next.first (h : s.Next x l s') : firstKind? s.lexemes = some x.1 := by
  obtain ⟨t, hnext, rfl⟩ := h.next
  rw [ParseState.lexemes, TokenStream.next?_eq_some hnext]
  rfl

theorem Next.peek? (h : s.Next x l s') : ∃ t, s.tokens.peek? = some t ∧ t.lexeme = x := by
  obtain ⟨t, hnext, hx⟩ := h.next
  refine ⟨t, ?_, hx⟩
  rw [TokenStream.peek?_eq, TokenStream.next?_eq_some hnext]
  rfl

end ParseState

/-- The state behind the first of the tokens. -/
def ParseState.behind (s : ParseState) (t : Token) (rest : List Token) : ParseState :=
  { s with tokens := { s.tokens with rest, previousEnd := t.endOffset } }

theorem ParseState.next_behind {s : ParseState} {t : Token} {rest : List Token}
    (h : s.tokens.rest = t :: rest) (ht : t.isSignificant = true) :
    s.Next t.lexeme (s.behind t rest).lexemes (s.behind t rest) :=
  ⟨⟨t, TokenStream.next?_of_rest h ht, rfl⟩, rfl, rfl⟩

namespace Parse

variable {α β : Type} {p : Parse Bool} {y z : Parse β} {c : Surroundings} {s s' : ParseState}
  {x : Lexeme} {l : List Lexeme} {kind : TokenKind}

/-- The other branch is taken. -/
theorem unless_of_ok (h : p c s = .ok (false, s')) :
    (p >>= fun b => if b = true then y else z) c s = z c s' := by
  rw [bind_of_ok h, if_neg Bool.false_ne_true]

theorem loop_of_done {turn : α → Parse (Turn α β)} {a : α} {b : β} {fuel : Nat}
    (h : turn a c s = .ok (.done b, s')) (hfuel : 0 < fuel) :
    loop turn fuel a c s = .ok (b, s') := by
  obtain ⟨fuel, rfl⟩ := Nat.exists_eq_add_one_of_ne_zero (Nat.ne_of_gt hfuel)
  rw [loop, bind_of_ok h]
  rfl

theorem loop_of_again {turn : α → Parse (Turn α β)} {a a' : α} {fuel : Nat}
    (h : turn a c s = .ok (.again a', s')) :
    loop turn (fuel + 1) a c s = loop turn fuel a' c s' := by
  rw [loop, bind_of_ok h]

theorem strict_eq : strict c s = .ok (c.strict, s) := rfl

theorem atKind_eq : atKind kind c s = .ok (firstKind? s.lexemes == some kind, s) := by
  rw [← s.peekKind?_lexemes]
  rfl

theorem atKind_eq_false (h : firstKind? s.lexemes ≠ some kind) :
    atKind kind c s = .ok (false, s) := by
  rw [atKind_eq, beq_false_of_ne h]

theorem skip_next (h : s.Next x l s') : skip c s = .ok ((), s') := by
  obtain ⟨t, hnext, -⟩ := h.next
  unfold skip
  rw [get_bind, hnext, h.same]
  rfl

theorem eatKind_next (h : s.Next x l s') (hx : x.1 = kind) :
    eatKind kind c s = .ok (true, s') := by
  unfold eatKind
  rw [bind_of_ok atKind_eq, h.first, hx, beq_self_eq_true, if_pos rfl, bind_of_ok (skip_next h)]
  rfl

theorem eatKind_eq_false (h : firstKind? s.lexemes ≠ some kind) :
    eatKind kind c s = .ok (false, s) := by
  unfold eatKind
  rw [bind_of_ok (atKind_eq_false h)]
  rfl

theorem expect_next {q : Punctuator} (h : s.Next x l s') (hx : x.1 = .punctuator q) :
    expect q c s = .ok ((), s') := by
  unfold expect eat
  rw [bind_of_ok (eatKind_next h hx)]
  rfl

theorem expectKeyword_next {k : Keyword} (h : s.Next x l s') (hx : x.1 = .keyword k) :
    expectKeyword k c s = .ok ((), s') := by
  unfold expectKeyword eatKeyword
  rw [bind_of_ok (eatKind_next h hx)]
  rfl

theorem semicolon_next (h : s.Next x l s') (hx : x.1 = .punctuator .semicolon) :
    semicolon c s = .ok ((), s') := by
  unfold semicolon eat
  rw [bind_of_ok (eatKind_next h hx)]
  rfl

theorem semicolon_end (h : s.lexemes = []) :
    semicolon c s = .ok ((), { s with omitted := s.tokens :: s.omitted }) := by
  have hnone : eat .semicolon c s = .ok (false, s) := eatKind_eq_false (by rw [h]; nofun)
  have hend : atEnd c s = .ok (true, s) :=
    congrArg (fun b => Except.ok (b, s)) (by rw [s.isAtEnd_lexemes, h]; rfl)
  have hbrace : atPunct .rightBrace c s = .ok (_, s) := rfl
  have hline : lineTerminatorBefore c s = .ok (_, s) := rfl
  exact (unless_of_ok hnone).trans <| (bind_of_ok hend).trans <| (bind_of_ok hbrace).trans <|
    (bind_of_ok hline).trans rfl

theorem peek_next (h : s.Next x l s') : ∃ t, peek c s = .ok (t, s) ∧ t.lexeme = x := by
  obtain ⟨t, ht, hx⟩ := h.peek?
  refine ⟨t, ?_, hx⟩
  unfold peek
  rw [peek?_bind, ht]
  rfl

end Parse

namespace Lexeme

/-- A lexeme that may be a declared name in sloppy code. -/
def IsName (x : Lexeme) : Prop :=
  x.1 = .identifier ∨ x.1 = .keyword .letKw

/-- The name that a lexeme declares. -/
def declaredName (x : Lexeme) : String :=
  if x.1 = .keyword .letKw then "let" else x.2

end Lexeme

namespace Parse

variable {c : Surroundings} {s s' : ParseState} {x : Lexeme} {l : List Lexeme}

/-- Sloppy code allows every word as a declared name. -/
theorem bindingIdentifier_next (hc : c.strict = false) (h : s.Next x l s') (hx : x.IsName) :
    bindingIdentifier c s = .ok (x.declaredName, s') := by
  obtain ⟨t, hpeek, rfl⟩ := peek_next (c := c) h
  unfold bindingIdentifier
  rw [bind_of_ok hpeek]
  rcases hx with hx | hx
  · have hkind : t.kind = .identifier := hx
    have hcheck : checkBinding t.text t.location c s = .ok ((), s) := by
      unfold checkBinding
      rw [bind_of_ok strict_eq, hc]
      rfl
    simp only [hkind]
    rw [bind_of_ok hcheck, bind_of_ok (skip_next h), Lexeme.declaredName,
      if_neg (by simp [hkind])]
    rfl
  · have hkind : t.kind = .keyword .letKw := hx
    simp only [hkind]
    rw [bind_of_ok strict_eq, hc, if_neg Bool.false_ne_true, bind_of_ok (skip_next h),
      Lexeme.declaredName, if_pos hx]
    rfl

end Parse

/-! ### Expressions of one operand -/

namespace Grammar

/-- The categories of the tokens that literals of strings, parentheses and functions start with. -/
def openers : List TokenKind :=
  [.stringLiteral, .punctuator .leftParen, .keyword .functionKw]

/-- A primary expression stands between two places: no operator is in front of it, and behind it a
parenthesis closes, a statement ends, or the text does. -/
structure Stands (l l' : List Lexeme) : Prop where
  opens : ∃ kind ∈ openers, firstKind? l = some kind
  ends : ∀ kind ∈ firstKind? l', kind = .punctuator .rightParen ∨ kind = .punctuator .semicolon

namespace Stands

variable {l l' : List Lexeme} {kind : TokenKind}

theorem opens_ne (h : Stands l l') (hkind : kind ∉ openers) : firstKind? l ≠ some kind := by
  obtain ⟨first, hfirst, heq⟩ := h.opens
  rw [heq]
  rintro ⟨rfl⟩
  exact hkind hfirst

theorem ends_ne (h : Stands l l') (hkind : kind ≠ .punctuator .rightParen)
    (hkind' : kind ≠ .punctuator .semicolon) : firstKind? l' ≠ some kind :=
  fun heq => (h.ends kind heq).elim hkind hkind'

theorem ends_bind {α : Type} {f : TokenKind → Option α} (h : Stands l l')
    (hright : f (.punctuator .rightParen) = none) (hsemicolon : f (.punctuator .semicolon) = none) :
    (firstKind? l').bind f = none := by
  refine Option.bind_eq_none_iff.mpr fun kind hkind => ?_
  rcases h.ends kind hkind with rfl | rfl
  · exact hright
  · exact hsemicolon

variable {g : Grammar} {c : Surroundings} {s s' : ParseState} {e : Expr}
  (h : Stands s.lexemes s'.lexemes)
include h

theorem atPunct_eq {x : Punctuator} (hright : x ≠ .rightParen) (hsemicolon : x ≠ .semicolon) :
    atPunct x c s' = .ok (false, s') :=
  atKind_eq_false (h.ends_ne (by simpa using hright) (by simpa using hsemicolon))

theorem eat_eq {x : Punctuator} (hright : x ≠ .rightParen) (hsemicolon : x ≠ .semicolon) :
    eat x c s' = .ok (false, s') :=
  eatKind_eq_false (h.ends_ne (by simpa using hright) (by simpa using hsemicolon))

theorem memberKey?_eq : g.memberKey? c s' = .ok (none, s') :=
  (unless_of_ok (h.atPunct_eq (by decide) (by decide))).trans <|
    (unless_of_ok (h.eat_eq (by decide) (by decide))).trans <|
      bind_of_ok (h.eat_eq (by decide) (by decide))

theorem memberExpression_eq (he : g.primary c s = .ok (e, s')) (hfuel : 0 < g.fuel) :
    g.memberExpression c s = .ok (e, s') := by
  have hnew : eatKeyword .newKw c s = .ok (false, s) := eatKind_eq_false (h.opens_ne (by decide))
  have hsuper : atKeyword .superKw c s = .ok (false, s) := atKind_eq_false (h.opens_ne (by decide))
  have hchain : g.memberChain e c s' = .ok (e, s') :=
    loop_of_done (bind_of_ok h.memberKey?_eq) hfuel
  exact (bind_of_ok hnew).trans <| (bind_of_ok hsuper).trans <| (bind_of_ok he).trans hchain

theorem leftHandSideExpression_eq (he : g.primary c s = .ok (e, s')) (hfuel : 0 < g.fuel) :
    g.leftHandSideExpression c s = .ok (e, s') := by
  have hsuper : atKeyword .superKw c s = .ok (false, s) := atKind_eq_false (h.opens_ne (by decide))
  have hcall : nthIs 1 .leftParen c s = .ok (_, s) := rfl
  have hchain : g.callChain e c s' = .ok (e, s') :=
    loop_of_done ((bind_of_ok (h.atPunct_eq (by decide) (by decide))).trans
      (bind_of_ok h.memberKey?_eq)) hfuel
  exact (bind_of_ok hsuper).trans <| (bind_of_ok hcall).trans <|
    (bind_of_ok (h.memberExpression_eq he hfuel)).trans hchain

theorem updateExpression_eq (he : g.primary c s = .ok (e, s')) (hfuel : 0 < g.fuel) :
    g.updateExpression c s = .ok (e, s') := by
  have hstart : location c s = .ok (s.tokens.location, s) := rfl
  have hfirst : atUpdate? c s = .ok (none, s) :=
    (unless_of_ok (atKind_eq_false (h.opens_ne (by decide)))).trans
      (bind_of_ok (atKind_eq_false (h.opens_ne (by decide))))
  have hlast : atUpdate? c s' = .ok (none, s') :=
    (unless_of_ok (h.atPunct_eq (by decide) (by decide))).trans
      (bind_of_ok (h.atPunct_eq (by decide) (by decide)))
  have hline : lineTerminatorBefore c s' = .ok (_, s') := rfl
  refine (bind_of_ok hstart).trans <| (bind_of_ok hfirst).trans <|
    (bind_of_ok (h.leftHandSideExpression_eq he hfuel)).trans <| (bind_of_ok hline).trans ?_
  cases s'.tokens.lineTerminatorBefore with
  | true => rfl
  | false => exact bind_of_ok hlast

theorem exponentiationExpression_eq (he : g.primary c s = .ok (e, s')) (hfuel : 0 < g.fuel) :
    g.exponentiationExpression c s = .ok (e, s') := by
  have hkind : peekKind? c s = .ok (firstKind? s.lexemes, s) := by
    rw [← s.peekKind?_lexemes]
    rfl
  have hunary : ((firstKind? s.lexemes).bind unaryOperator?).isSome = false := by
    have hopeners : ∀ kind ∈ openers, (unaryOperator? kind).isSome = false := by decide
    obtain ⟨kind, hmem, heq⟩ := h.opens
    rw [heq]
    exact hopeners kind hmem
  have hbase := h.updateExpression_eq he hfuel
  unfold exponentiationExpression
  rw [bind_of_ok hkind, hunary, if_neg Bool.false_ne_true, bind_of_ok hbase]
  exact bind_of_ok (h.eat_eq (by decide) (by decide))

/-- By induction on the levels of operators. -/
theorem binaryExpression_eq (he : g.primary c s = .ok (e, s')) (hfuel : 0 < g.fuel)
    {levels : List BinaryLevel} (hlevels : ∀ level ∈ levels,
      level (.punctuator .rightParen) = none ∧ level (.punctuator .semicolon) = none) :
    g.binaryExpression levels c s = .ok (e, s') := by
  induction levels with
  | nil => exact h.exponentiationExpression_eq he hfuel
  | cons level tighter ih =>
    have hfirst := ih fun level hlevel => hlevels level (List.mem_cons_of_mem _ hlevel)
    obtain ⟨hright, hsemicolon⟩ := hlevels level List.mem_cons_self
    refine (bind_of_ok hfirst).trans (loop_of_done ?_ hfuel)
    have hkind : peekKind? c s' = .ok (firstKind? s'.lexemes, s') := by
      rw [← s'.peekKind?_lexemes]
      rfl
    rw [bind_of_ok hkind, h.ends_bind hright hsemicolon]
    rfl

theorem logicalOr_eq (he : g.primary c s = .ok (e, s')) (hfuel : 0 < g.fuel) :
    g.logicalOr c s = .ok (e, s') := by
  have hlevels (noIn : Bool) : ∀ level ∈ binaryLevels noIn,
      level (.punctuator .rightParen) = none ∧ level (.punctuator .semicolon) = none := by
    simp [binaryLevels, relational]
  have hand : g.logicalAnd c s = .ok (e, s') :=
    (bind_of_ok (h.binaryExpression_eq he hfuel (hlevels c.noIn))).trans
      (loop_of_done (bind_of_ok (h.eat_eq (by decide) (by decide))) hfuel)
  have hor : loop (fun left => do
      if ← eat .logicalOr then return .again (.logical .or left (← g.logicalAnd))
      return .done left) g.fuel e c s' = .ok (e, s') :=
    loop_of_done (bind_of_ok (h.eat_eq (by decide) (by decide))) hfuel
  exact (bind_of_ok hand).trans <| (bind_of_ok hor).trans <|
    bind_of_ok (h.atPunct_eq (by decide) (by decide))

/-- A primary expression that stands between two places is read as the whole expression there. -/
theorem assignmentExpression_eq (he : g.primary c s = .ok (e, s')) (hfuel : 0 < g.fuel) :
    g.assignmentExpression c s = .ok (e, s') := by
  have hstart : location c s = .ok (s.tokens.location, s) := rfl
  have hconditional : g.conditionalExpression c s = .ok (e, s') :=
    (bind_of_ok (h.logicalOr_eq he hfuel)).trans
      (bind_of_ok (h.eat_eq (by decide) (by decide)))
  have hkind : peekKind? c s' = .ok (firstKind? s'.lexemes, s') := by
    rw [← s'.peekKind?_lexemes]
    rfl
  unfold assignmentExpression
  rw [bind_of_ok hstart, bind_of_ok hconditional]
  refine (unless_of_ok (h.atPunct_eq (by decide) (by decide))).trans <|
    (unless_of_ok (h.atPunct_eq (by decide) (by decide))).trans ?_
  refine (bind_of_ok hkind).trans ?_
  rw [h.ends_bind rfl rfl]
  rfl

theorem expression_eq (he : g.primary c s = .ok (e, s')) (hfuel : 0 < g.fuel) :
    g.expression c s = .ok (e, s') :=
  (bind_of_ok (h.assignmentExpression_eq he hfuel)).trans
    (bind_of_ok (h.atPunct_eq (by decide) (by decide)))

end Stands

variable {g : Grammar} {c : Surroundings} {s s' s₁ s₂ s₃ : ParseState} {e : Expr} {x y : Lexeme}
  {l : List Lexeme}

theorem primary_string (hnext : s.Next x l s') (hx : x.1 = .stringLiteral) {units : Units}
    (hvalue : StringLiteral.value c.strict x.2 = .ok units) :
    g.primary c s = .ok (.literal (.string units), s') := by
  obtain ⟨t, hpeek, rfl⟩ := peek_next (c := c) hnext
  have hkind : t.kind = .stringLiteral := hx
  have hstring : stringValue t c s' = .ok (units, s') := by
    unfold stringValue
    rw [bind_of_ok strict_eq, show StringLiteral.value c.strict t.text = .ok units from hvalue]
    rfl
  unfold primary
  rw [bind_of_ok hpeek]
  simp only [hkind]
  rw [bind_of_ok (skip_next hnext), bind_of_ok hstring]
  rfl

/-- A primary expression in parentheses. -/
theorem primary_parentheses {n : Nat} (hopen : s.Next x l s₁)
    (hx : x.1 = .punctuator .leftParen) (hstands : Stands s₁.lexemes s₂.lexemes)
    (he : (ofFuel n).primary { c with noIn := false } s₁ = .ok (e, s₂)) (hn : 0 < n)
    (hclose : s₂.Next y s₃.lexemes s₃) (hy : y.1 = .punctuator .rightParen) :
    (ofFuel (n + 1)).primary c s = .ok (e, s₃) := by
  obtain ⟨t, hpeek, rfl⟩ := peek_next (c := c) hopen
  have hkind : t.kind = .punctuator .leftParen := hx
  have hempty : atPunct .rightParen c s₁ = .ok (false, s₁) :=
    atKind_eq_false (hstands.opens_ne (by decide))
  have harrow : nthIs 1 .arrow c s₁ = .ok (_, s₁) := rfl
  have hfuel : 0 < (ofFuel n).fuel := by rwa [fuel_ofFuel_eq]
  have hassignment : (ofFuel (n + 1)).assignment { c with noIn := false } s₁ = .ok (e, s₂) :=
    hstands.assignmentExpression_eq he hfuel
  have hcomma : atPunct .comma { c with noIn := false } s₂ = .ok (false, s₂) :=
    hstands.atPunct_eq (by decide) (by decide)
  have hinside : (ofFuel (n + 1)).nestedExpression { c with noIn := false } s₁ = .ok (e, s₂) :=
    (bind_of_ok hassignment).trans (bind_of_ok hcomma)
  have hnested : allowIn (ofFuel (n + 1)).nestedExpression c s₁ = .ok (e, s₂) := hinside
  unfold primary
  rw [bind_of_ok hpeek]
  simp only [hkind]
  rw [bind_of_ok (skip_next hopen)]
  refine (bind_of_ok hempty).trans <| (bind_of_ok harrow).trans ?_
  refine (bind_of_ok hnested).trans <| (bind_of_ok (expect_next hclose hy)).trans rfl

/-- A statement that starts with a string or a parenthesis is an expression. -/
theorem statementListItem_expression {kind : TokenKind} (hfirst : firstKind? s.lexemes = some kind)
    (hkind : kind = .stringLiteral ∨ kind = .punctuator .leftParen)
    (he : g.expression c s = .ok (e, s₁)) (hends : semicolon c s₁ = .ok ((), s₂)) :
    g.statementListItem c s = .ok (.expression e, s₂) := by
  have hpeek : peekKind? c s = .ok (some kind, s) := by
    rw [← hfirst, ← s.peekKind?_lexemes]
    rfl
  have hlet : atKeyword .letKw c s = .ok (false, s) := by
    refine atKind_eq_false ?_
    rw [hfirst]
    rcases hkind with rfl | rfl <;> decide
  have hatLet : atLet c s = .ok (false, s) := by
    have hdeclared : atLetDeclaration c s = .ok (false, s) := bind_of_ok hlet
    refine (unless_of_ok hdeclared).trans <| (bind_of_ok strict_eq).trans <|
      (bind_of_ok hlet).trans ?_
    rw [Bool.and_false]
    rfl
  have hdeclaration : atDeclaration c s = .ok (false, s) := by
    refine (bind_of_ok hpeek).trans ?_
    rcases hkind with rfl | rfl <;> exact hatLet
  have hstatement : g.statement kind c s = .ok (.expression e, s₂) := by
    have hexpression : g.expressionStatement c s = .ok (.expression e, s₂) :=
      (bind_of_ok he).trans (bind_of_ok hends)
    rcases hkind with rfl | rfl <;> exact hexpression
  refine (bind_of_ok hpeek).trans ?_
  exact (unless_of_ok hdeclaration).trans hstatement

end Grammar

end Ecma
