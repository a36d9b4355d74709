import Ecma.Proofs.Syntax.Evaluate

/-! Lists of parameters: which tokens they are read from. Whatever stands behind the parenthesis that
closes a list does not matter. -/

namespace Ecma

open Parse

/-- The lexemes of a list of parameters between its parentheses, and the names in it. -/
inductive ParameterLexemes : List Lexeme → List String → Prop
  | nil : ParameterLexemes [] []
  | last {x : Lexeme} (hx : x.IsName) : ParameterLexemes [x] [x.declaredName]
  | more {x comma : Lexeme} {l : List Lexeme} {names : List String} (hx : x.IsName)
    (hcomma : comma.1 = .punctuator .comma) (h : ParameterLexemes l names) :
    ParameterLexemes (x :: comma :: l) (x.declaredName :: names)

theorem Lexeme.IsName.ne_punctuator {x : Lexeme} (hx : x.IsName) (p : Punctuator) :
    x.1 ≠ .punctuator p := by
  rcases hx with hx | hx <;> simp [hx]

/-- No parenthesis closes the list before its end. -/
theorem ParameterLexemes.not_closing {l : List Lexeme} {names : List String}
    (h : ParameterLexemes l names) : ∀ x ∈ l, x.1 ≠ .punctuator .rightParen := by
  induction h with
  | nil => simp
  | last hx => simpa using hx.ne_punctuator _
  | more hx hcomma _ ih => simpa [hx.ne_punctuator, hcomma] using ih

namespace Grammar

variable {g : Grammar} {c : Surroundings} {s : ParseState}

/-- One turn of the loop over the parameters. -/
def parameterTurn (params : List String) : Parse (Turn (List String) (List String)) := do
  if ← eat .rightParen then return .done params.reverse
  if ← atPunct .ellipsis then unsupported "Rest parameters"
  let name ← bindingIdentifier
  if ← atPunct .assign then unsupported "Default parameters"
  if !(← atPunct .rightParen) then expect .comma
  return .again (name :: params)

theorem formalParameters_eq :
    g.formalParameters = (do expect .leftParen; loop parameterTurn g.fuel []) := rfl

/-- What a turn does with the lexemes to come: it takes the closing parenthesis, or a name with the
comma behind it. -/
inductive ParameterTurn (params : List String) :
    List Lexeme → Turn (List String) (List String) → List Lexeme → Prop
  | closed {right : Lexeme} {l : List Lexeme} (h : right.1 = .punctuator .rightParen) :
    ParameterTurn params (right :: l) (.done params.reverse) l
  | last {x right : Lexeme} {l : List Lexeme} (hx : x.IsName)
    (h : right.1 = .punctuator .rightParen) :
    ParameterTurn params (x :: right :: l) (.again (x.declaredName :: params)) (right :: l)
  | more {x comma : Lexeme} {l : List Lexeme} (hx : x.IsName)
    (h : comma.1 = .punctuator .comma) :
    ParameterTurn params (x :: comma :: l) (.again (x.declaredName :: params)) l

theorem yields_parameterTurn (params : List String) : (parameterTurn params).Yields c s
    fun t s' => ParameterTurn params s.lexemes t s'.lexemes := by
  have lexemes {s s' : ParseState} {t : Token}
      (h : s.tokens.significant = t :: s'.tokens.significant) :
      s.lexemes = t.lexeme :: s'.lexemes := by
    rw [ParseState.lexemes, h, List.map_cons, ParseState.lexemes]
  refine .bind yields_eatKind fun closed s₁ h₁ => ?_
  split
  · next hclosed =>
    obtain ⟨t, ht, htaken⟩ := h₁.1 hclosed
    exact .pure (lexemes htaken ▸ .closed ht)
  next hclosed =>
  obtain rfl := h₁.2 (by simpa using hclosed)
  refine .bind .atKind fun rest s₂ h₂ => ?_
  obtain ⟨rfl, -⟩ := h₂
  split
  · exact .fail
  refine .bind .bindingIdentifier fun name s₃ h₃ => ?_
  obtain ⟨-, t, ht, -, rfl, htaken⟩ := h₃
  refine .bind .atKind fun default s₄ h₄ => ?_
  obtain ⟨rfl, -⟩ := h₄
  split
  · exact .fail
  refine .bind .atKind fun closes s₅ h₅ => ?_
  obtain ⟨rfl, hcloses⟩ := h₅
  rw [lexemes htaken]
  split
  · refine .bind yields_expect fun _ s₆ h₆ => .pure ?_
    obtain ⟨comma, hcomma, htaken'⟩ := h₆
    exact lexemes htaken' ▸ .more (x := t.lexeme) ht (show comma.lexeme.1 = _ from hcomma)
  · next hright =>
    rw [hcloses, TokenStream.check, s₅.peekKind?_lexemes] at hright
    cases hl : s₅.lexemes with
    | nil => simp [hl] at hright
    | cons right l =>
      have hclosing : right.1 = .punctuator .rightParen := by simpa [hl] using hright
      refine .pure ?_
      rw [hl]
      exact .last (x := t.lexeme) ht hclosing

theorem parameterTurn_eq (hc : c.strict = false) (params : List String)
    {t : Turn (List String) (List String)} {l l' : List Lexeme} (hs : s.lexemes = l)
    (h : ParameterTurn params l t l') :
    ∃ s', parameterTurn params c s = .ok (t, s') ∧ s'.lexemes = l' := by
  have name {x y : Lexeme} {l : List Lexeme} (hs : s.lexemes = x :: y :: l) (hx : x.IsName)
      (hy : y.1 = .punctuator .rightParen ∨ y.1 = .punctuator .comma) :
      ∃ s', s'.lexemes = y :: l ∧ parameterTurn params c s = (do
        if !(← atPunct .rightParen) then expect .comma
        return .again (x.declaredName :: params) : Parse _) c s' := by
    obtain ⟨s', hnext⟩ := ParseState.exists_next hs
    have hfirst (p : Punctuator) : firstKind? s.lexemes ≠ some (.punctuator p) := by
      rw [hs, firstKind?_cons]
      exact fun heq => hx.ne_punctuator p (Option.some.inj heq)
    have hassign : firstKind? s'.lexemes ≠ some (.punctuator .assign) := by
      rw [hnext.lexemes, firstKind?_cons]
      rcases hy with hy | hy <;> simp [hy]
    refine ⟨s', hnext.lexemes, ?_⟩
    unfold parameterTurn eat atPunct
    rw [bind_of_ok (eatKind_eq_false (hfirst _)), if_neg Bool.false_ne_true,
      bind_of_ok (atKind_eq_false (hfirst _)), if_neg Bool.false_ne_true]
    dsimp only
    rw [bind_of_ok (bindingIdentifier_next hc hnext hx), bind_of_ok (atKind_eq_false hassign),
      if_neg Bool.false_ne_true]
  cases h with
  | closed hright =>
    obtain ⟨s', hnext⟩ := ParseState.exists_next hs
    refine ⟨s', ?_, hnext.lexemes⟩
    unfold parameterTurn eat
    rw [bind_of_ok (eatKind_next hnext hright)]
    rfl
  | last hx hright =>
    obtain ⟨s', hs', heq⟩ := name hs hx (.inl hright)
    refine ⟨s', ?_, hs'⟩
    rw [heq, atPunct, bind_of_ok atKind_eq, hs', firstKind?_cons, hright]
    rfl
  | more hx hcomma =>
    obtain ⟨s', hs', heq⟩ := name hs hx (.inr hcomma)
    obtain ⟨s'', hnext⟩ := ParseState.exists_next hs'
    refine ⟨s'', ?_, hnext.lexemes⟩
    rw [heq, atPunct, bind_of_ok atKind_eq, hs', firstKind?_cons, hcomma, if_pos (by decide),
      bind_of_ok (expect_next hnext hcomma)]
    rfl

/-- By induction on the turns: the names are added to those before them, up to the closing
parenthesis. -/
theorem yields_parameterTurns (fuel : Nat) (params : List String) :
    (loop parameterTurn fuel params).Yields c s fun names s' => ∃ l names' right,
      s.lexemes = l ++ right :: s'.lexemes ∧ right.1 = .punctuator .rightParen ∧
        ParameterLexemes l names' ∧ names = params.reverse ++ names' := by
  induction fuel generalizing s params with
  | zero => exact .fail (p := throw _)
  | succ fuel ih =>
    refine .bind (yields_parameterTurn params) fun t s' ht => ?_
    generalize hs : s.lexemes = before at ht
    generalize hs' : s'.lexemes = after at ht
    cases ht with
    | @closed right l hright =>
      refine .pure ⟨[], [], right, ?_, hright, .nil, (List.append_nil _).symm⟩
      rw [hs', List.nil_append]
    | @last x right l hx hright =>
      refine Yields.mono (ih _) fun names s'' h => ?_
      obtain ⟨list, names', right', hlexemes, hright', hlist, rfl⟩ := h
      rw [hs'] at hlexemes
      cases hlist with
      | nil =>
        refine ⟨[x], _, right', ?_, hright', .last hx, by simp⟩
        rw [hlexemes]
        rfl
      | last hy | more hy =>
        exact absurd ((List.cons.inj hlexemes).1 ▸ hright) (hy.ne_punctuator _)
    | @more x comma l hx hcomma =>
      refine Yields.mono (ih _) fun names s'' h => ?_
      obtain ⟨list, names', right', hlexemes, hright', hlist, rfl⟩ := h
      rw [hs'] at hlexemes
      refine ⟨x :: comma :: list, _, right', ?_, hright', .more hx hcomma hlist, by simp⟩
      rw [hlexemes]
      rfl

/-- By induction on the list. -/
theorem parameterTurns_eq (hc : c.strict = false) {l rest : List Lexeme} {names : List String}
    (h : ParameterLexemes l names) {right : Lexeme} (hright : right.1 = .punctuator .rightParen)
    (hs : s.lexemes = l ++ right :: rest) {fuel : Nat} (hfuel : l.length < fuel)
    (params : List String) : ∃ s', loop parameterTurn fuel params c s =
      .ok (params.reverse ++ names, s') ∧ s'.lexemes = rest := by
  have closed {s : ParseState} (hs : s.lexemes = right :: rest) {fuel : Nat} (hfuel : 0 < fuel)
      (params : List String) :
      ∃ s', loop parameterTurn fuel params c s = .ok (params.reverse, s') ∧ s'.lexemes = rest := by
    obtain ⟨s', hturn, hs'⟩ := parameterTurn_eq hc params hs (.closed hright)
    exact ⟨s', loop_of_done hturn hfuel, hs'⟩
  induction h generalizing s fuel params with
  | nil =>
    rw [List.append_nil]
    exact closed hs hfuel params
  | @last x hx =>
    obtain ⟨fuel, rfl⟩ := Nat.exists_eq_add_one_of_ne_zero (Nat.ne_zero_of_lt hfuel)
    obtain ⟨s', hturn, hs'⟩ := parameterTurn_eq hc params hs (.last hx hright)
    obtain ⟨s'', hloop, hs''⟩ := closed hs' (Nat.lt_of_succ_lt_succ hfuel) (x.declaredName :: params)
    exact ⟨s'', (loop_of_again hturn).trans (hloop.trans (by simp)), hs''⟩
  | @more x comma l names hx hcomma _ ih =>
    obtain ⟨fuel, rfl⟩ := Nat.exists_eq_add_one_of_ne_zero (Nat.ne_zero_of_lt hfuel)
    rw [List.length_cons, List.length_cons] at hfuel
    obtain ⟨s', hturn, hs'⟩ := parameterTurn_eq hc params hs (.more hx hcomma)
    obtain ⟨s'', hloop, hs''⟩ := ih hs' (show l.length < fuel by omega) (x.declaredName :: params)
    exact ⟨s'', (loop_of_again hturn).trans (hloop.trans (by simp)), hs''⟩

/-! ### Lists in their parentheses -/

theorem yields_formalParameters_lexemes : g.formalParameters.Yields c s fun names s' =>
    ∃ left l right, s.lexemes = left :: (l ++ right :: s'.lexemes) ∧
      left.1 = .punctuator .leftParen ∧ right.1 = .punctuator .rightParen ∧
        ParameterLexemes l names := by
  rw [formalParameters_eq]
  refine .bind yields_expect fun _ s₁ h₁ => ?_
  obtain ⟨left, hleft, htaken⟩ := h₁
  refine Yields.mono (yields_parameterTurns _ _) fun names s₂ h₂ => ?_
  obtain ⟨l, names', right, hlexemes, hright, hl, rfl⟩ := h₂
  refine ⟨left.lexeme, l, right, ?_, hleft, hright, hl⟩
  rw [← hlexemes, ParseState.lexemes, htaken, List.map_cons, ParseState.lexemes]

/-- Sloppy code has a list of parameters wherever its tokens stand. -/
theorem formalParameters_of_lexemes (hc : c.strict = false) {left right : Lexeme}
    {l rest : List Lexeme} {names : List String} (hleft : left.1 = .punctuator .leftParen)
    (hl : ParameterLexemes l names) (hright : right.1 = .punctuator .rightParen)
    (hs : s.lexemes = left :: (l ++ right :: rest)) (hfuel : l.length < g.fuel) :
    ∃ s', g.formalParameters c s = .ok (names, s') ∧ s'.lexemes = rest := by
  obtain ⟨s₁, hnext⟩ := ParseState.exists_next hs
  obtain ⟨s₂, hloop, hs₂⟩ := parameterTurns_eq hc hl hright hnext.lexemes hfuel []
  refine ⟨s₂, ?_, hs₂⟩
  rw [formalParameters_eq, bind_of_ok (expect_next hnext hleft)]
  exact hloop

end Grammar

end Ecma
