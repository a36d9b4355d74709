import Ecma.Proofs.Syntax.Taking

/-! Expressions and statements of strict code are read from tokens that may stand there, and a
directive is read from those of a string literal. -/

namespace Ecma

open Parse

namespace Parse

variable {p : Parse Expr} {c : Surroundings} {s : ParseState}

instance [p.Spells] : p.allowIn.Spells :=
  ⟨fun c s => Spells.yields (p := p) { c with noIn := false } s⟩

theorem yields_expect {q : Punctuator} : (expect q).Yields c s fun _ s' =>
    ∃ t, t.kind = .punctuator q ∧ s.tokens.significant = t :: s'.tokens.significant := by
  refine .bind yields_eatKind fun b s' h => ?_
  split
  · exact .fail
  · next hb => exact .pure (h.1 (by simpa using hb))

end Parse

namespace Grammar

variable {g : Grammar} [hg : g.Spells]

/-! ### Primary and member expressions -/

theorem yields_parenthesized {c : Surroundings} {s : ParseState} : g.parenthesized.Yields c s
    fun e s' => ∃ used, s.Takes c.strict used s' ∧ (isString e = true →
      ∃ inner right, used = inner ++ [right] ∧ LiteralTokens inner ∧
        right.kind = .punctuator .rightParen) := by
  refine .still fun _ s₁ _ => .still fun _ s₂ _ => ?_
  split
  · exact .fail
  refine .bind (Spells.yields c s₂) fun e s₃ h => .bind yields_expect fun _ s₄ h₄ => .pure ?_
  obtain ⟨inner, htakes, hliteral⟩ := h
  obtain ⟨right, hright, htaken⟩ := h₄
  refine ⟨inner ++ [right], htakes.trans (.one htaken ?_), ?_⟩
  · exact fun _ => Token.isStrict_of_kind (by simp [hright])
  · exact fun hstring => ⟨inner, right, rfl, hliteral hstring, hright⟩

instance : g.primary.Spells := by
  refine ⟨fun c s => .bind yields_peek fun t s₁ h => ?_⟩
  obtain ⟨rfl, hpeek⟩ := h
  have hkind : s₁.tokens.peekKind? = some t.kind := by rw [TokenStream.peekKind?, hpeek]; rfl
  obtain ⟨rest, hnext⟩ := List.head?_eq_some_iff.mp (TokenStream.peek?_eq s₁.tokens ▸ hpeek)
  have leaf {f : Unit → Parse Expr} [∀ u, (f u).Strictly] (hf : ∀ u, (f u).Never isString)
      (ht : t.kind ≠ .stringLiteral) : (skip >>= f).Yields c s₁ (s₁.Spelled c.strict) :=
    .skip_never inferInstance hf hkind ht
  have number (x : Numeric) : (match x with
      | .number x => pure (.literal (.number x))
      | .bigInt i => pure (.literal (.bigInt i)) : Parse Expr).Strictly := by
    cases x <;> infer_instance
  have numeric (x : Numeric) : (match x with
      | .number x => pure (.literal (.number x))
      | .bigInt i => pure (.literal (.bigInt i)) : Parse Expr).Never isString := by
    cases x <;> exact .pure rfl
  split
  · next ht => exact leaf (fun _ => .pure rfl) (by simp [ht])
  · next ht =>
    refine .bind .checkReference fun _ s₂ h₂ => ?_
    obtain rfl := h₂
    exact leaf (fun _ => .pure rfl) (by simp [ht])
  · next ht =>
    refine .read ?_
    split
    · exact .fail
    · exact leaf (fun _ => .pure rfl) (by simp [ht])
  · next ht => exact leaf (fun _ => .pure rfl) (by simp [ht])
  · next ht => exact leaf (fun _ => .pure rfl) (by simp [ht])
  · next ht => exact leaf (fun _ => .after numeric) (by simp [ht])
  · next ht => exact leaf (fun _ => .after numeric) (by simp [ht])
  · next ht =>
    refine .bind (.skip_next hnext) fun _ s₂ hrest => .bind (yields_stringValue t) fun u s₃ h => ?_
    obtain ⟨rfl, hstrict⟩ := h
    exact .pure ⟨[t], .one (hrest ▸ hnext) hstrict, fun _ => .literal ht⟩
  · next ht =>
    refine .bind (.skip_next hnext) fun _ s₂ hrest => yields_parenthesized.mono fun e s₃ h => ?_
    obtain ⟨used, htakes, hstring⟩ := h
    have hleft : s₁.Takes c.strict [t] s₂ :=
      .one (hrest ▸ hnext) fun _ => Token.isStrict_of_kind (by simp [ht])
    refine ⟨[t] ++ used, hleft.trans htakes, fun h => ?_⟩
    obtain ⟨inner, right, rfl, hinner, hright⟩ := hstring h
    exact .parens ht hright hinner
  · exact Spells.yields c s₁
  · exact .fail
  · exact .fail
  · exact .fail
  · exact Spells.yields c s₁
  · exact .taken inferInstance (.after fun _ => .pure rfl) (.none rfl)
  · exact .fail

theorem yields_superProperty {c : Surroundings} {s : ParseState}
    (h : s.tokens.peekKind? = some (.keyword .superKw)) :
    g.superProperty.Yields c s (s.Spelled c.strict) := by
  refine .bind (P := fun _ s' => s' = s) (fun _ _ heq => by cases heq; rfl) fun start s₁ h₁ => ?_
  obtain rfl := h₁
  refine .skip_never (fun _ => .bind fun _ => .guard (.bind fun key? => ?_))
    (fun _ => .after fun _ => .guard (.after fun key? => ?_)) h (by simp)
  · split <;> infer_instance
  · split
    · infer_instance
    · infer_instance
    · exact .pure rfl

theorem follows_memberChain (e : Expr) : Follows e (g.memberChain e) := by
  refine .loop fun e c s => .bind yields_memberKey? fun key? s₁ h => ?_
  obtain ⟨used, htakes, hnone⟩ := h
  cases key? with
  | some key => exact .pure ⟨used, htakes, fun h => absurd h Bool.false_ne_true⟩
  | none => exact .pure ⟨used, htakes, fun _ => ⟨rfl, hnone rfl⟩⟩

instance : g.newExpression.Strictly := by
  refine .bind fun _ => .guard (.bind fun _ => .bind fun _ => ?_)
  split <;> infer_instance

instance : g.newExpression.Never isString := by
  refine .after fun _ => .guard (.after fun _ => .after fun _ => ?_)
  split <;> exact .after fun _ => .pure rfl

instance : g.memberExpression.Spells := by
  have chain {p : Parse Expr} {c : Surroundings} {s s₁ : ParseState}
      (h : p.Yields c s₁ (s.Spelled c.strict)) :
      (p >>= g.memberChain).Yields c s₁ (s.Spelled c.strict) :=
    .bind h fun e _ he => (follows_memberChain e).yields he
  refine ⟨fun c s => .bind yields_eatKind fun isNew s₁ h₁ => .bind .atKind fun isSuper s₂ h₂ => ?_⟩
  obtain ⟨rfl, hsuper⟩ := h₂
  split
  · next hnew =>
    obtain ⟨t, ht, htaken⟩ := h₁.1 hnew
    refine chain (.taken inferInstance inferInstance (.one htaken fun _ => ?_))
    exact Token.isStrict_of_kind (by simp [ht])
  next hnew =>
  obtain rfl := h₁.2 (by simpa using hnew)
  split
  · next hs => exact chain (yields_superProperty (beq_iff_eq.mp (hsuper.symm.trans hs)))
  · exact chain (Spells.yields c s₂)

/-! ### Calls -/

theorem yields_superCallExpression {c : Surroundings} {s : ParseState}
    (h : s.tokens.peekKind? = some (.keyword .superKw)) :
    g.superCallExpression.Yields c s (s.Spelled c.strict) := by
  refine .bind (P := fun _ s' => s' = s) (fun _ _ heq => by cases heq; rfl) fun start s₁ h₁ => ?_
  obtain rfl := h₁
  exact .skip_never (fun _ => .bind fun _ => .guard inferInstance)
    (fun _ => .after fun _ => .guard (.after fun _ => .pure rfl)) h (by simp)

theorem follows_callChain (e : Expr) : Follows e (g.callChain e) := by
  refine .loop fun e c s => .still fun called s₁ _ => ?_
  split
  · exact .taken inferInstance (.after fun _ => .pure rfl) (.none rfl)
  refine .bind yields_memberKey? fun key? s₂ h => ?_
  obtain ⟨used, htakes, hnone⟩ := h
  cases key? with
  | some key => exact .pure ⟨used, htakes, fun h => absurd h Bool.false_ne_true⟩
  | none => exact .pure ⟨used, htakes, fun _ => ⟨rfl, hnone rfl⟩⟩

instance : g.leftHandSideExpression.Spells := by
  have chain {p : Parse Expr} {c : Surroundings} {s : ParseState}
      (h : p.Yields c s (s.Spelled c.strict)) :
      (p >>= g.callChain).Yields c s (s.Spelled c.strict) :=
    .bind h fun e _ he => (follows_callChain e).yields he
  refine ⟨fun c s => .bind .atKind fun isSuper s₁ h₁ => .bind .nthIs fun isCall s₂ h₂ => ?_⟩
  obtain ⟨rfl, hsuper⟩ := h₁
  obtain ⟨rfl, -⟩ := h₂
  split
  · next hs =>
    rw [Bool.and_eq_true] at hs
    exact chain (yields_superCallExpression (beq_iff_eq.mp (hsuper.symm.trans hs.1)))
  · exact chain (Spells.yields c s₂)

/-! ### Operators -/

theorem yields_atUpdate? {c : Surroundings} {s : ParseState} : atUpdate?.Yields c s fun op? s' =>
    s' = s ∧ (op?.isSome = true → ∃ q, s.tokens.peekKind? = some (.punctuator q)) := by
  refine .bind .atKind fun up s₁ h => ?_
  obtain ⟨rfl, hup⟩ := h
  split
  · next h => exact .pure ⟨rfl, fun _ => ⟨_, beq_iff_eq.mp (hup.symm.trans h)⟩⟩
  refine .bind .atKind fun down s₂ h => ?_
  obtain ⟨rfl, hdown⟩ := h
  split
  · next h => exact .pure ⟨rfl, fun _ => ⟨_, beq_iff_eq.mp (hdown.symm.trans h)⟩⟩
  · exact .pure ⟨rfl, by simp⟩

instance : g.updateExpression.Spells := by
  refine ⟨fun c s => .still fun start s₁ _ => .bind yields_atUpdate? fun op? s₂ h => ?_⟩
  obtain ⟨rfl, hprefix⟩ := h
  cases op? with
  | some op =>
    obtain ⟨q, hq⟩ := hprefix rfl
    exact .skip_never inferInstance (fun _ => .after fun e => .after fun _ => .pure rfl) hq (by simp)
  | none =>
    refine .bind (Spells.yields c s₂) fun e _ he => Follows.yields (.still fun _ => ?_) he
    split
    · exact .pure
    refine fun c s => .bind yields_atUpdate? fun op? s₃ h => ?_
    obtain ⟨rfl, hpostfix⟩ := h
    cases op? with
    | some op =>
      obtain ⟨q, hq⟩ := hpostfix rfl
      refine .still fun _ s₄ h₄ => ?_
      exact .skip_never inferInstance (fun _ => .pure rfl) (h₄ ▸ hq) (by simp)
    | none => exact Follows.pure c s₃

instance (e : Expr) (l : Location) : (checkDelete e l).Still := by
  unfold checkDelete
  split <;> infer_instance

instance : g.unaryExpression.Spells := by
  refine ⟨fun c s => .bind yields_peek fun t s₁ h => ?_⟩
  obtain ⟨rfl, hpeek⟩ := h
  split
  · next build hbuild =>
    have hkind : s₁.tokens.peekKind? = some t.kind := by rw [TokenStream.peekKind?, hpeek]; rfl
    have hstring (e : Expr) : isString (build e) = false := by
      unfold unaryOperator? at hbuild
      split at hbuild <;> cases hbuild <;> rfl
    refine .skip_never (fun _ => .bind fun e => .optional fun _ => inferInstance)
      (fun _ => .after fun e => ?_) hkind fun hliteral => ?_
    · dsimp only
      split
      · exact .after fun _ => .pure (hstring e)
      · exact .pure (hstring e)
    · rw [hliteral] at hbuild
      cases hbuild
  · exact Spells.yields c s₁

instance : g.exponentiationExpression.Spells := by
  refine ⟨fun c s => .still fun kind s₁ _ => ?_⟩
  split
  · refine .bind (Spells.yields c s₁) fun e s₂ he => Follows.yields (.still fun _ => ?_) he
    exact .guard .pure
  refine .bind (Spells.yields c s₁) fun e s₂ he => Follows.yields (.eat ?_ .pure) he
  exact .after fun _ => .pure rfl

/-- By induction on the levels: the operands of a level are those of the tighter ones. -/
theorem spells_binaryExpression {levels : List BinaryLevel}
    (h : ∀ level ∈ levels, level .stringLiteral = none) : (g.binaryExpression levels).Spells := by
  induction levels with
  | nil => exact inferInstanceAs g.exponentiationExpression.Spells
  | cons level tighter ih =>
    rw [List.forall_mem_cons] at h
    have := ih h.2
    refine .bind fun first => .loop fun left c s => .bind yields_peekKind? fun kind? s₁ h₁ => ?_
    obtain ⟨rfl, hkind⟩ := h₁
    split
    · next op hop =>
      obtain ⟨kind, hnext, hlevel⟩ := Option.bind_eq_some_iff.mp hop
      refine .skip_never inferInstance (fun _ => .after fun _ => .pure rfl) (hkind ▸ hnext) ?_
      rintro rfl
      exact absurd (h.1.symm.trans hlevel) (by simp)
    · exact .pure ⟨[], .none rfl, fun _ => ⟨rfl, rfl⟩⟩

instance (noIn : Bool) : (g.binaryExpression (binaryLevels noIn)).Spells :=
  spells_binaryExpression (by simp [binaryLevels, relational])

/-- Operands of the same operator, one after another. -/
theorem follows_logical {q : Punctuator} {op : LogicalOp} {operand : Parse Expr} [operand.Spells]
    (e : Expr) {fuel : Nat} : Follows e (loop (fun left => do
      if ← eat q then return .again (.logical op left (← operand))
      return .done left) fuel e) := by
  refine .loop fun left c s => .bind yields_eatKind fun b s₁ h => ?_
  split
  · next hb =>
    obtain ⟨t, ht, htaken⟩ := h.1 hb
    refine .taken inferInstance (.after fun _ => .pure rfl) (.one htaken fun _ => ?_)
    exact Token.isStrict_of_kind (by simp [ht])
  · next hb =>
    obtain rfl := h.2 (by simpa using hb)
    exact .pure ⟨[], .none rfl, fun _ => ⟨rfl, rfl⟩⟩

instance : g.logicalAnd.Spells :=
  ⟨fun c _ => .read ((Spells.bind fun _ => follows_logical _).yields c _)⟩

instance : g.logicalOr.Spells :=
  .bind fun _ => .bind (follows_logical _) fun _ => .still fun _ => .guard .pure

instance : g.conditionalExpression.Spells := by
  refine .bind fun test => .eat ?_ .pure
  exact .after fun _ => .after fun _ => .after fun _ => .pure rfl

instance : g.assignmentExpression.Spells := by
  refine ⟨fun c s => .still fun start s₁ _ => .bind (Spells.yields c s₁) fun left s₂ he => ?_⟩
  refine Follows.yields (.still fun _ => .guard <| .still fun _ => .guard fun c s => ?_) he
  refine .bind yields_peekKind? fun kind? s₃ h => ?_
  obtain ⟨rfl, hkind⟩ := h
  split
  · exact Follows.pure c s₃
  next op hop =>
  obtain ⟨kind, hnext, hop⟩ := Option.bind_eq_some_iff.mp hop
  refine .still fun _ s₄ h₄ => ?_
  refine .skip_never inferInstance (fun _ => .after fun _ => .pure rfl) (h₄ ▸ hkind ▸ hnext) ?_
  rintro rfl
  cases hop

instance : g.expression.Spells :=
  .bind fun _ => .still fun _ => .guard .pure

/-! ### Declarations -/

instance : atLetDeclaration.Still := by
  refine .bind fun b => ?_
  split
  · infer_instance
  refine .bind fun t => ?_
  cases t with
  | none => infer_instance
  | some t => simp only; split <;> infer_instance

instance : atLet.Still := by unfold atLet; infer_instance

instance : atDeclaration.Still := by
  refine .bind fun kind => ?_
  split <;> infer_instance

instance (kind : VarKind) (name : String) (l : Location) : (bindName kind name l).Still := by
  unfold bindName; infer_instance

instance : g.condition.Strictly := by unfold condition; infer_instance

instance : g.initializer?.Strictly := by unfold initializer?; infer_instance

instance (kind : VarKind) (needsInit : Bool) : (g.declarator kind needsInit).Strictly :=
  .bind fun _ => .bind fun _ => .bind fun _ => .bind fun _ => .guard inferInstance

instance (kind : VarKind) (needsInit : Bool) : (g.declarators kind needsInit).Strictly :=
  .loop fun _ => .bind fun _ => inferInstance

instance : g.variableStatement.Strictly := by unfold variableStatement; infer_instance

instance : g.lexicalDeclaration.Strictly := by
  refine .bind fun letVar => ?_
  split <;> infer_instance

instance : g.block.Strictly := by
  have : (loop (fun done => do
      if ← eat .rightBrace then return .done done.reverse
      if ← atEnd then fail .unexpectedEnd
      return .again ((← g.item) :: done)) g.fuel [] : Parse (List Stmt)).Strictly := by
    refine .loop fun done => .bind fun _ => ?_
    split
    · infer_instance
    · exact .bind fun _ => .guard inferInstance
  unfold block
  infer_instance

/-! ### Statements -/

instance (n fuel : Nat) : (labelsLoop n fuel).Still := by
  induction fuel generalizing n with
  | zero => exact inferInstanceAs (throw _ : Parse Bool).Still
  | succ fuel ih =>
    refine .bind fun t => ?_
    cases t with
    | none => infer_instance
    | some t =>
      refine .bind fun b => ?_
      split
      · exact ih _
      · split <;> infer_instance

theorem directed_labeledStatement {c : Surroundings} {s : ParseState}
    (h : s.tokens.peekKind? = some .identifier) :
    g.labeledStatement.Yields c s (s.Directed c.strict) := by
  have labeled (label : String) (isLoop : Bool) : (withReader (fun c =>
      { c with labels := c.labels ++ [(label, isLoop)] }) g.subStatement).Strictly :=
    .withReader fun _ h => h
  obtain ⟨t, rest, hnext, hkind⟩ := TokenStream.exists_next h
  refine .bind .advance fun t' s₁ htaken => ?_
  obtain rfl : t = t' := (List.cons.inj (hnext.symm.trans htaken)).1
  refine .taken (.bind fun _ => .bind fun _ => .bind fun _ => .guard inferInstance)
    (.after fun _ => .after fun _ => .after fun _ => .guard ?_) (.one htaken fun _ => ?_)
  · exact .after fun _ => .after fun _ => .pure rfl
  · exact Token.isStrict_of_kind (by simp [hkind])

instance : g.ifStatement.Strictly := by unfold ifStatement; infer_instance

instance : g.loopBody.Strictly := .withReader fun _ h => h

instance : g.whileStatement.Strictly := by unfold whileStatement; infer_instance

instance : g.doStatement.Strictly := by unfold doStatement; infer_instance

/-- The head of a `for` statement that starts a declaration starts with a keyword. -/
theorem yields_forKind?_keyword {c : Surroundings} {s : ParseState} : forKind?.Yields c s
    fun kind? _ => kind?.isSome = true → ∃ k, s.tokens.peekKind? = some (.keyword k) := by
  refine .bind .atKind fun isVar s₁ h => ?_
  obtain ⟨rfl, hvar⟩ := h
  split
  · next h => exact .pure fun _ => ⟨_, beq_iff_eq.mp (hvar.symm.trans h)⟩
  cases hlet : s₁.tokens.check (.keyword .letKw) with
  | true => exact Yields.any.mono fun _ _ _ _ => ⟨_, beq_iff_eq.mp hlet⟩
  | false =>
    refine .bind (yields_atLet hlet) fun isLet s₂ h => ?_
    obtain ⟨rfl, rfl⟩ := h
    refine .bind .atKind fun isConst s₃ h => ?_
    obtain ⟨rfl, hconst⟩ := h
    split
    · next h => exact .pure fun _ => ⟨_, beq_iff_eq.mp (hconst.symm.trans h)⟩
    · exact .pure (by simp)

instance : forKind?.Still := by unfold forKind?; infer_instance

instance : g.forInit.Strictly := by
  refine .bind fun _ => ?_
  split
  · infer_instance
  refine ⟨fun c s => .bind ((Still.yields c s).and yields_forKind?_keyword) fun kind? s₁ h => ?_⟩
  obtain ⟨hstill, hkeyword⟩ := h
  cases kind? with
  | some kind =>
    obtain ⟨k, hk⟩ := hkeyword rfl
    refine (yields_skip inferInstance (hstill ▸ hk) (by simp)).mono fun _ _ h => ?_
    obtain ⟨used, htakes⟩ := h
    exact ⟨used, hstill ▸ htakes.tokens, htakes.strictly⟩
  | none => exact Strictly.yields_after (.none (hstill ▸ rfl))

instance (init : ForInit) : (checkForInit init).Still := by
  cases init with
  | «variables» kind declarators =>
    simp only [checkForInit]
    have distinct : (if (kind != .var) = true then
        (match firstClash [] [] (Stmt.declaratorNames declarators) with
          | some name => fail (.duplicateDeclaration name)
          | none => pure ())
        else pure () : Parse Unit).Still := by
      split
      · split <;> infer_instance
      · infer_instance
    split
    · infer_instance
    · exact distinct
  | _ => exact inferInstanceAs (pure () : Parse Unit).Still

instance (stop : Punctuator) : (g.optionalExpression stop).Strictly := by
  unfold optionalExpression; infer_instance

instance : g.forStatement.Strictly := by
  have : (withReader (fun c => { c with noIn := true }) g.forInit).Strictly :=
    .withReader fun _ h => h
  refine .bind fun _ => .bind fun _ => .guard <| .bind fun _ => .bind fun _ => .bind fun _ => ?_
  exact .bind fun _ => .guard (.bind fun _ => inferInstance)

instance : g.returnStatement.Strictly := by
  refine .bind fun _ => .bind fun _ => .bind fun _ => .guard ?_
  refine .bind fun _ => .bind fun _ => .bind fun _ => .bind fun _ => ?_
  infer_instance

instance : label?.Strictly := by
  refine ⟨fun c s => .bind (Still.yields c s) fun _ s₁ h₁ => .bind .atKind fun _ s₂ h₂ => ?_⟩
  obtain ⟨rfl, hkind⟩ := h₂
  split
  · exact .pure ⟨[], .none (h₁ ▸ rfl)⟩
  next hlabel =>
  refine .bind .advance fun t s₃ htaken => .pure ⟨[t], .one (h₁ ▸ htaken) fun _ => ?_⟩
  simp only [Bool.or_eq_true, Bool.not_eq_true', not_or, Bool.not_eq_false] at hlabel
  have hnext := beq_iff_eq.mp (hkind.symm.trans hlabel.2)
  rw [TokenStream.peekKind?, TokenStream.peek?_eq, htaken] at hnext
  exact Token.isStrict_of_kind (by simp [Option.some.inj hnext])

instance : breakStatement.Strictly := by
  refine .bind fun _ => .bind fun _ => .bind fun _ => .bind fun label => ?_
  cases label with
  | some label => exact .guard inferInstance
  | none => exact .guard inferInstance

instance : continueStatement.Strictly := by
  refine .bind fun _ => .bind fun _ => .bind fun c => .guard (.bind fun label => ?_)
  cases label with
  | none => infer_instance
  | some label =>
    dsimp only
    split
    · infer_instance
    · exact .guard inferInstance

instance : g.throwStatement.Strictly :=
  .bind fun _ => .bind fun _ => .guard (.bind fun _ => inferInstance)

instance : catchParameter.Strictly := by unfold catchParameter; infer_instance

instance : g.handler?.Strictly := by
  refine .bind fun _ => ?_
  split
  · infer_instance
  refine .bind fun param => .bind fun _ => ?_
  cases param <;> infer_instance

instance : g.finalizer?.Strictly := by unfold finalizer?; infer_instance

instance : g.tryStatement.Strictly := by
  refine .bind fun _ => .bind fun _ => .bind fun _ => .bind fun _ => .bind fun _ => ?_
  split <;> infer_instance

instance : g.caseBody.Strictly := by
  refine .loop fun done => .bind fun _ => .bind fun _ => .bind fun _ => .bind fun _ => ?_
  dsimp only
  split <;> infer_instance

instance (seenDefault : Bool) : (g.caseTest seenDefault).Strictly := by
  refine .bind fun _ => .bind fun _ => ?_
  split
  · infer_instance
  refine .bind fun _ => ?_
  split
  · exact .guard inferInstance
  · infer_instance

instance : g.switchCases.Strictly := by
  refine .loop fun done => .bind fun _ => ?_
  infer_instance

instance : g.switchStatement.Strictly := by
  have : (withReader (fun c => { c with inSwitch := true }) g.switchCases).Strictly :=
    .withReader fun _ h => h
  unfold switchStatement
  infer_instance

/-- A semicolon is taken, or left out. -/
theorem yields_semicolon {c : Surroundings} {s : ParseState} : semicolon.Yields c s fun _ s' =>
    ∃ used, s.Takes c.strict used s' ∧
      (used = [] ∨ ∃ stop, used = [stop] ∧ stop.kind = .punctuator .semicolon) := by
  refine .bind yields_eatKind fun b s₁ h => ?_
  split
  · next hb =>
    obtain ⟨stop, hstop, htaken⟩ := h.1 hb
    refine .pure ⟨[stop], .one htaken fun _ => ?_, .inr ⟨stop, rfl, hstop⟩⟩
    exact Token.isStrict_of_kind (by simp [hstop])
  next hb =>
  obtain rfl := h.2 (by simpa using hb)
  refine .still fun _ s₂ _ => .still fun _ s₃ _ => .still fun _ s₄ _ => ?_
  split
  · exact (Still.yields c s₄).mono fun _ _ h => ⟨[], .none (h ▸ rfl), .inl rfl⟩
  · exact .fail

instance : g.expressionStatement.Directs := by
  refine ⟨fun c s => .bind (Spells.yields c s) fun e s₁ he => .bind yields_semicolon ?_⟩
  intro _ s₂ h
  obtain ⟨used, htakes, hliteral⟩ := he
  obtain ⟨used', htakes', hstop⟩ := h
  refine .pure ⟨used ++ used', htakes.trans htakes', fun hdirective => ?_⟩
  rw [isDirective_expression] at hdirective
  rcases hstop with rfl | ⟨stop, rfl, hstop⟩
  · rw [List.append_nil]
    exact .open (hliteral hdirective)
  · exact .closed hstop (hliteral hdirective)

instance : g.forStatement.Never isDirective := by
  refine .after fun _ => .after fun _ => .guard <| .after fun _ => .after fun _ => ?_
  refine .after fun _ => .after fun _ => .guard <| .after fun _ => .after fun _ => ?_
  exact .after fun _ => .after fun _ => .after fun _ => .after fun _ => .after fun _ => .pure rfl

instance : g.returnStatement.Never isDirective := by
  refine .after fun _ => .after fun _ => .after fun _ => .guard <| .after fun _ => ?_
  refine .after fun _ => .after fun _ => .after fun _ => ?_
  dsimp only
  split <;> exact .after fun _ => .after fun _ => .pure rfl

instance : breakStatement.Never isDirective := by
  refine .after fun _ => .after fun _ => .after fun _ => .after fun label => ?_
  cases label <;> exact .guard (.after fun _ => .pure rfl)

instance : continueStatement.Never isDirective := by
  refine .after fun _ => .after fun _ => .after fun _ => .guard <| .after fun label => ?_
  cases label with
  | none => exact .after fun _ => .pure rfl
  | some label =>
    dsimp only
    split
    · infer_instance
    · exact .guard (.after fun _ => .pure rfl)

instance : g.tryStatement.Never isDirective := by
  refine .after fun _ => .after fun _ => .after fun _ => .after fun _ => .after fun _ => ?_
  split
  · exact .pure rfl
  · exact .pure rfl
  · exact .pure rfl
  · infer_instance

theorem directed_statement {c : Surroundings} {s : ParseState} {first : TokenKind}
    (h : s.tokens.peekKind? = some first) :
    (g.statement first).Yields c s (s.Directed c.strict) := by
  have other {p : Parse Stmt} [hp : p.Strictly] (hdirective : p.Never isDirective) :
      p.Yields c s (s.Directed c.strict) :=
    .taken hp hdirective (.none rfl)
  unfold statement
  split
  · exact other (.after fun _ => .pure rfl)
  · exact .skip_never inferInstance (fun _ => .pure rfl) h (by simp)
  · exact other (.after fun _ => .after fun _ => .after fun _ => .pure rfl)
  · refine other (.after fun _ => .after fun _ => .after fun _ => .after fun _ => ?_)
    split
    · exact .after fun _ => .pure rfl
    · exact .pure rfl
  · exact other (.after fun _ => .after fun _ => .after fun _ => .pure rfl)
  · exact other (.after fun _ => .after fun _ => .after fun _ => .after fun _ => .after fun _ =>
      .pure rfl)
  · exact other inferInstance
  · exact other inferInstance
  · exact other inferInstance
  · exact other inferInstance
  · exact other (.after fun _ => .after fun _ => .guard <| .after fun _ => .after fun _ => .pure rfl)
  · exact other inferInstance
  · exact other (.after fun _ => .after fun _ => .after fun _ => .after fun _ => .after fun _ =>
      .pure rfl)
  · exact .fail
  · exact .fail
  · exact .fail
  · exact .skip_never inferInstance (fun _ => .after fun _ => .pure rfl) h (by simp)
  · refine .bind .nthIs fun b s₁ h₁ => ?_
    obtain ⟨rfl, -⟩ := h₁
    split
    · exact directed_labeledStatement h
    · exact Directs.yields c s₁
  · exact Directs.yields c s

instance (first : TokenKind) : (g.declaration first).Strictly := by
  unfold declaration
  split <;> infer_instance

instance : g.lexicalDeclaration.Never isDirective := by
  refine .after fun _ => ?_
  split
  · exact .after fun _ => .after fun _ => .after fun _ => .pure rfl
  · exact .after fun _ => .after fun _ => .after fun _ => .after fun _ => .pure rfl

instance (first : TokenKind) : (g.declaration first).Never isDirective := by
  unfold declaration
  split
  · refine .after fun _ => .after fun _ => .after fun _ => .guard ?_
    exact .after fun _ => .after fun _ => .pure rfl
  · exact .after fun _ => .pure rfl
  · exact inferInstance
  · exact inferInstance
  · infer_instance

instance : g.statementListItem.Directs := by
  refine ⟨fun c s => .bind yields_peekKind? fun kind? s₁ h => ?_⟩
  obtain ⟨rfl, hkind⟩ := h
  cases kind? with
  | none => exact .fail
  | some first =>
    refine .still fun b s₂ h₂ => ?_
    split
    · exact .taken inferInstance inferInstance (.none rfl)
    · exact directed_statement (h₂ ▸ hkind.symm)

instance : g.singleStatement.Strictly := by
  refine ⟨fun c s => .bind yields_peekKind? fun kind? s₁ h => ?_⟩
  obtain ⟨rfl, hkind⟩ := h
  cases kind? with
  | none => exact .fail
  | some first =>
    refine .bind (Still.yields c s₁) fun b s₂ h₂ => ?_
    split
    · exact .fail
    · refine (directed_statement (h₂ ▸ hkind.symm)).mono fun t s₃ h => ?_
      obtain ⟨used, htakes, -⟩ := h
      exact ⟨used, h₂ ▸ htakes.tokens, htakes.strictly⟩

end Grammar

theorem Grammar.spells_ofFuel (n : Nat) : (ofFuel n).Spells := by
  induction n with
  | zero =>
    refine ⟨?_, ?_, ?_, ?_, ?_, ⟨fun c s => ?_⟩, ?_⟩
    · exact inferInstanceAs (throw _ : Parse Expr).Spells
    · exact inferInstanceAs (throw _ : Parse Expr).Spells
    · exact inferInstanceAs (throw _ : Parse Expr).Spells
    · exact inferInstanceAs (throw _ : Parse Expr).Spells
    · exact inferInstanceAs (throw _ : Parse Expr).Spells
    · exact Yields.fail (p := throw _)
    · exact inferInstanceAs (throw _ : Parse Stmt).Strictly
  | succ n ih =>
    exact
      { assignment := inferInstanceAs (ofFuel n).assignmentExpression.Spells
        exponentiation := inferInstanceAs (ofFuel n).exponentiationExpression.Spells
        unary := inferInstanceAs (ofFuel n).unaryExpression.Spells
        member := inferInstanceAs (ofFuel n).memberExpression.Spells
        leftHandSide := inferInstanceAs (ofFuel n).leftHandSideExpression.Spells
        item := inferInstanceAs (ofFuel n).statementListItem.Directs
        subStatement := inferInstanceAs (ofFuel n).singleStatement.Strictly }

end Ecma
