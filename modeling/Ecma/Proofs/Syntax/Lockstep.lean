import Ecma.Proofs.Syntax.Insertion

/-! Statements side by side: a semicolon that was left out is taken where it is put in, and looked past
by no statement. -/

namespace Ecma

theorem LabelsAhead.extend {n : Nat} {tokens : List Token} (hlabels : LabelsAhead n tokens)
    {t colon : Token} (ht : tokens[n]? = some t) (hname : t.kind = .identifier)
    (hnext : tokens[n + 1]? = some colon) (hcolon : colon.kind = .punctuator .colon) :
    LabelsAhead (n + 1) tokens ∧ LabelsAhead (n + 2) tokens := by
  induction hlabels with
  | @none tokens =>
    obtain ⟨rest, rfl⟩ : ∃ rest, tokens = t :: colon :: rest := by
      match tokens with
      | [] => cases ht
      | [_] => cases hnext
      | _ :: _ :: rest => cases ht; cases hnext; exact ⟨rest, rfl⟩
    exact ⟨.name hname hcolon, .label hname hcolon .none⟩
  | name ht' hc =>
    cases ht
    rw [hc] at hname
    cases hname
  | label ht' hc _ ih =>
    obtain ⟨h, h'⟩ := ih ht hnext
    exact ⟨.label ht' hc h, .label ht' hc h'⟩

open Parse Insertion

namespace Grammar

variable {i : Insertion} {g h : Grammar} [hp : Parallel i g h]

/-! ### Declarations -/

instance : i.First g.condition h.condition := by unfold condition; infer_instance

instance (kind : VarKind) (name : String) (l : Location) :
    i.Free (bindName kind name l) (bindName kind name l) := by
  unfold bindName; infer_instance

instance : i.Free g.initializer? h.initializer? := by
  have := free_eat (i := i) (q := .assign) (by simp)
  exact .free fun _ => inferInstance

instance (kind : VarKind) (needsInit : Bool) :
    i.First (g.declarator kind needsInit) (h.declarator kind needsInit) :=
  .later fun _ => .first fun _ => .free fun _ => .free fun _ => .guard inferInstance

instance (kind : VarKind) (needsInit : Bool) :
    i.First (g.declarators kind needsInit) (h.declarators kind needsInit) := by
  have := free_eat (i := i) (q := .comma) (by simp)
  exact .firstLoop (fun _ => .first fun _ => .free fun _ => inferInstance) hp.fuel

instance : i.First g.variableStatement h.variableStatement := by
  unfold variableStatement; infer_instance

instance : i.First g.lexicalDeclaration h.lexicalDeclaration :=
  .later fun _ => inferInstance

instance : i.First g.block h.block := by
  refine .first fun _ => .ofFirst ?_
  have hloop : i.First
      (loop (fun done => do
        if ← eat .rightBrace then return .done done.reverse
        if ← atEnd then fail .unexpectedEnd
        return .again ((← g.item) :: done)) g.fuel [])
      (loop (fun done => do
        if ← eat .rightBrace then return .done done.reverse
        if ← atEnd then fail .unexpectedEnd
        return .again ((← h.item) :: done)) h.fuel []) :=
    .closedLoop (fun _ => .firm fun _ => .guard inferInstance)
      (fun _ => .after fun _ => .guard inferInstance) hp.fuel
  infer_instance

instance : i.First g.expressionStatement h.expressionStatement := by
  unfold expressionStatement; infer_instance

/-! ### Labels -/

/-- The look past labels has the same answer in both runs, or the insertion is among the labels. -/
theorem labelsLoop_agrees {c : Surroundings} {s t : ParseState} (hjoined : i.Joined s t)
    (hnear : i.Near s.tokens.rest t.tokens.rest) {n fuel fuel' : Nat} (hfuel : fuel ≤ fuel')
    (hn : s.tokens.rest = t.tokens.rest ∨ i.left + n ≤ s.tokens.remaining)
    (hlabels : LabelsAhead n s.tokens.significant) :
    (labelsLoop n fuel).Yields c s fun b s' => s' = s ∧
      (labelsLoop n fuel' c t = .ok (b, t) ∨
        ∃ k, i.Before k s ∧ LabelsAhead k s.tokens.significant) := by
  induction fuel generalizing n fuel' with
  | zero => exact Yields.fail (p := throw _)
  | succ fuel ih =>
    obtain ⟨fuel', rfl⟩ : ∃ m, fuel' = m + 1 := ⟨fuel' - 1, by omega⟩
    rcases hjoined.peekNth? hnear hn with ⟨hsame, hn'⟩ | ⟨-, hbefore⟩
    · rw [labelsLoop, labelsLoop]
      refine .bind (P := fun u? s' => s' = s ∧ peekNth? n c t = .ok (u?, t) ∧
        u? = s.tokens.significant[n]?) (fun u? s' heq => ?_) fun u? s₁ h₁ => ?_
      · cases heq
        exact ⟨rfl, congrArg (fun u? => Except.ok (u?, t)) hsame, TokenStream.peekNth?_eq _ _⟩
      obtain ⟨rfl, heq, hu⟩ := h₁
      rw [bind_of_ok heq]
      cases u? with
      | none => exact .pure ⟨rfl, .inl rfl⟩
      | some u =>
        have isColon (t : ParseState) : nthIs (n + 1) .colon c t =
            .ok ((t.tokens.peekNth? (n + 1)).any fun v => v.kind == .punctuator .colon, t) := rfl
        dsimp only
        rw [bind_of_ok (isColon t)]
        refine .bind (P := fun b s' => s' = s₁ ∧ nthIs (n + 1) .colon c s₁ = .ok (b, s₁))
          (fun b s' heq => by cases heq; exact ⟨rfl, rfl⟩) fun b s₂ h₂ => ?_
        obtain ⟨rfl, hb⟩ := h₂
        have extended (hlabel : (u.kind == .identifier && b) = true) :
            LabelsAhead (n + 1) s₂.tokens.significant ∧
              LabelsAhead (n + 2) s₂.tokens.significant := by
          rw [Bool.and_eq_true_iff, beq_iff_eq] at hlabel
          obtain ⟨colon, hnext, hcolon⟩ := (Yields.nthIs _ _ hb).2 hlabel.2
          exact hlabels.extend hu.symm hlabel.1 hnext hcolon
        rcases hjoined.peekNth? hnear hn' with ⟨hsame', hn''⟩ | ⟨hstop, hbefore⟩
        · rw [hsame', (Prod.mk.inj (Except.ok.inj ((isColon s₂).symm.trans hb))).1]
          split
          · next hlabel => exact ih (by omega) hn'' (extended hlabel).2
          · exact (@Steady.yields _ _ (by split <;> infer_instance) c s₂).mono fun _ _ h =>
              ⟨h.1, .inl (h.2 t)⟩
        · simp only [hstop, Option.any_some, i.kind_stop]
          split
          · next hlabel =>
            exact (labelsLoop_loopAhead (n + 2) fuel c s₂).mono fun _ _ h =>
              ⟨h.1, .inr ⟨n + 1, hbefore, (extended hlabel).1⟩⟩
          · refine (@Steady.yields _ _ (by split <;> infer_instance) c s₂).mono fun _ _ h =>
              ⟨h.1, .inl ?_⟩
            rw [if_neg (by simp), h.2 t]
    · intro b s' heq
      have hunmoved := (labelsLoop_loopAhead n (fuel + 1) c s).mono fun _ _ h => h.1
      exact ⟨hunmoved b s' heq, .inr ⟨n, hbefore, hlabels⟩⟩

theorem firm_labels (label : String) : i.Firm
    (do
      let isLoop ← labelsLoop 0 g.fuel
      let s ← withReader (fun c => { c with labels := c.labels ++ [(label, isLoop)] })
        g.subStatement
      return Stmt.labeled label s)
    (do
      let isLoop ← labelsLoop 0 h.fuel
      let s ← withReader (fun c => { c with labels := c.labels ++ [(label, isLoop)] })
        h.subStatement
      return Stmt.labeled label s) := by
  have := hp.moves
  refine .ofNear inferInstance (fun c s t hc hjoined hnear => ?_) Nat.one_pos (Nat.le_refl _)
  have hleft := hnear.remaining.imp_right Nat.le_of_lt
  refine Yields.bind (labelsLoop_agrees hjoined hnear hp.fuel hleft .none) fun isLoop s₁ h₁ => ?_
  obtain ⟨rfl, heq | ⟨k, hbefore, hlabels⟩⟩ := h₁
  · have hbody : i.Firm
        (withReader (fun c => { c with labels := c.labels ++ [(label, isLoop)] }) g.subStatement)
        (withReader (fun c => { c with labels := c.labels ++ [(label, isLoop)] }) h.subStatement) :=
      hp.subStatement.within fun _ h => h
    have hdone (s : Stmt) : i.Firm (pure (Stmt.labeled label s)) (pure (Stmt.labeled label s)) :=
      inferInstance
    exact ((hbody.leads c s₁ t hc hjoined).step hc hdone Nat.one_pos (Nat.zero_le _)
      (Nat.zero_le _)).mono fun b s' h => by rwa [bind_of_ok heq]
  · refine .bind (.withReader (this.subStatement _ hlabels)) fun body s₂ h₂ => .pure (.inl ?_)
    exact hbefore.passed h₂ (by omega) (by omega)

instance : i.Firm g.labeledStatement h.labeledStatement :=
  .firm fun t => .firm fun _ => .firm fun _ => .firm fun _ => .guard (firm_labels t.text)

/-! ### Statements -/

instance : i.Firm g.ifStatement h.ifStatement := by
  refine .firm fun _ => .firm fun _ => .firm fun _ => .firm fun _ => ?_
  infer_instance

instance : i.Firm g.loopBody h.loopBody :=
  hp.subStatement.within fun _ h => h

instance : i.Firm g.whileStatement h.whileStatement := by
  unfold whileStatement; infer_instance

instance : i.Firm g.doStatement h.doStatement := by
  unfold doStatement; infer_instance

/-- Where `let` starts a declaration in the first run only, the semicolon is behind it. -/
theorem foresees_atLetDeclaration (i : Insertion) : i.Foresees atLetDeclaration false := by
  refine .ask fun b => ?_
  split
  · exact .same
  · refine .bind (foresees_peekNth? i) (fun u? => ?_) ?_
    · split
      · infer_instance
      · split <;> infer_instance
    · simp only [i.kind_stop]

theorem foresees_atLet (i : Insertion) : i.Foresees atLet false := by
  intro c s t hc hjoined hnear
  -- Without a declaration the word alone decides, in both runs from the same token.
  have word (b : Bool) : i.SharesNear (if b = true then pure true else do
      return (← strict) && (← atKeyword .letKw)) := inferInstance
  have same (b : Bool) : (if b = true then pure true else do
      return (← strict) && (← atKeyword .letKw)).Yields c s fun a s' => s' = s ∧
        (if b = true then pure true else do
          return (← strict) && (← atKeyword .letKw) : Parse Bool) c t = Except.ok (a, t) :=
    ((word b).unmoved c s).and ((word b).yields c s t hc hjoined hnear)
  refine .bind (foresees_atLetDeclaration i c s t hc hjoined hnear) fun b s₁ h₁ => ?_
  obtain ⟨rfl, heq | ⟨heq, hbefore⟩⟩ := h₁
  · exact (same b).mono fun a s' h => ⟨h.1, .inl ((bind_of_ok heq).trans h.2)⟩
  · cases b with
    | false => exact (same false).mono fun a s' h => ⟨h.1, .inl ((bind_of_ok heq).trans h.2)⟩
    | true =>
      refine .pure ⟨rfl, ?_⟩
      obtain ⟨r, hr⟩ : ∃ r, atLet c t = .ok (r, t) := ⟨_, bind_of_ok heq⟩
      cases r with
      | true => exact .inl hr
      | false => exact .inr ⟨hr, hbefore⟩

theorem foresees_atDeclaration (i : Insertion) : i.Foresees atDeclaration false := by
  refine .ask fun kind => ?_
  split
  · exact .same
  · exact .same
  · exact .same
  · exact foresees_atLet i

omit hp in
/-- The declaration in the head of a loop starts with a keyword and a name. -/
theorem yields_forVariables [g.Moves] (kind : VarKind) {c : Surroundings} {s : ParseState}
    {u : Token} {rest : List Token} (hnext : s.tokens.significant = u :: rest) :
    (do
      skip
      return ForInit.variables kind (← g.declarators kind false)).Yields c s
        fun _ s' => s.Moves 2 2 s' :=
  .skip_then (m := 1) (n := 1) (fun _ => inferInstance) hnext

/-- In the head of a loop only `let` looks further than the next token. -/
theorem forKind?_agrees {c : Surroundings} {s t : ParseState} (hc : c.source = [])
    (hjoined : i.Joined s t) (hnear : i.Near s.tokens.rest t.tokens.rest) :
    forKind?.Yields c s fun kind? s' => s' = s ∧
      (forKind? c t = .ok (kind?, t) ∨ (kind? = some .letVar ∧ i.Before 1 s)) := by
  have ask {p : Parse Bool} [h : i.SharesNear p] :
      p.Yields c s fun b s' => s' = s ∧ p c t = .ok (b, t) :=
    (h.unmoved c s).and (h.yields c s t hc hjoined hnear)
  refine Yields.bind ask fun isVar s₁ h₁ => ?_
  obtain ⟨rfl, hvar⟩ := h₁
  rw [forKind?, bind_of_ok hvar]
  split
  · exact .pure ⟨rfl, .inl rfl⟩
  refine Yields.bind (foresees_atLet i c s₁ t hc hjoined hnear) fun isLet s₂ h₂ => ?_
  obtain ⟨rfl, hlet⟩ := h₂
  cases isLet with
  | true => exact .pure ⟨rfl, hlet.imp (fun heq => by rw [bind_of_ok heq]; rfl) fun h => ⟨rfl, h.2⟩⟩
  | false =>
    have hlet : atLet c t = .ok (false, t) := hlet.elim id And.left
    rw [bind_of_ok hlet]
    refine Yields.bind ask fun isConst s₃ h₃ => ?_
    obtain ⟨rfl, hconst⟩ := h₃
    simp only [Bool.false_eq_true, if_false]
    rw [bind_of_ok hconst]
    split
    · exact .pure ⟨rfl, .inl rfl⟩
    · exact .pure ⟨rfl, .inl rfl⟩

instance : i.Firm g.forInit h.forInit := by
  have := hp.moves
  refine .firm fun b => ?_
  split
  · infer_instance
  refine .ofNear (.step fun kind? => by cases kind? <;> infer_instance)
    (fun c s t hc hjoined hnear => ?_) Nat.one_pos (Nat.le_refl _)
  refine Yields.bind (forKind?_agrees hc hjoined hnear) fun kind? s₁ h₁ => ?_
  obtain ⟨rfl, heq | ⟨rfl, hbefore⟩⟩ := h₁
  · cases kind? with
    | some kind =>
      have hrest : i.Firm (skip >>= fun _ => g.declarators kind false >>= fun declarators =>
          pure (ForInit.variables kind declarators)) (skip >>= fun _ =>
          h.declarators kind false >>= fun declarators =>
          pure (ForInit.variables kind declarators)) := inferInstance
      exact (hrest.leads c s₁ t hc hjoined).mono fun b s' h => by rwa [bind_of_ok heq]
    | none =>
      have hrest : i.Firm (g.expression >>= fun e => pure (ForInit.expression e))
          (h.expression >>= fun e => pure (ForInit.expression e)) := inferInstance
      exact (hrest.leads c s₁ t hc hjoined).mono fun b s' h => by rwa [bind_of_ok heq]
  · obtain ⟨u, rest, hnext⟩ := hbefore.next
    exact (yields_forVariables _ hnext).mono fun _ _ h =>
      .inl (hbefore.passed h (by omega) (by omega))

instance (init : ForInit) : i.Shares (checkForInit init) := by
  have : (checkForInit init).Steady := by
    unfold checkForInit
    split
    · refine .guard ?_
      split
      · split <;> infer_instance
      · infer_instance
    · infer_instance
  infer_instance

instance (stop : Punctuator) :
    i.Firm (g.optionalExpression stop) (h.optionalExpression stop) := by
  unfold optionalExpression; infer_instance

instance : i.Firm g.forStatement h.forStatement := by
  have (init : ForInit) : i.Firm (checkForInit init) (checkForInit init) := inferInstance
  have hinit : i.Firm (withReader (fun c => { c with noIn := true }) g.forInit)
      (withReader (fun c => { c with noIn := true }) h.forInit) :=
    Agrees.within inferInstance fun _ h => h
  exact .firm fun _ => .firm fun _ => .guard <| .firm fun _ => .firm fun _ => .firm fun _ =>
    .firm fun _ => .guard <| .firm fun _ => .firm fun _ => inferInstance

instance : i.First g.returnStatement h.returnStatement := by
  have := hp.moves
  have hend (value : Option Expr) : i.Free (semicolon >>= fun _ => pure (Stmt.returns value))
      (semicolon >>= fun _ => pure (Stmt.returns value)) := inferInstance
  have hvalue : i.First (g.expression >>= fun e => semicolon >>= fun _ =>
      pure (Stmt.returns (some e))) (h.expression >>= fun e => semicolon >>= fun _ =>
      pure (Stmt.returns (some e))) := .first fun e => hend (some e)
  refine .later fun start => .first fun _ => .free fun _ => .guard ?_
  refine ⟨.step fun _ => .step fun _ => .step fun _ => .step fun _ => ?_,
    fun c s t hc hjoined => ?_⟩
  · dsimp only
    split
    · infer_instance
    · infer_instance
  rcases hjoined.cases with hnear | hhere
  · have ask {p : Parse Bool} [h : i.SharesNear p] :
        p.Yields c s fun b s' => s' = s ∧ p c t = .ok (b, t) :=
      (h.unmoved c s).and (h.yields c s t hc hjoined hnear)
    refine .ask ask fun _ => .ask ask fun _ => .ask ask fun _ => .ask ask fun _ => ?_
    dsimp only
    split
    · exact (hend none).leads c s t hc hjoined
    · rw [map_eq_pure_bind, map_eq_pure_bind, bind_assoc, bind_assoc]
      exact hvalue.leads c s t hc hjoined
  · refine Yields.bind .unmoved fun _ s₁ h₁ => .bind .unmoved fun _ s₂ h₂ =>
      .bind .unmoved fun _ s₃ h₃ => .bind .unmoved fun _ s₄ h₄ => ?_
    subst h₁ h₂ h₃ h₄
    dsimp only
    split
    · have hstop : atPunct .semicolon c t = .ok (true, t) := by
        change Except.ok (t.tokens.peekKind? == some _, t) = _
        rw [hhere.peekKind?, beq_self_eq_true]
      refine ((hend none).leads c s₄ t hc hjoined).mono fun b s' h => h.imp_right fun h => ?_
      obtain ⟨t', heq, hjoined'⟩ := h
      refine ⟨t', ?_, hjoined'⟩
      rw [bind_of_ok hstop]
      exact heq
    · rw [map_eq_pure_bind, bind_assoc]
      exact hjoined.leads_here hhere (hvalue.moves.yields c s₄) (Nat.le_refl _) Nat.one_pos

instance : i.Free label? label? := by
  refine .tail (a := none) inferInstance (fun c s t hc hjoined hnear => ?_) (fun c s => ?_)
    fun c s t hhere => ?_
  · have ask {α : Type} {p : Parse α} [h : i.SharesNear p] :
        p.Yields c s fun a s' => s' = s ∧ p c t = .ok (a, t) :=
      (h.unmoved c s).and (h.yields c s t hc hjoined hnear)
    refine .ask ask fun _ => .ask ask fun _ => ?_
    split
    · exact (inferInstance : i.Free (pure none) (pure none)).leads c s t hc hjoined
    · exact Agrees.leads (m := 1) (n := 1) (q := advance >>= _) c s t hc hjoined
  · refine .bind .unmoved fun _ s₁ h₁ => .bind .unmoved fun _ s₂ h₂ => ?_
    subst h₁ h₂
    split
    · exact .pure (.inl ⟨rfl, rfl⟩)
    · exact (Moves.yields c s₂).mono fun _ _ h => .inr h
  · rw [label?, bind_of_ok (hhere.lineTerminatorBefore c), bind_of_ok (hhere.atKind (by simp) c)]
    rfl

instance : i.First breakStatement breakStatement := by
  refine .later fun _ => .first fun _ => .free fun _ => .free fun label => ?_
  cases label with
  | some label => exact .guard inferInstance
  | none => exact .guard inferInstance

instance : i.First continueStatement continueStatement := by
  refine .later fun _ => .first fun _ => .free fun _ => .guard (.free fun label => ?_)
  cases label with
  | none => infer_instance
  | some label =>
    dsimp only
    split
    · infer_instance
    · exact .guard inferInstance

instance : i.First g.throwStatement h.throwStatement := by
  refine .first fun _ => .ofFirst (.later fun _ => .guard (.first fun _ => ?_))
  infer_instance

instance : i.Free catchParameter catchParameter := by
  have := free_eat (i := i) (q := .leftParen) (by simp)
  exact .free fun _ => inferInstance

instance : i.Free g.handler? h.handler? := by
  refine .free fun _ => ?_
  split
  · infer_instance
  refine .free fun param => .free fun _ => ?_
  cases param <;> infer_instance

instance : i.Free g.finalizer? h.finalizer? := .free fun _ => inferInstance

instance : i.First g.tryStatement h.tryStatement := by
  refine .later fun _ => .first fun _ => .free fun _ => .free fun _ => .free fun _ => ?_
  split <;> infer_instance

instance : i.Firm g.caseBody h.caseBody := by
  refine .loop (fun done => .firm fun _ => .firm fun _ => .firm fun _ => .firm fun _ => ?_)
    (by omega) hp.fuel
  dsimp only
  split <;> infer_instance

instance (seenDefault : Bool) : i.Firm (g.caseTest seenDefault) (h.caseTest seenDefault) := by
  refine .firm fun _ => .firm fun _ => ?_
  split
  · infer_instance
  refine .firm fun _ => ?_
  split
  · exact .guard inferInstance
  · infer_instance

instance : i.First g.switchCases h.switchCases :=
  .closedLoop (fun _ => inferInstance) (fun _ => inferInstance) hp.fuel

instance : i.First g.switchStatement h.switchStatement := by
  have hcases : i.First (withReader (fun c => { c with inSwitch := true }) g.switchCases)
      (withReader (fun c => { c with inSwitch := true }) h.switchCases) :=
    Agrees.within inferInstance fun _ h => h
  exact .first fun _ => .free fun _ => .free fun _ => .free fun _ => inferInstance

instance (first : TokenKind) : i.First (g.declaration first) (h.declaration first) := by
  unfold declaration
  split <;> infer_instance

theorem next_statement (first : TokenKind) :
    i.AgreesNext 0 1 0 (g.statement first) (h.statement first) := by
  unfold statement
  split
  case h_17 => exact (AgreesNext.skip inferInstance).weaken (by omega) (by omega) (by omega)
  case h_18 =>
    have := hp.moves
    have hlabel : g.labeledStatement.Moves 2 2 :=
      .bind (m := 1) (n := 2) inferInstance fun _ => .later fun _ => .first fun _ =>
        .step fun _ => .guard inferInstance
    refine .foresee (foresees_nthIs i (by simp)) (fun b => ?_) fun b c s t hc hjoined _ hbefore => ?_
    · split <;> infer_instance
    · rw [if_neg Bool.false_ne_true]
      split
      · exact (hlabel.yields c s).mono fun _ _ h => .inl (hbefore.passed h (by omega) (by omega))
      · have hexpression : i.Firm g.expressionStatement h.expressionStatement := inferInstance
        exact hexpression.leads c s t hc hjoined
  all_goals infer_instance

omit hp in
/-- A declaration starts with a keyword and a token that belongs to the name. -/
theorem moves_declaration [g.Moves] (first : TokenKind) : (g.declaration first).Moves 2 2 := by
  have keyword {α : Type} {k : Keyword} {f : Unit → Parse α} (hf : ∀ u, (f u).Moves 1 1) :
      (expectKeyword k >>= f).Moves 2 2 :=
    .bind (m := 1) (n := 2) inferInstance hf
  unfold declaration
  split
  · exact .bind (m := 0) (n := 2) inferInstance fun _ => keyword fun _ =>
      .later fun _ => .guard inferInstance
  · have hclass : (g.classDefinition true).Moves 2 2 :=
      .bind (m := 0) (n := 2) inferInstance fun _ => keyword fun _ => inferInstance
    have hrest (c : ClassDef) : (pure (.classDecl c) : Parse Stmt).Moves 0 0 := inferInstance
    exact .bind hclass hrest
  · exact moves_lexicalDeclaration
  · exact moves_lexicalDeclaration
  · infer_instance

instance : i.Firm g.statementListItem h.statementListItem := by
  have := hp.moves
  refine .next (P := fun kind => kind.isSome) seen_peekKind? (fun kind hkind => ?_)
    (fun kind hkind => ?_) Nat.one_pos (Nat.le_refl _)
  · obtain ⟨first, rfl⟩ := Option.isSome_iff_exists.mp hkind
    have hstatement := next_statement (i := i) (g := g) (h := h) first
    refine .foresee (foresees_atDeclaration i) (fun b => ?_) fun b c s t hc hjoined hnear hbefore => ?_
    · split <;> infer_instance
    · rw [if_neg Bool.false_ne_true]
      split
      · exact ((moves_declaration first).yields c s).mono fun _ _ h =>
          .inl (hbefore.passed h (by omega) (by omega))
      · obtain ⟨u, rest, hnext⟩ := hbefore.next
        exact hstatement.leads c s t hc hjoined hnear hnext
  · rw [Option.not_isSome_iff_eq_none.mp hkind]
    infer_instance

instance : i.Firm g.singleStatement h.singleStatement := by
  refine .next (P := fun kind => kind.isSome) seen_peekKind? (fun kind hkind => ?_)
    (fun kind hkind => ?_) Nat.one_pos (Nat.le_refl _)
  · obtain ⟨first, rfl⟩ := Option.isSome_iff_exists.mp hkind
    have hstatement := next_statement (i := i) (g := g) (h := h) first
    refine .foresee (foresees_atDeclaration i) (fun b => ?_) fun b c s t hc hjoined hnear hbefore => ?_
    · split <;> infer_instance
    · rw [if_neg Bool.false_ne_true]
      split
      · exact .fail
      · obtain ⟨u, rest, hnext⟩ := hbefore.next
        exact hstatement.leads c s t hc hjoined hnear hnext
  · rw [Option.not_isSome_iff_eq_none.mp hkind]
    infer_instance

omit hp in
/-- The productions of any depth of nesting, with one more level in the second run, by induction on
the depth. -/
theorem parallel_ofFuel (i : Insertion) (n : Nat) : Parallel i (ofFuel n) (ofFuel (n + 1)) := by
  induction n with
  | zero =>
    exact
      { fuel := Nat.zero_le _
        assignment := inferInstanceAs (i.First (throw _) _)
        exponentiation := inferInstanceAs (i.First (throw _) _)
        unary := inferInstanceAs (i.First (throw _) _)
        member := inferInstanceAs (i.First (throw _) _)
        leftHandSide := inferInstanceAs (i.First (throw _) _)
        item := inferInstanceAs (i.Firm (throw _) _)
        subStatement := inferInstanceAs (i.Firm (throw _) _)
        moves := moves_ofFuel 0 }
  | succ n ih =>
    exact
      { fuel := Nat.le_succ _
        assignment := inferInstanceAs
          (i.First (ofFuel n).assignmentExpression (ofFuel (n + 1)).assignmentExpression)
        exponentiation := inferInstanceAs
          (i.First (ofFuel n).exponentiationExpression (ofFuel (n + 1)).exponentiationExpression)
        unary := inferInstanceAs
          (i.First (ofFuel n).unaryExpression (ofFuel (n + 1)).unaryExpression)
        member := inferInstanceAs
          (i.First (ofFuel n).memberExpression (ofFuel (n + 1)).memberExpression)
        leftHandSide := inferInstanceAs
          (i.First (ofFuel n).leftHandSideExpression (ofFuel (n + 1)).leftHandSideExpression)
        item := inferInstanceAs
          (i.Firm (ofFuel n).statementListItem (ofFuel (n + 1)).statementListItem)
        subStatement := inferInstanceAs
          (i.Firm (ofFuel n).singleStatement (ofFuel (n + 1)).singleStatement)
        moves := moves_ofFuel (n + 1) }

instance : i.Firm g.script h.script := by
  have : i.Firm (g.body g.statementListItem) (h.body h.statementListItem) :=
    firm_body hp.fuel inferInstance
  exact .firm fun _ => .firm fun _ => .guard inferInstance

end Grammar

end Ecma
