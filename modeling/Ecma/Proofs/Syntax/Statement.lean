import Ecma.Proofs.Syntax.Expression

/-! Productions of statements give legal trees, and so does the whole grammar: every script that is
accepted is legal. -/

namespace Ecma

open Parse

namespace Grammar

/-! ### Productions that only take tokens -/

instance : atLetDeclaration.Plain := by
  refine .bind fun _ => ?_
  split
  · infer_instance
  refine .bind fun t => ?_
  cases t with
  | none => infer_instance
  | some t => simp only; split <;> infer_instance

instance : atLet.Plain := by unfold atLet; infer_instance

instance : atDeclaration.Plain := by
  refine .bind fun kind => ?_
  split <;> infer_instance

instance (kind : VarKind) (name : String) (l : Location) : (bindName kind name l).Keeps := by
  unfold bindName
  infer_instance

instance : forKind?.Plain := by unfold forKind?; infer_instance

instance (init : ForInit) : (checkForInit init).Plain := by
  unfold checkForInit
  split
  · refine .guard ?_
    split
    · split <;> infer_instance
    · infer_instance
  · infer_instance

instance : label?.Plain := by unfold label?; infer_instance

instance : catchParameter.Plain := by unfold catchParameter; infer_instance

variable {g : Grammar} {c : Surroundings} {s : ParseState}

/-! ### Declarations and blocks -/

theorem gives_condition (hg : g.Sound) :
    g.condition.Gives c s fun names e => e.Legal (c.rights names) := by
  refine .skip fun _ _ => .bind (gives_expression hg) fun e _ => .skip fun _ _ => ?_
  exact .pure fun names he => he

theorem gives_initializer? (hg : g.Sound) :
    g.initializer?.Gives c s fun names init => ∀ e ∈ init, e.Legal (c.rights names) := by
  refine .skip fun _ _ => ?_
  split
  · exact .bind (gives_assignmentExpression hg) fun e _ => .pure fun names h => by simpa using h
  · exact .pure (by simp)

theorem gives_declarator (hg : g.Sound) (kind : VarKind) (needsInit : Bool) :
    (g.declarator kind needsInit).Gives c s fun names d => d.Legal (c.rights names) := by
  refine .skip fun _ _ => .skip fun name _ => .skip fun _ _ => ?_
  refine .bind (gives_initializer? hg) fun init _ => .guard fun _ => ?_
  exact .pure fun _ hinit => .intro hinit

theorem gives_declarators (hg : g.Sound) (kind : VarKind) (needsInit : Bool) :
    (g.declarators kind needsInit).Gives c s fun names ds =>
      ∀ d ∈ ds, d.Legal (c.rights names) := by
  refine (Gives.loop (fun names (ds : List Declarator) => ∀ d ∈ ds, d.Legal (c.rights names))
    (fun ds s => ?_) _ _ _).conseq fun names ds h => h (by simp)
  refine .bind (gives_declarator hg kind needsInit) fun d _ => .skip fun _ _ => ?_
  split
  · exact .pure fun names hd h => List.forall_mem_cons.mpr ⟨hd, h⟩
  · refine .pure fun names hd h d' hd' => ?_
    exact List.forall_mem_cons.mpr ⟨hd, h⟩ d' (List.mem_reverse.mp hd')

theorem gives_variableStatement (hg : g.Sound) :
    g.variableStatement.Gives c s fun names t => t.Legal (c.rights names) c.exits := by
  refine .skip fun _ _ => .bind (gives_declarators hg _ _) fun ds _ => .skip fun _ _ => ?_
  exact .pure fun names h => .variables h

theorem gives_lexicalDeclaration (hg : g.Sound) :
    g.lexicalDeclaration.Gives c s fun names t => t.Legal (c.rights names) c.exits := by
  have rest (kind : VarKind) (s : ParseState) : Gives (do
      let ds ← g.declarators kind true
      semicolon
      return .variables kind ds) c s fun names (t : Stmt) => t.Legal (c.rights names) c.exits :=
    .bind (gives_declarators hg _ _) fun _ _ => .skip fun _ _ => .pure fun _ h => .variables h
  refine .skip fun _ _ => ?_
  split
  · exact .skip fun kind _ => rest kind _
  · exact .skip fun _ _ => .skip fun kind _ => rest kind _

theorem gives_block (hg : g.Sound) :
    g.block.Gives c s fun names body =>
      (∀ t ∈ body, t.Legal (c.rights names) c.exits) ∧
        (StatementList.ofBlock body).Unambiguous := by
  refine .skip fun _ _ => .bind (Gives.loop
    (fun names (body : List Stmt) => ∀ t ∈ body, t.Legal (c.rights names) c.exits)
    (Q := fun names body => ∀ t ∈ body, t.Legal (c.rights names) c.exits)
    (fun body s => ?_) _ _ _) fun body _ => ?_
  · refine .skip fun _ _ => ?_
    split
    · exact .pure fun names h t ht => h t (List.mem_reverse.mp ht)
    refine .skip fun _ _ => .guard fun _ => .bind (hg.item _ _) fun t _ => ?_
    exact .pure fun names ht h => List.forall_mem_cons.mpr ⟨ht, h⟩
  · refine .bind (gives_checkDeclarations _ _ _) fun _ _ => .pure fun names hclash h => ?_
    exact ⟨h (by simp), unambiguous_of_clash? hclash (List.nil_subset _) (List.Subset.refl _)⟩

theorem gives_expressionStatement (hg : g.Sound) :
    g.expressionStatement.Gives c s fun names t => t.Legal (c.rights names) c.exits :=
  .bind (gives_expression hg) fun _ _ => .skip fun _ _ => .pure fun _ h => .expression h

/-! ### Labels, conditions and loops -/

theorem gives_subStatement (hg : g.Sound) :
    g.subStatement.Gives c s fun names t =>
      t.Legal (c.rights names) c.exits ∧ t.boundNames = [] :=
  (hg.subStatement c s).and (hg.single c s)

/-- The label counts as one of a loop only if a loop is ahead, which is then read as one. -/
theorem gives_labeledStatement (hg : g.Sound) :
    g.labeledStatement.Gives c s fun names t => t.Legal (c.rights names) c.exits := by
  refine .skip fun t _ => .skip fun _ _ => .skip fun _ _ => .read (.guard fun _ => ?_)
  refine Yields.bind (labelsLoop_loopAhead 0 g.fuel c _) fun isLoop s' ⟨hs, hloop⟩ => ?_
  subst hs
  refine Yields.bind (P := fun body s₁ => _ ∧ _)
    (fun body s₁ heq =>
      ⟨gives_subStatement hg body s₁ heq, fun h => hg.loops _ _ (hloop h) body s₁ heq⟩)
    fun body s₁ ⟨⟨hgrows, hlegal⟩, hbody⟩ => ?_
  exact .pure ⟨⟨hgrows.subset, hgrows.outside⟩, fun names hw =>
    .labeled hbody (hlegal names hw).1 (hlegal names hw).2⟩

theorem gives_ifStatement (hg : g.Sound) :
    g.ifStatement.Gives c s fun names t => t.Legal (c.rights names) c.exits := by
  refine .skip fun _ _ => .bind (gives_condition hg) fun test _ => ?_
  refine .bind (gives_subStatement hg) fun yes _ => .skip fun _ _ => ?_
  split
  · refine .bind (gives_subStatement hg) fun no _ => .pure fun names hn hy ht => ?_
    exact .ifElse ht hy.1 hn.1 ⟨hy.2, hn.2⟩
  · exact .pure fun names hy ht => .ifThen ht hy.1 hy.2

theorem gives_loopBody (hg : g.Sound) :
    g.loopBody.Gives c s fun names t =>
      t.Legal (c.rights names) c.exits.loop ∧ t.boundNames = [] :=
  .withReader rfl (gives_subStatement hg)

theorem gives_whileStatement (hg : g.Sound) :
    g.whileStatement.Gives c s fun names t => t.Legal (c.rights names) c.exits := by
  refine .skip fun _ _ => .bind (gives_condition hg) fun test _ => ?_
  exact .bind (gives_loopBody hg) fun body _ => .pure fun names hb ht => .whileLoop ht hb.1 hb.2

theorem gives_doStatement (hg : g.Sound) :
    g.doStatement.Gives c s fun names t => t.Legal (c.rights names) c.exits := by
  refine .skip fun _ _ => .bind (gives_loopBody hg) fun body _ => .skip fun _ _ => ?_
  refine .bind (gives_condition hg) fun test _ => .skip fun _ _ => ?_
  exact .pure fun names ht hb => .doLoop hb.1 ht hb.2

theorem gives_forInit (hg : g.Sound) :
    g.forInit.Gives c s fun names init => init.Distinct → init.Legal (c.rights names) := by
  refine .skip fun _ _ => ?_
  split
  · exact .pure fun _ _ => .absent
  refine .skip fun kind? _ => ?_
  cases kind? with
  | some kind =>
    refine .skip fun _ _ => .bind (gives_declarators hg _ _) fun ds _ => ?_
    exact .pure fun names h hd => .variables h hd
  | none => exact .bind (gives_expression hg) fun e _ => .pure fun names h _ => .expression h

theorem gives_checkForInit (init : ForInit) :
    (checkForInit init).Gives c s fun _ _ => init.Distinct := by
  unfold checkForInit
  split
  · next kind declarators =>
    refine .guard fun _ => ?_
    split
    · split
      · exact .fail
      · next hnone => exact .pure fun _ _ => (nodup_of_firstClash hnone).1
    · next hkind => exact .pure fun _ hne => absurd (by simpa using hne) hkind
  · next hother =>
    refine .pure fun _ => ?_
    cases init with
    | «variables» kind declarators => exact absurd rfl (hother kind declarators)
    | _ => trivial

theorem gives_optionalExpression (hg : g.Sound) (stop : Punctuator) :
    (g.optionalExpression stop).Gives c s fun names e? => ∀ e ∈ e?, e.Legal (c.rights names) := by
  refine .skip fun _ _ => ?_
  split
  · exact .pure (by simp)
  · exact .bind (gives_expression hg) fun e _ => .pure fun names h => by simpa using h

theorem gives_forStatement (hg : g.Sound) :
    g.forStatement.Gives c s fun names t => t.Legal (c.rights names) c.exits := by
  refine .skip fun _ _ => .skip fun _ _ => .guard fun _ => .skip fun _ _ => ?_
  refine .bind (.withReader rfl (gives_forInit hg)) fun init _ => .skip fun _ _ => ?_
  refine .skip fun _ _ => .guard fun _ => .bind (gives_checkForInit init) fun _ _ => ?_
  refine .skip fun _ _ => ?_
  refine .bind (gives_optionalExpression hg _) fun test _ => .skip fun _ _ => ?_
  refine .bind (gives_optionalExpression hg _) fun update _ => .skip fun _ _ => ?_
  refine .bind (gives_loopBody hg) fun body _ => ?_
  exact .pure fun names hb hu ht hd hi => .forLoop (hi hd) ht hu hb.1 hb.2

/-! ### Jumps -/

theorem gives_returnStatement (hg : g.Sound) :
    g.returnStatement.Gives c s fun names t => t.Legal (c.rights names) c.exits := by
  refine .skip fun _ _ => .skip fun _ _ => .read (.guard fun hc => ?_)
  have hfunction : c.inFunction = true := by simpa using hc
  refine .skip fun _ _ => .skip fun _ _ => .skip fun _ _ => .skip fun _ _ => ?_
  refine .bindIte (P := fun names (v : Option Expr) => ∀ e ∈ v, e.Legal (c.rights names))
    (fun _ => .pure (by simp))
    (fun _ => .map ((gives_expression hg).conseq fun names e he => by simpa using he))
    fun value _ => ?_
  exact .skip fun _ _ => .pure fun names h => .returns hfunction h

theorem gives_breakStatement :
    breakStatement.Gives c s fun names t => t.Legal (c.rights names) c.exits := by
  refine .skip fun _ _ => .skip fun _ _ => .read (.skip fun label? _ => ?_)
  split
  · next label _ =>
    refine .guard fun h => .skip fun _ _ => .pure fun _ => .breaksLabel ?_
    have hany : (c.labels.any fun l => l.1 == label) = true := by
      rwa [Bool.not_eq_true', Bool.not_eq_false] at h
    obtain ⟨⟨l, isLoop⟩, hmem, hl⟩ := List.any_eq_true.mp hany
    exact ⟨isLoop, beq_iff_eq.mp hl ▸ hmem⟩
  · refine .guard fun h => .skip fun _ _ => .pure fun _ => .breaks ?_
    cases hi : c.inIteration <;> cases hw : c.inSwitch <;> simp_all [Surroundings.exits]

theorem gives_continueStatement :
    continueStatement.Gives c s fun names t => t.Legal (c.rights names) c.exits := by
  refine .skip fun _ _ => .skip fun _ _ => .read (.guard fun h => .skip fun label? _ => ?_)
  have hloop : c.inIteration = true := by simpa using h
  split
  · next label _ =>
    split
    · exact .fail
    · next l isLoop hfind =>
      refine .guard fun hl => .skip fun _ _ => .pure fun _ => .continuesLabel ?_
      have hname := List.find?_some hfind
      simp only [beq_iff_eq] at hname
      have htrue : isLoop = true := by simpa using hl
      have hmem := List.mem_of_find?_eq_some hfind
      rw [hname, htrue] at hmem
      exact hmem
  · exact .skip fun _ _ => .pure fun _ => .continues hloop

theorem gives_throwStatement (hg : g.Sound) :
    g.throwStatement.Gives c s fun names t => t.Legal (c.rights names) c.exits := by
  refine .skip fun _ _ => .skip fun _ _ => .guard fun _ => ?_
  exact .bind (gives_expression hg) fun e _ => .skip fun _ _ => .pure fun names h => .throws h

/-! ### Exceptions and switches -/

theorem gives_handler? (hg : g.Sound) :
    g.handler?.Gives c s fun names h => ∀ r ∈ h,
      (∀ t ∈ r.2, t.Legal (c.rights names) c.exits) ∧
        (StatementList.ofHandler r.1 r.2).Unambiguous := by
  refine .skip fun _ _ => ?_
  split
  · exact .pure (by simp)
  refine .skip fun param _ => .bind (gives_block hg) fun body _ => ?_
  cases param with
  | some name =>
    refine .bind (gives_checkDeclarations _ _ _) fun _ _ => .pure fun names hclash h r hr => ?_
    cases hr
    exact ⟨h.1, unambiguous_ofHandler h.2 hclash⟩
  | none =>
    refine .pure fun names h r hr => ?_
    cases hr
    exact h

theorem gives_finalizer? (hg : g.Sound) :
    g.finalizer?.Gives c s fun names f => ∀ body ∈ f,
      (∀ t ∈ body, t.Legal (c.rights names) c.exits) ∧
        (StatementList.ofBlock body).Unambiguous := by
  refine .skip fun _ _ => ?_
  split
  · exact .bind (gives_block hg) fun body _ => .pure fun names h => by simpa using h
  · exact .pure (by simp)

theorem gives_tryStatement (hg : g.Sound) :
    g.tryStatement.Gives c s fun names t => t.Legal (c.rights names) c.exits := by
  refine .skip fun _ _ => .skip fun _ _ => .bind (gives_block hg) fun body _ => ?_
  refine .bind (gives_handler? hg) fun handler _ => ?_
  refine .bind (gives_finalizer? hg) fun finalizer _ => ?_
  split
  · exact .pure fun names hf hh hb =>
      .tryCatchFinally hb.1 (hh _ rfl).1 (hf _ rfl).1 hb.2 (hh _ rfl).2 (hf _ rfl).2
  · exact .pure fun names _ hh hb => .tryCatch hb.1 (hh _ rfl).1 hb.2 (hh _ rfl).2
  · exact .pure fun names hf _ hb => .tryFinally hb.1 (hf _ rfl).1 hb.2 (hf _ rfl).2
  · exact .fail

theorem gives_caseBody (hg : g.Sound) :
    g.caseBody.Gives c s fun names body => ∀ t ∈ body, t.Legal (c.rights names) c.exits := by
  refine (Gives.loop (fun names (body : List Stmt) => ∀ t ∈ body, t.Legal (c.rights names) c.exits)
    (fun body s => ?_) _ _ _).conseq fun names body h => h (by simp)
  refine .skip fun _ _ => .skip fun _ _ => .skip fun _ _ => .skip fun _ _ => ?_
  dsimp only
  split
  · exact .pure fun names h t ht => h t (List.mem_reverse.mp ht)
  · exact .bind (hg.item _ _) fun t _ => .pure fun names ht h => List.forall_mem_cons.mpr ⟨ht, h⟩

theorem gives_caseTest (hg : g.Sound) (seenDefault : Bool) :
    (g.caseTest seenDefault).Gives c s fun names test => ∀ e ∈ test, e.Legal (c.rights names) := by
  refine .skip fun _ _ => .skip fun _ _ => ?_
  split
  · exact .bind (gives_expression hg) fun e _ => .pure fun names h => by simpa using h
  refine .skip fun _ _ => ?_
  split
  · exact .guard fun _ => .pure (by simp)
  · exact .fail

theorem gives_switchCases (hg : g.Sound) :
    g.switchCases.Gives c s fun names cases =>
      ∀ k ∈ cases, k.Legal (c.rights names) c.exits := by
  refine (Gives.loop (fun names (cases : List SwitchCase) =>
      ∀ k ∈ cases, k.Legal (c.rights names) c.exits) (fun cases s => ?_) _ _ _).conseq
    fun names cases h => h (by simp)
  refine .skip fun _ _ => ?_
  split
  · exact .pure fun names h k hk => h k (List.mem_reverse.mp hk)
  refine .bind (gives_caseTest hg _) fun test _ => .skip fun _ _ => ?_
  refine .bind (gives_caseBody hg) fun body _ => .pure fun names hb ht h => ?_
  exact List.forall_mem_cons.mpr ⟨.intro ht hb, h⟩

theorem gives_switchStatement (hg : g.Sound) :
    g.switchStatement.Gives c s fun names t => t.Legal (c.rights names) c.exits := by
  refine .skip fun _ _ => .bind (gives_condition hg) fun subject _ => .skip fun _ _ => ?_
  refine .bind (.withReader rfl (gives_switchCases hg)) fun cases _ => ?_
  refine .bind (gives_checkDeclarations _ _ _) fun _ _ => .pure fun names hclash hc hs => ?_
  rw [Stmt.varNamesOfCases_eq] at hclash
  exact .switch hs hc (unambiguous_of_clash? hclash (List.nil_subset _) (List.Subset.refl _))

/-! ### All statements -/

theorem gives_statement (hg : g.Sound) (first : TokenKind) :
    (g.statement first).Gives c s fun names t => t.Legal (c.rights names) c.exits := by
  unfold statement
  split
  · exact .bind (gives_block hg) fun body _ => .pure fun names h => .block h.1 h.2
  · exact .skip fun _ _ => .pure fun _ => .empty
  · exact gives_variableStatement hg
  · exact gives_ifStatement hg
  · exact gives_whileStatement hg
  · exact gives_doStatement hg
  · exact gives_forStatement hg
  · exact gives_returnStatement hg
  · exact gives_breakStatement
  · exact gives_continueStatement
  · exact gives_throwStatement hg
  · exact gives_tryStatement hg
  · exact gives_switchStatement hg
  · exact .fail
  · exact .fail
  · exact .fail
  · exact .skip fun _ _ => .skip fun _ _ => .pure fun _ => .debugger
  · refine .skip fun _ _ => ?_
    split
    · exact gives_labeledStatement hg
    · exact gives_expressionStatement hg
  · exact gives_expressionStatement hg

theorem gives_declaration (hg : g.Sound) (first : TokenKind) :
    (g.declaration first).Gives c s fun names t => t.Legal (c.rights names) c.exits := by
  unfold declaration
  split
  · exact gives_functionDeclaration hg
  · refine .bind ((gives_classDefinition hg _).and yields_classDefinition) fun d _ => ?_
    exact .pure fun names h => .classDecl h.1 h.2
  · exact gives_lexicalDeclaration hg
  · exact gives_lexicalDeclaration hg
  · exact .fail

theorem gives_statementListItem (hg : g.Sound) :
    g.statementListItem.Gives c s fun names t => t.Legal (c.rights names) c.exits := by
  refine .skip fun first? _ => ?_
  cases first? with
  | none => exact .fail
  | some first =>
    refine .skip fun _ _ => ?_
    split
    · exact gives_declaration hg first
    · exact gives_statement hg first

theorem gives_singleStatement (hg : g.Sound) :
    g.singleStatement.Gives c s fun names t => t.Legal (c.rights names) c.exits := by
  refine .skip fun first? _ => ?_
  cases first? with
  | none => exact .fail
  | some first =>
    refine .skip fun _ _ => ?_
    split
    · exact .fail
    · exact gives_statement hg first

/-! ### Loops that are seen ahead -/

theorem yields_whileStatement : g.whileStatement.Yields c s fun t _ => t.isLoop = true :=
  .after fun _ _ => .after fun _ _ => .after fun _ _ => .pure rfl

theorem yields_doStatement : g.doStatement.Yields c s fun t _ => t.isLoop = true :=
  .after fun _ _ => .after fun _ _ => .after fun _ _ => .after fun _ _ => .after fun _ _ =>
    .pure rfl

theorem yields_forStatement : g.forStatement.Yields c s fun t _ => t.isLoop = true := by
  refine .after fun _ _ => .after fun _ _ => ?_
  split
  · exact .fail
  refine .after fun _ _ => .after fun _ _ => .after fun _ _ => .after fun _ _ => ?_
  split
  · exact .fail
  exact .after fun _ _ => .after fun _ _ => .after fun _ _ => .after fun _ _ => .after fun _ _ =>
    .after fun _ _ => .after fun _ _ => .pure rfl

/-! ### Statements that bind no name -/

theorem yields_labeledStatement_boundNames :
    g.labeledStatement.Yields c s fun t _ => t.boundNames = [] := by
  refine .after fun _ _ => .after fun _ _ => .after fun _ _ => .after fun _ _ => ?_
  split
  · exact .fail
  · exact .after fun _ _ => .after fun _ _ => .pure rfl

theorem yields_returnStatement_boundNames :
    g.returnStatement.Yields c s fun t _ => t.boundNames = [] := by
  refine .after fun _ _ => .after fun _ _ => .after fun _ _ => ?_
  split
  · exact .fail
  refine .after fun _ _ => .after fun _ _ => .after fun _ _ => .after fun _ _ => ?_
  dsimp only
  split
  · exact .after fun _ _ => .after fun _ _ => .pure rfl
  · exact .after fun _ _ => .after fun _ _ => .pure rfl

theorem yields_breakStatement_boundNames :
    breakStatement.Yields c s fun t _ => t.boundNames = [] := by
  refine .after fun _ _ => .after fun _ _ => .after fun _ _ => .after fun _ _ => ?_
  split <;> split
  · exact .fail
  · exact .after fun _ _ => .pure rfl
  · exact .fail
  · exact .after fun _ _ => .pure rfl

theorem yields_continueStatement_boundNames :
    continueStatement.Yields c s fun t _ => t.boundNames = [] := by
  refine .after fun _ _ => .after fun _ _ => .after fun _ _ => ?_
  split
  · exact .fail
  refine .after fun _ _ => ?_
  split
  · split
    · exact .fail
    · split
      · exact .fail
      · exact .after fun _ _ => .pure rfl
  · exact .after fun _ _ => .pure rfl

theorem yields_tryStatement_boundNames :
    g.tryStatement.Yields c s fun t _ => t.boundNames = [] := by
  refine .after fun _ _ => .after fun _ _ => .after fun _ _ => .after fun _ _ => ?_
  refine .after fun _ _ => ?_
  split
  · exact .pure rfl
  · exact .pure rfl
  · exact .pure rfl
  · exact .fail

/-- Only a declaration binds a name in the list that it stands in. -/
theorem yields_statement_boundNames (first : TokenKind) :
    (g.statement first).Yields c s fun t _ => t.boundNames = [] := by
  unfold statement
  split
  · exact .after fun _ _ => .pure rfl
  · exact .after fun _ _ => .pure rfl
  · exact .after fun _ _ => .after fun _ _ => .after fun _ _ => .pure rfl
  · refine .after fun _ _ => .after fun _ _ => .after fun _ _ => .after fun _ _ => ?_
    split
    · exact .after fun _ _ => .pure rfl
    · exact .pure rfl
  · exact yields_whileStatement.mono fun _ _ => Stmt.boundNames_of_isLoop
  · exact yields_doStatement.mono fun _ _ => Stmt.boundNames_of_isLoop
  · exact yields_forStatement.mono fun _ _ => Stmt.boundNames_of_isLoop
  · exact yields_returnStatement_boundNames
  · exact yields_breakStatement_boundNames
  · exact yields_continueStatement_boundNames
  · refine .after fun _ _ => .after fun _ _ => ?_
    split
    · exact .fail
    · exact .after fun _ _ => .after fun _ _ => .pure rfl
  · exact yields_tryStatement_boundNames
  · exact .after fun _ _ => .after fun _ _ => .after fun _ _ => .after fun _ _ => .after fun _ _ =>
      .pure rfl
  · exact .fail
  · exact .fail
  · exact .fail
  · exact .after fun _ _ => .after fun _ _ => .pure rfl
  · refine .after fun _ _ => ?_
    split
    · exact yields_labeledStatement_boundNames
    · exact .after fun _ _ => .after fun _ _ => .pure rfl
  · exact .after fun _ _ => .after fun _ _ => .pure rfl

theorem yields_singleStatement_boundNames :
    g.singleStatement.Yields c s fun t _ => t.boundNames = [] := by
  refine .after fun first? _ => ?_
  cases first? with
  | none => exact .fail
  | some first =>
    refine .after fun _ _ => ?_
    split
    · exact .fail
    · exact yields_statement_boundNames first

/-- Behind a label and its colon the rest of what was ahead is still ahead. -/
theorem yields_labeledStatement {t colon : Token} {rest : List Token}
    (hs : s.tokens.significant = t :: colon :: rest)
    (h : ∀ c s, s.tokens.significant = rest →
      g.subStatement.Yields c s fun t _ => t.isLoop = true) :
    g.labeledStatement.Yields c s fun t _ => t.isLoop = true := by
  refine .bind .advance fun _ s₁ h₁ => .bind .checkReference fun _ s₂ h₂ => ?_
  refine .bind .expect fun _ s₃ ⟨_, h₃⟩ => .read ?_
  have hrest : s₃.tokens.significant = rest := by
    rw [hs] at h₁
    rw [h₂, ← (List.cons.inj h₁).2] at h₃
    exact (List.cons.inj h₃).2.symm
  split
  · exact .fail
  refine .bind (labelsLoop_loopAhead 0 g.fuel c _) fun _ s₄ ⟨h₄, _⟩ => ?_
  refine .bind (.withReader (h _ _ (h₄ ▸ hrest))) fun body _ hbody => .pure ?_
  exact hbody

theorem yields_atLet (h : s.tokens.check (.keyword .letKw) = false) :
    atLet.Yields c s fun b s' => s' = s ∧ b = false := by
  have declaration : atLetDeclaration.Yields c s fun b s' => s' = s ∧ b = false := by
    refine .bind .atKind fun b s' ⟨hs, hb⟩ => ?_
    rw [hs, hb, h]
    exact .pure ⟨rfl, rfl⟩
  refine .bind declaration fun b s' ⟨hs, hb⟩ => ?_
  rw [hs, hb]
  refine .read (.bind .atKind fun b s' ⟨hs, hb⟩ => .pure ⟨hs, ?_⟩)
  rw [hb, h, Bool.and_false]

/-- Tokens that start a loop or a label start no declaration. -/
theorem yields_atDeclaration {kind : TokenKind} (hs : s.tokens.peekKind? = some kind)
    (hkind : kind.startsLoop ∨ kind = .identifier) :
    atDeclaration.Yields c s fun b s' => s' = s ∧ b = false := by
  have hlet : s.tokens.check (.keyword .letKw) = false := by
    rcases hkind with (h | h | h) | h <;> simp [TokenStream.check, hs, h]
  have seen : peekKind?.Yields c s fun k s' => s' = s ∧ k = some kind :=
    fun _ _ heq => by cases heq; exact ⟨rfl, hs⟩
  refine .bind seen fun k s' h => ?_
  obtain ⟨rfl, rfl⟩ := h
  rcases hkind with (h | h | h) | h <;> subst h <;> exact yields_atLet hlet

/-- A loop that is seen ahead is read as one, if that holds behind a label. -/
theorem yields_singleStatement (hs : LoopAhead s.tokens.significant)
    (h : ∀ c s, LoopAhead s.tokens.significant →
      g.subStatement.Yields c s fun t _ => t.isLoop = true) :
    g.singleStatement.Yields c s fun t _ => t.isLoop = true := by
  have seen : peekKind?.Yields c s fun k s' => s' = s ∧ k = s.tokens.peekKind? :=
    fun _ _ heq => by cases heq; exact ⟨rfl, rfl⟩
  refine .bind seen fun k s' hseen => ?_
  obtain ⟨rfl, hk⟩ := hseen
  generalize htokens : s'.tokens.significant = tokens at hs
  have hfirst : s'.tokens.peekKind? = tokens.head?.map Token.kind := by
    rw [TokenStream.peekKind?, TokenStream.peek?_eq, htokens]
  cases hs with
  | @loop t rest ht =>
    rw [hk, hfirst]
    refine .bind (yields_atDeclaration hfirst (.inl ht)) fun b s₁ hnone => ?_
    obtain ⟨rfl, rfl⟩ := hnone
    rcases ht with ht | ht | ht <;> rw [ht]
    · exact yields_forStatement
    · exact yields_whileStatement
    · exact yields_doStatement
  | @label t colon rest ht hcolon hrest =>
    rw [hk, hfirst]
    refine .bind (yields_atDeclaration hfirst (.inr ht)) fun b s₁ hnone => ?_
    obtain ⟨rfl, rfl⟩ := hnone
    rw [ht]
    refine .bind (P := fun b s' => s' = s₁ ∧ b = true) ?_ fun b s₂ hlabel => ?_
    · intro b s' heq
      cases heq
      simp [TokenStream.peekNth?_eq, htokens, hcolon]
    · obtain ⟨rfl, rfl⟩ := hlabel
      exact yields_labeledStatement htokens fun c s heq => h c s (heq ▸ hrest)

/-! ### The whole grammar -/

/-- By induction on the depth: the productions at a depth use those one level deeper. -/
theorem sound_ofFuel (n : Nat) : (ofFuel n).Sound := by
  induction n with
  | zero =>
    refine ⟨?_, ?_, ?_, ?_, ?_, ?_, ?_, fun _ _ => Yields.fail (p := throw _),
      fun _ _ _ => Yields.fail (p := throw _)⟩
    all_goals exact fun _ _ => Gives.fail (p := throw _)
  | succ n ih =>
    exact {
      assignment := fun _ _ => gives_assignmentExpression ih
      exponentiation := fun _ _ => gives_exponentiationExpression ih
      unary := fun _ _ => gives_unaryExpression ih
      member := fun _ _ => gives_memberExpression ih
      leftHandSide := fun _ _ => gives_leftHandSideExpression ih
      item := fun _ _ => gives_statementListItem ih
      subStatement := fun _ _ => gives_singleStatement ih
      single := fun _ _ => yields_singleStatement_boundNames
      loops := fun _ _ hs => yields_singleStatement hs ih.loops }

theorem gives_script (hg : g.Sound) :
    g.script.Gives c s fun names p =>
      LegalBody (c.rights names) c.exits p.body p.strict ∧
        (StatementList.ofScript p).Unambiguous := by
  refine .bind (gives_body fun _ _ => gives_statementListItem hg) fun r _ => ?_
  refine .skip fun _ _ => ?_
  split
  · exact .fail
  · refine .bind (gives_checkDeclarations _ _ _) fun _ _ => .skip fun _ _ => ?_
    refine .pure fun names hclash h => ?_
    exact ⟨h, unambiguous_of_clash? hclash (List.nil_subset _) (List.Subset.refl _)⟩

end Grammar

namespace Program

/-- A script that is accepted is read from the tokens of its text. -/
theorem read_of_parse {source : String} {p : Program} (h : parse source = .ok p) :
    ∃ stream s', TokenStream.ofString source = .ok stream ∧ read source stream = .ok (p, s') := by
  unfold parse at h
  split at h
  · cases h
  next stream hstream =>
  split at h
  · next program hparsed =>
    cases h
    simp only [ofTokens, Except.map] at hparsed
    split at hparsed
    · cases hparsed
    · next r hread =>
      cases hparsed
      exact ⟨stream, r.2, hstream, hread⟩
  · cases h
  · cases h

/-- Every script that is accepted is legal. -/
theorem legal_of_parse {source : String} {p : Program} (h : parse source = .ok p) : p.Legal := by
  obtain ⟨_, s', -, hread⟩ := read_of_parse h
  obtain ⟨hgrows, hlegal⟩ := Grammar.gives_script (Grammar.sound_ofFuel _) p s' hread
  -- Outside a class no private name comes into use, so no name has to be granted.
  have hnone : s'.references = [] := hgrows.outside rfl
  obtain ⟨hbody, hnames⟩ := hlegal [] (by simp [ParseState.Within, hnone])
  exact ⟨⟨source, h⟩, hbody.legal, hnames⟩

end Program

end Ecma
