import Ecma.Proofs.Parser.FollowExpression
import Ecma.Proofs.Syntax.Hoisting

/-! Statements, read by a parser as the grammar reads them. In a state where `in` is an operator a
statement ends with the flags that it began with, and adds the names that it declares with `var`. -/

namespace Ecma

open Ecma.Action

namespace Actions

variable {g : Grammar} {h : Actions} [hgh : Follows g h] {m m' : Parser}

/-! ### Declarations -/

instance : Mirrors g.condition h.condition :=
  .step fun _ => .step fun _ => .step fun _ => inferInstance

instance : Mirrors g.initializer? h.initializer? :=
  .step fun _ => inferInstance

/-- A name is collected if it is declared with `var`. -/
theorem gets_bindName (kind : VarKind) (name : String) (l : Location) :
    m.Gets (Grammar.bindName kind name l) (bindName kind name l) fun _ names =>
      names = if kind = .var then [name] else [] := by
  unfold Grammar.bindName bindName
  by_cases hkind : (kind == .var) = true
  · rw [if_pos hkind, if_pos hkind, if_pos (beq_iff_eq.mp hkind)]
    exact Parser.Alike.of_reading rfl ⟨rfl, [name], ⟨rfl, rfl, rfl, rfl, rfl, rfl⟩, rfl⟩
  · rw [if_neg hkind, if_neg hkind, if_neg fun hvar => hkind (beq_iff_eq.mpr hvar)]
    exact Mirrors.gets m

theorem gets_declarator (kind : VarKind) (needsInit : Bool) :
    m.Gets (g.declarator kind needsInit) (h.declarator kind needsInit) fun d names =>
      names = if kind = .var then [d.name] else [] := by
  refine .skip fun start m₁ _ => .skip fun name m₂ _ => ?_
  refine (gets_bindName kind name start).bind fun _ names m₃ _ hnames => .skip fun init m₄ _ => ?_
  split
  · exact .bind (P := fun _ _ => False) .fail fun _ _ _ _ hfalse => hfalse.elim
  · exact .pure (by rw [hnames, List.append_nil])

/-- The head of a `for` statement has declarations too, where `in` is no operator. -/
theorem gets_declarators (kind : VarKind) (needsInit : Bool) :
    m.Gets (g.declarators kind needsInit) (h.declarators kind needsInit) fun ds names =>
      names = if kind = .var then Stmt.declaratorNames ds else [] := by
  unfold Actions.declarators
  rw [hgh.fuel]
  refine .loop (fun done names =>
    names = if kind = .var then Stmt.declaratorNames done.reverse else [])
    (fun done names m₁ _ hdone => ?_) (by simp [Stmt.declaratorNames])
  refine (gets_declarator kind needsInit).bind fun d names' m₂ _ hd => .skip fun more m₃ _ => ?_
  have hall : names ++ (names' ++ []) =
      if kind = .var then Stmt.declaratorNames (d :: done).reverse else [] := by
    rw [hdone, hd]
    split <;> simp [Stmt.declaratorNames]
  split <;> exact .pure hall

theorem collects_variableStatement :
    Collects g.variableStatement h.variableStatement fun t names => names = t.varNames := by
  refine .skip fun _ => .bind (fun _ _ => gets_declarators .var true) fun ds names hds => ?_
  refine .skip fun _ => .pure ?_
  rw [hds, List.append_nil, Stmt.varNames]

theorem collects_lexicalDeclaration :
    Collects g.lexicalDeclaration h.lexicalDeclaration fun t names => names = t.varNames := by
  have hrest (kind : VarKind) : Collects
      (g.declarators kind true >>= fun ds => Parse.semicolon >>= fun _ => pure (.variables kind ds))
      (h.declarators kind true >>= fun ds => liftM Parse.semicolon >>= fun _ =>
        pure (Stmt.variables kind ds))
      fun t names => names = t.varNames := by
    refine .bind (fun _ _ => gets_declarators kind true) fun ds names hds => .skip fun _ => .pure ?_
    rw [hds, List.append_nil, Stmt.varNames]
  refine .skip fun _ => ?_
  split
  · exact .skip fun kind => hrest kind
  · exact .skip fun _ => .skip fun kind => hrest kind

/-! ### Blocks and expressions -/

/-- The names declared with `var` since a state are those collected since. -/
theorem gets_checkBlock {names : List String} (hm : m.Keeps names m') (statements : List Stmt) :
    m'.Gets (Parse.checkDeclarations false names statements)
      (checkBlock m.varDeclarations.length statements) fun _ names => names = [] := by
  refine .get ?_
  rw [hm.varDeclarations, List.drop_left]
  exact Mirrors.gets m'

theorem collects_block :
    Collects g.block h.block fun body names => names = Stmt.varNamesOf body := by
  refine .skip fun _ => fun m hm => .get ?_
  rw [hgh.fuel]
  refine Parser.Gets.bind (P := fun body names => names = Stmt.varNamesOf body) ?_
    fun body names m' hkeeps hbody => ?_
  · refine Collects.loop (fun done names => names = Stmt.varNamesOf done.reverse)
      (fun done names hdone => ?_) rfl rfl m hm
    refine .skip fun _ => ?_
    split
    · exact .pure (by rw [hdone, List.append_nil])
    refine .skip fun _ => .guard <| .bind hgh.item fun t names' ht => .pure ?_
    rw [hdone, ht]
    simp [Stmt.varNamesOf_eq]
  · subst hbody
    refine (gets_checkBlock hkeeps body).bind fun _ names m'' _ hnames => .pure ?_
    rw [hnames, List.append_nil, List.append_nil]

theorem collects_expressionStatement :
    Collects g.expressionStatement h.expressionStatement fun t names => names = t.varNames :=
  .skip fun _ => .skip fun _ => .pure (by simp [Stmt.varNames])

/-! ### Labels, conditions and loops -/

theorem collects_labeledStatement :
    Collects g.labeledStatement h.labeledStatement fun t names => names = t.varNames := by
  unfold Actions.labeledStatement
  rw [hgh.fuel]
  refine .skip fun t => .skip fun _ => .skip fun _ => fun m hm => .read (.get ?_)
  refine Collects.guard (q := Parse.failAt _ _) (Q := fun (t : Stmt) names => names = t.varNames) ?_ m hm
  refine .skip fun isLoop => fun m hm => ?_
  refine .within (fun flags => { flags with labels := flags.labels ++ [(t.text, isLoop)] })
    (fun flags => { flags with labels := flags.labels.dropLast }) rfl ?_
    (hgh.subStatement _ hm) fun s names m' _ hs => .pure ?_
  · rw [List.dropLast_concat]
  · rw [hs, List.append_nil, Stmt.varNames]

theorem collects_ifStatement :
    Collects g.ifStatement h.ifStatement fun t names => names = t.varNames := by
  refine .skip fun _ => .skip fun test => .bind hgh.subStatement fun yes names hyes => ?_
  refine .skip fun _ => ?_
  split
  · refine .bind hgh.subStatement fun no names' hno => .pure ?_
    rw [hyes, hno, List.append_nil, Stmt.varNames]
  · refine .pure ?_
    rw [hyes, List.append_nil, Stmt.varNames]

theorem collects_loopBody :
    Collects g.loopBody h.loopBody fun t names => names = t.varNames := by
  intro m hm
  rw [Grammar.loopBody, ← bind_pure (withReader _ _)]
  refine .within (fun flags => { flags with inIteration := flags.inIteration + 1 })
    (fun flags => { flags with inIteration := flags.inIteration - 1 }) ?_ rfl
    (hgh.subStatement _ hm) fun s names m' _ hs => .pure ?_
  · simp [Parser.surroundings]
  · rw [hs, List.append_nil]

theorem collects_whileStatement :
    Collects g.whileStatement h.whileStatement fun t names => names = t.varNames := by
  refine .skip fun _ => .skip fun test => .bind collects_loopBody fun body names hbody => .pure ?_
  rw [hbody, List.append_nil, Stmt.varNames]

theorem collects_doStatement :
    Collects g.doStatement h.doStatement fun t names => names = t.varNames := by
  refine .skip fun _ => .bind collects_loopBody fun body names hbody => .skip fun _ => ?_
  refine .skip fun test => .skip fun _ => .pure ?_
  rw [hbody, List.append_nil, Stmt.varNames]

theorem gets_forInit : m.Gets g.forInit h.forInit fun init names => names = init.varNames := by
  refine .skip fun _ m₁ _ => ?_
  split
  · exact .pure rfl
  refine .skip fun kind? m₂ _ => ?_
  cases kind? with
  | none => exact .skip fun e m₃ _ => .pure rfl
  | some kind =>
    refine .skip fun _ m₃ _ => (gets_declarators kind false).bind fun ds names m₄ _ hds => .pure ?_
    rw [hds, List.append_nil]
    cases kind <;> rfl

instance (stop : Punctuator) : Mirrors (g.optionalExpression stop) (h.optionalExpression stop) :=
  .step fun _ => inferInstance

/-- The flag that is cleared behind the first part of the head was not set before it. -/
theorem collects_forStatement :
    Collects g.forStatement h.forStatement fun t names => names = t.varNames := by
  refine .skip fun _ => .skip fun _ => .guard <| .skip fun _ => fun m hm => ?_
  refine .within (P := fun init names => names = init.varNames)
    (fun flags => { flags with noIn := true }) (fun flags => { flags with noIn := false }) rfl ?_
    gets_forInit fun init names m' hkeeps hinit => ?_
  · rw [← hm]
  · have hm' : m'.noIn = false := (congrArg Flags.noIn hkeeps.flags).trans hm
    refine Collects.skip (fun _ => .skip fun _ => .guard <| .skip fun _ => .skip fun _ => ?_) m' hm'
    refine .skip fun test => .skip fun _ => .skip fun update => .skip fun _ => ?_
    refine .bind collects_loopBody fun body names' hbody => .pure ?_
    rw [hinit, hbody, List.append_nil, Stmt.varNames]

/-! ### Jumps -/

theorem collects_returnStatement :
    Collects g.returnStatement h.returnStatement fun t names => names = t.varNames := by
  refine .skip fun _ => .skip fun _ => fun m hm => .read (.get ?_)
  refine Collects.guard (q := Parse.failAt _ _) (Q := fun (t : Stmt) names => names = t.varNames) ?_ m hm
  refine .skip fun _ => .skip fun _ => .skip fun _ => .skip fun _ => ?_
  dsimp only
  split
  · exact .skip fun _ => .skip fun _ => .pure (by simp [Stmt.varNames])
  · exact .skip fun _ => .skip fun _ => .pure (by simp [Stmt.varNames])

instance : Grammar.breakStatement.Modest := by
  refine .bind fun _ => .bind fun _ => .bind fun _ => .bind fun label? => ?_
  split <;> exact .guard inferInstance

instance : Grammar.continueStatement.Modest := by
  refine .bind fun _ => .bind fun _ => .bind fun _ => .guard <| .bind fun label? => ?_
  split
  · split
    · infer_instance
    · exact .guard inferInstance
  · infer_instance

theorem collects_breakStatement :
    Collects Grammar.breakStatement (liftM Grammar.breakStatement) fun t names =>
      names = t.varNames := by
  refine .lift fun c s => ?_
  refine .after fun _ _ => .after fun _ _ => .after fun _ _ => .after fun label? _ => ?_
  split <;> split
  · exact .fail
  · exact .after fun _ _ => .pure (by simp [Stmt.varNames])
  · exact .fail
  · exact .after fun _ _ => .pure (by simp [Stmt.varNames])

theorem collects_continueStatement :
    Collects Grammar.continueStatement (liftM Grammar.continueStatement) fun t names =>
      names = t.varNames := by
  refine .lift fun c s => .after fun _ _ => .after fun _ _ => .after fun _ _ => ?_
  split
  · exact .fail
  refine .after fun label? _ => ?_
  split
  · split
    · exact .fail
    · split
      · exact .fail
      · exact .after fun _ _ => .pure (by simp [Stmt.varNames])
  · exact .after fun _ _ => .pure (by simp [Stmt.varNames])

theorem collects_throwStatement :
    Collects g.throwStatement h.throwStatement fun t names => names = t.varNames :=
  .skip fun _ => .skip fun _ => .guard <| .skip fun _ => .skip fun _ =>
    .pure (by simp [Stmt.varNames])

/-! ### Handlers and switches -/

theorem collects_handler? : Collects g.handler? h.handler? fun handler names =>
    names = Stmt.varNamesOf (handler.elim [] Prod.snd) := by
  refine .skip fun _ => ?_
  split
  · exact .pure rfl
  refine .skip fun param => .bind collects_block fun body names hbody => ?_
  cases param with
  | none => exact .pure (by rw [hbody, List.append_nil]; rfl)
  | some name => exact .skip fun _ => .pure (by rw [hbody, List.append_nil]; rfl)

theorem collects_finalizer? : Collects g.finalizer? h.finalizer? fun finalizer names =>
    names = Stmt.varNamesOf (finalizer.getD []) := by
  refine .skip fun _ => ?_
  split
  · exact .bind collects_block fun body names hbody => .pure (by rw [hbody, List.append_nil]; rfl)
  · exact .pure rfl

theorem collects_tryStatement :
    Collects g.tryStatement h.tryStatement fun t names => names = t.varNames := by
  refine .skip fun _ => .skip fun _ => .bind collects_block fun body names hbody => ?_
  refine .bind collects_handler? fun handler names' hhandler => ?_
  refine .bind collects_finalizer? fun finalizer names'' hfinalizer => ?_
  rw [hbody, hhandler, hfinalizer]
  rcases handler with - | ⟨param, caught⟩ <;> rcases finalizer with - | finals
  · exact .fail
  · exact .pure (by simp [Stmt.varNames, Stmt.varNamesOf])
  · exact .pure (by simp [Stmt.varNames, Stmt.varNamesOf])
  · exact .pure (by simp [Stmt.varNames])

theorem collects_caseBody :
    Collects g.caseBody h.caseBody fun body names => names = Stmt.varNamesOf body := by
  refine .loop (fun done names => names = Stmt.varNamesOf done.reverse)
    (fun done names hdone => ?_) hgh.fuel rfl
  refine .skip fun _ => .skip fun _ => .skip fun _ => .skip fun _ => ?_
  dsimp only
  split
  · exact .pure (by rw [hdone, List.append_nil])
  refine .bind hgh.item fun t names' ht => .pure ?_
  rw [hdone, ht]
  simp [Stmt.varNamesOf_eq]

instance (seenDefault : Bool) : Mirrors (g.caseTest seenDefault) (h.caseTest seenDefault) := by
  refine .step fun _ => .step fun _ => ?_
  split
  · infer_instance
  refine .step fun _ => ?_
  split
  · exact .guard inferInstance
  · infer_instance

theorem collects_switchCases :
    Collects g.switchCases h.switchCases fun cases names => names = Stmt.varNamesOfCases cases := by
  refine .loop (fun done names => names = Stmt.varNamesOfCases done.reverse)
    (fun done names hdone => ?_) hgh.fuel rfl
  refine .skip fun _ => ?_
  split
  · exact .pure (by rw [hdone, List.append_nil])
  refine .skip fun test => .skip fun _ => .bind collects_caseBody fun body names' hbody => .pure ?_
  rw [hdone, hbody]
  simp [Stmt.varNamesOfCases_eq, Stmt.varNamesOf_eq]

theorem collects_switchStatement :
    Collects g.switchStatement h.switchStatement fun t names => names = t.varNames := by
  refine .skip fun _ => .skip fun subject => .skip fun _ => fun m hm => .get ?_
  refine .within (P := fun cases names => names = Stmt.varNamesOfCases cases)
    (fun flags => { flags with inSwitch := flags.inSwitch + 1 })
    (fun flags => { flags with inSwitch := flags.inSwitch - 1 }) ?_ rfl
    (collects_switchCases _ hm) fun cases names m' hkeeps hcases => ?_
  · simp [Parser.surroundings]
  · subst hcases
    refine (gets_checkBlock hkeeps _).bind fun _ names' m'' _ hnames => .pure ?_
    rw [hnames, List.append_nil, List.append_nil, Stmt.varNames]

/-! ### The whole grammar -/

omit hgh in
theorem collects_unexpected {P : Stmt → List String → Prop} :
    Collects Parse.unexpected (liftM Parse.unexpected) P :=
  .fail

omit hgh in
theorem collects_unsupported {P : Stmt → List String → Prop} (feature : String) :
    Collects (Parse.unsupported feature) (liftM (Parse.unsupported feature)) P :=
  .fail

theorem collects_statement (first : TokenKind) :
    Collects (g.statement first) (h.statement first) fun t names => names = t.varNames := by
  cases first with
  | punctuator x =>
    cases x with
    | leftBrace =>
      refine .bind collects_block fun body names hbody => .pure ?_
      rw [hbody, List.append_nil, Stmt.varNames]
    | semicolon => exact .skip fun _ => .pure (by simp [Stmt.varNames])
    | _ => exact collects_expressionStatement
  | keyword k =>
    cases k with
    | varKw => exact collects_variableStatement
    | ifKw => exact collects_ifStatement
    | whileKw => exact collects_whileStatement
    | doKw => exact collects_doStatement
    | forKw => exact collects_forStatement
    | returnKw => exact collects_returnStatement
    | breakKw => exact collects_breakStatement
    | continueKw => exact collects_continueStatement
    | throwKw => exact collects_throwStatement
    | tryKw => exact collects_tryStatement
    | switchKw => exact collects_switchStatement
    | withKw | importKw | exportKw => exact collects_unsupported _
    | debuggerKw => exact .skip fun _ => .skip fun _ => .pure (by simp [Stmt.varNames])
    | _ => exact collects_expressionStatement
  | identifier =>
    refine .skip fun _ => ?_
    split
    · exact collects_labeledStatement
    · exact collects_expressionStatement
  | _ => exact collects_expressionStatement

theorem collects_declaration (first : TokenKind) :
    Collects (g.declaration first) (h.declaration first) fun t names => names = t.varNames := by
  cases first with
  | keyword k =>
    cases k with
    | functionKw => exact collects_functionDeclaration
    | classKw => exact .skip fun _ => .pure (by simp [Stmt.varNames])
    | letKw | constKw => exact collects_lexicalDeclaration
    | _ => exact collects_unexpected
  | _ => exact collects_unexpected

omit hgh in
/-- What comes behind the start of a statement where one is admitted. -/
theorem gets_start {α : Type} {q : Parse α} {p : Unit → Action α} {P : α → List String → Prop}
    (hm : h.admits m = true) (hq : m.Gets q (p ()) P) : m.Gets q (h.start >>= p) P := by
  have hrun : h.start m = .ok ((), m) := by
    change (if (!h.admits m) = true then throw _ else pure () : Action Unit) m = _
    rw [hm]
    rfl
  exact Parser.Does.unseen hrun rfl rfl hq

theorem collects_statementListItem :
    Collects g.statementListItem h.statementListItem fun t names => names = t.varNames := by
  intro m hm
  refine gets_start (hgh.admits m hm) ?_
  refine Collects.skip (fun first? => ?_) m hm
  cases first? with
  | none => exact .fail
  | some first =>
    refine .skip fun _ => ?_
    split
    · exact collects_declaration first
    · exact collects_statement first

theorem collects_singleStatement :
    Collects g.singleStatement h.singleStatement fun t names => names = t.varNames := by
  intro m hm
  refine gets_start (hgh.admits m hm) ?_
  refine Collects.skip (fun first? => ?_) m hm
  cases first? with
  | none => exact .fail
  | some first =>
    refine .skip fun _ => ?_
    split
    · exact .fail
    · exact collects_statement first

end Actions

end Ecma
