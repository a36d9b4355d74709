import Ecma.Proofs.Syntax.Parallel

/-! Productions side by side: where a semicolon that was left out is among the tokens, every production
does with it what it did without. The second run has one more level of productions, since it has one
more token. -/

namespace Ecma

open Parse Insertion

namespace Grammar

/-- The productions that others use agree. -/
class Parallel (i : Insertion) (g h : Grammar) : Prop where
  fuel : g.fuel ≤ h.fuel
  assignment : i.First g.assignment h.assignment
  exponentiation : i.First g.exponentiation h.exponentiation
  unary : i.First g.unary h.unary
  member : i.First g.member h.member
  leftHandSide : i.First g.leftHandSide h.leftHandSide
  item : i.Firm g.item h.item
  subStatement : i.Firm g.subStatement h.subStatement
  moves : g.Moves

attribute [instance] Parallel.assignment Parallel.exponentiation Parallel.unary Parallel.member
  Parallel.leftHandSide Parallel.item Parallel.subStatement

variable {i : Insertion} {g h : Grammar} [hp : Parallel i g h]

/-! ### Functions -/

instance : i.First g.propertyName h.propertyName := by
  refine .first fun t => ?_
  split
  · infer_instance
  split
  · infer_instance
  · refine .free fun x => ?_
    cases x <;> infer_instance
  · refine .free fun x => ?_
    cases x <;> infer_instance
  · infer_instance
  · infer_instance

instance : i.First g.formalParameters h.formalParameters := by
  refine .first fun _ => .ofFirst (.closedLoop (fun params => ?_) (fun params => ?_) hp.fuel)
  · refine .firm fun _ => .guard (.firm fun _ => .firm fun _ => .guard ?_)
    exact .firm fun _ => .optional fun _ => inferInstance
  · refine .after fun _ => .guard (.after fun _ => .after fun _ => .guard (.after fun _ => ?_))
    dsimp only
    split <;> infer_instance

instance : i.SharesNear atUseStrict := by
  refine .bind fun u => ?_
  cases u <;> infer_instance

omit hp in
theorem firm_body {item item' : Parse Stmt} (hfuel : g.fuel ≤ h.fuel) (hitem : i.Firm item item') :
    i.Firm (g.body item) (h.body item') := by
  refine .firm fun isStrict => .loop (fun p => .firm fun _ => .firm fun _ => ?_) Nat.one_pos hfuel
  split
  · infer_instance
  · have := hitem.within (φ := fun c => { c with strict := p.strict }) fun _ h => h
    infer_instance

instance : i.Firm (g.body g.item) (h.body h.item) := firm_body hp.fuel hp.item

instance (name : Option String) (kind : FunctionKind) :
    i.First (g.functionParts name kind) (h.functionParts name kind) :=
  .later fun _ => .first fun _ => .free fun _ => .ofFirst <| .later fun _ => .first fun _ =>
    .free fun _ => .guard inferInstance

instance (name : Option String) (kind : FunctionKind) (start : Nat)
    (superProperty superCall : Bool) :
    i.First (g.functionRest name kind start superProperty superCall)
      (h.functionRest name kind start superProperty superCall) := by
  have hparts : i.First (g.functionParts name kind) (h.functionParts name kind) := inferInstance
  have := hparts.within (φ := fun c =>
    { c with
      noIn := false, inFunction := true, inIteration := false, inSwitch := false, labels := []
      superProperty, superCall }) fun _ h => h
  unfold functionRest
  infer_instance

instance (f : FunctionDef) (kind : MethodKind) (l : Location) : (checkArity f kind l).Steady := by
  unfold checkArity
  split <;> infer_instance

instance : i.First g.functionExpression h.functionExpression :=
  .later fun _ => .first fun _ => .ofFirst <| .later fun _ => .guard inferInstance

instance : i.First g.functionDeclaration h.functionDeclaration :=
  .later fun _ => .first fun _ => .ofFirst <| .later fun _ => .guard inferInstance

/-! ### Modifiers -/

theorem foresees_nthIs (i : Insertion) {q : Punctuator} (hq : q ≠ .semicolon) :
    i.Foresees (nthIs 1 q) false := by
  refine .bind (foresees_peekNth? i) (fun _ => inferInstance) ?_
  rw [Option.any_some, i.kind_stop, beq_eq_false_iff_ne.mpr fun heq =>
    hq (TokenKind.punctuator.inj heq).symm]

theorem foresees_atModifier (i : Insertion) (word : String) :
    i.Foresees (atModifier word) false := by
  have hnext : i.Foresees modifiesNext false := by
    refine .bind (foresees_peekNth? i) (fun u? => ?_) ?_
    · split
      · infer_instance
      · split <;> infer_instance
    · simp only [i.kind_stop]
      rfl
  refine .ask fun b => ?_
  cases b with
  | true => exact hnext
  | false => exact Foresees.same (p := pure false)

/-- A modifier is only passed over with the token behind it in sight. -/
theorem firm_modifier {α : Type} (word : String) {f f' : Bool → Unit → Parse α}
    {q q' : Bool → Parse α} (hf : ∀ b u, i.Firm (f b u) (f' b u)) (hq : ∀ b, i.Firm (q b) (q' b)) :
    i.Firm (atModifier word >>= fun b => if b = true then skip >>= f b else q b)
      (atModifier word >>= fun b => if b = true then skip >>= f' b else q' b) := by
  refine .foresee (foresees_atModifier i word) ?_ (fun b c s t hc hjoined hnear _ => ?_)
    (fun b c s t hc hjoined hbefore _ => ?_) Nat.one_pos (Nat.le_refl _)
  · refine .step fun b => ?_
    split
    · exact .step fun u => (hf b u).moves
    · exact (hq b).moves
  · split
    · exact (leads_skip (d := 1) hjoined hnear).step hc (hf b) (by omega) (by omega) (by omega)
    · exact (hq b).leads c s t hc hjoined
  · cases b with
    | true =>
      obtain ⟨u, rest, hnext⟩ := hbefore.next
      have hmoves := Yields.skip_then (c := c) (m := 0) (n := 1) (fun u => (hf true u).moves) hnext
      exact hmoves.mono fun _ _ h => .inl (hbefore.passed h (by omega) (by omega))
    | false => exact (hq false).leads c s t hc hjoined

/-! ### Classes -/

instance : i.Firm elementModifiers elementModifiers := by
  refine .firm fun a => .foreseeGuard (φ := (a && ·)) (foresees_nthIs i (by simp)) inferInstance
    (Bool.and_false a) (firm_modifier _ (fun isStatic _ => ?_) fun isStatic => ?_) (by omega)
    (by omega)
  all_goals
    refine .firm fun _ => .guard (.foreseeGuard (φ := fun b => b) (foresees_atModifier i _)
      inferInstance rfl ?_ (by omega) (by omega))
    exact firm_modifier _ (fun _ _ => inferInstance)
      fun _ => firm_modifier _ (fun _ _ => inferInstance) fun _ => inferInstance

instance : i.SharesNear checkNotField := by unfold checkNotField; infer_instance

instance (start : Nat) (isStatic : Bool) (kind : MethodKind) (b : ClassBody) :
    i.First (g.privateElement start isStatic kind b) (h.privateElement start isStatic kind b) :=
  .first fun _ => .guard <| .guard <| .ofFirst inferInstance

instance (start : Nat) (isStatic : Bool) (kind : MethodKind) (derived : Bool) (b : ClassBody) :
    i.First (g.publicElement start isStatic kind derived b)
      (h.publicElement start isStatic kind derived b) := by
  refine .later fun _ => .first fun _ => .ofFirst <| .later fun _ => ?_
  split
  · exact .guard (.guard inferInstance)
  · exact .guard inferInstance

instance (derived : Bool) (b : ClassBody) :
    i.First (g.classElement derived b) (h.classElement derived b) :=
  .later fun _ => .later fun _ => inferInstance

instance (derived : Bool) : i.First (g.classElements derived) (h.classElements derived) :=
  .closedLoop (fun _ => inferInstance) (fun _ => inferInstance) hp.fuel

instance (derived : Bool) : i.First (g.classBody derived) (h.classBody derived) := by
  have helements : i.First (g.classElements derived) (h.classElements derived) := inferInstance
  have := helements.within (φ := fun c => { c with inClass := true }) fun _ h => h
  refine .get fun s t hs => ?_
  rw [hs]
  refine .later fun _ => .first fun b => .get fun s' t' hs' => .free fun c => ?_
  dsimp only
  rw [hs']
  split
  · infer_instance
  split
  · infer_instance
  · infer_instance

instance (isDeclaration : Bool) (start : Nat) :
    i.First (g.classRest isDeclaration start) (h.classRest isDeclaration start) := by
  refine .later fun _ => .later fun _ => .guard ?_
  split
  all_goals
    refine .later fun _ => .later fun _ => ?_
    infer_instance

instance (isDeclaration : Bool) :
    i.First (g.classDefinition isDeclaration) (h.classDefinition isDeclaration) := by
  have hrest (start : Nat) : i.First (g.classRest isDeclaration start)
      (h.classRest isDeclaration start) := inferInstance
  have := fun start => (hrest start).within (φ := fun c => { c with strict := true }) fun _ h => h
  unfold classDefinition
  infer_instance

/-! ### Expressions -/

instance : i.First g.nestedExpression h.nestedExpression :=
  .first fun _ => .fork (by simp) inferInstance inferInstance

instance : i.Free g.memberKey? h.memberKey? := by
  have := free_eat (i := i) (q := .leftBracket) (by simp)
  have := free_eat (i := i) (q := .dot) (by simp)
  refine .fork (by simp) inferInstance (.free fun _ => ?_)
  split
  · infer_instance
  refine .free fun _ => ?_
  split <;> infer_instance

instance : i.First g.arguments h.arguments := by
  refine .first fun _ => .ofFirst ?_
  refine Agrees.within (.closedLoop (fun args => ?_) (fun args => ?_) hp.fuel) fun _ h => h
  · exact .firm fun _ => .guard (.firm fun _ => .firm fun _ => .optional fun _ => inferInstance)
  · refine .after fun _ => .guard (.after fun _ => .after fun _ => ?_)
    dsimp only
    split <;> infer_instance

instance : i.Firm accessorModifier accessorModifier :=
  firm_modifier _ (fun _ _ => inferInstance)
    fun _ => firm_modifier _ (fun _ _ => inferInstance) fun _ => inferInstance

instance (start : Nat) (keyToken : Token) (key : PropertyName) :
    i.Firm (g.propertyRest start keyToken key) (h.propertyRest start keyToken key) := by
  refine .firm fun _ => ?_
  split
  · infer_instance
  refine .firm fun _ => ?_
  split
  · infer_instance
  cases key with
  | identifier name =>
    refine .firm fun _ => .guard ?_
    split <;> infer_instance
  | string name => infer_instance
  | number x => infer_instance
  | computed e => infer_instance

instance : i.Firm g.objectProperty h.objectProperty := by
  refine .firm fun _ => .firm fun _ => .guard <| .firm fun _ => .guard ?_
  refine .firm fun _ => .firm fun _ => .firm fun _ => ?_
  split <;> infer_instance

instance : i.First g.objectLiteral h.objectLiteral := by
  refine .first fun _ => .ofFirst ?_
  refine Agrees.within (.closedLoop (fun properties => ?_) (fun properties => ?_) hp.fuel) fun _ h => h
  · exact .firm fun _ => .firm fun _ => .optional fun _ => inferInstance
  · refine .after fun _ => .after fun _ => ?_
    dsimp only
    split <;> infer_instance

instance : i.First g.parenthesized h.parenthesized :=
  .later fun a => .foreseeGuard (φ := (a && ·)) (foresees_nthIs i (by simp)) inferInstance
    (Bool.and_false a) inferInstance (by omega) (by omega)

instance : i.First g.primary h.primary := by
  refine .peek fun t => ?_
  split
  case h_6 | h_7 =>
    refine .skip fun _ => .free fun v => ?_
    cases v <;> infer_instance
  all_goals infer_instance

/-! ### Members and calls -/

instance : i.AgreesNext 1 1 1 g.superProperty h.superProperty := by
  refine .ask fun _ => .skip fun _ => .free fun _ => .guard (.free fun key? => ?_)
  split <;> infer_instance

instance (e : Expr) : i.Free (g.memberChain e) (h.memberChain e) := by
  refine .loop (fun e => .free fun key? => ?_) (by omega) hp.fuel
  cases key? <;> infer_instance

instance : i.First g.newExpression h.newExpression :=
  .later fun _ => .guard (.first fun _ => .fork (by simp) inferInstance inferInstance)

instance : i.First g.memberExpression h.memberExpression := by
  refine .later fun isNew => .next (P := (· = true)) seen_atKind (fun isSuper hsuper => ?_)
    (fun isSuper hsuper => ?_) (by omega) (by omega)
  · dsimp only
    split
    · infer_instance
    · exact .first inferInstance
  · dsimp only
    split
    · infer_instance
    · infer_instance

instance : i.AgreesNext 1 1 1 g.superCallExpression h.superCallExpression :=
  .ask fun _ => .skip fun _ => .free fun _ => .guard inferInstance

instance (e : Expr) : i.Free (g.callChain e) (h.callChain e) := by
  refine .loop (fun e => .fork (by simp) inferInstance (.free fun key? => ?_)) (by omega) hp.fuel
  cases key? <;> infer_instance

instance : i.First g.leftHandSideExpression h.leftHandSideExpression := by
  have := hp.moves
  have call {c : Surroundings} {s : ParseState} {u : Token} {rest : List Token}
      (hnext : s.tokens.significant = u :: rest) :
      (g.superCallExpression >>= g.callChain).Yields c s fun _ s' => s.Moves 2 2 s' := by
    refine .bind (yields_superCallExpression_moves hnext) fun e s₁ h₁ => ?_
    refine ((inferInstance : (g.callChain e).Moves 0 0).yields c s₁).mono fun _ _ h => ?_
    exact (h₁.trans h).mono (by omega) (by omega)
  have hmoves (isSuper : Bool) : (do
      let isCall ← nthIs 1 .leftParen
      if isSuper && isCall then g.superCallExpression >>= g.callChain
      else g.memberExpression >>= g.callChain).Moves 1 1 := by
    refine ⟨fun c s => .bind seen_nthIs fun isCall s₁ h₁ => ?_⟩
    obtain ⟨rfl, hseen⟩ := h₁
    split
    · next hcall =>
      obtain ⟨u, rest, hnext⟩ := hseen (Bool.and_eq_true_iff.mp hcall).2
      exact (call hnext).mono fun _ _ h => h.mono (by omega) (by omega)
    · exact Moves.yields c s₁
  refine .later fun isSuper => .foresee (foresees_nthIs i (by simp)) (hmoves isSuper)
    (fun isCall c s t hc hjoined hnear heq => ?_) (fun isCall c s t hc hjoined hbefore _ => ?_)
    (by omega) (by omega)
  · split
    · next hcall =>
      obtain ⟨u, rest, hnext⟩ := (seen_nthIs _ _ heq).2 (Bool.and_eq_true_iff.mp hcall).2
      have hnext' : i.AgreesNext 1 1 1 (g.superCallExpression >>= g.callChain)
          (h.superCallExpression >>= h.callChain) := .first inferInstance
      exact hnext'.leads c s t hc hjoined hnear hnext
    · exact Agrees.leads (m := 1) (n := 1) c s t hc hjoined
  · rw [Bool.and_false]
    split
    · obtain ⟨u, rest, hnext⟩ := hbefore.next
      exact (call hnext).mono fun _ _ h => .inl (hbefore.passed h (by omega) (by omega))
    · exact (inferInstance : i.First (g.memberExpression >>= g.callChain)
        (h.memberExpression >>= h.callChain)).leads c s t hc hjoined

/-! ### Operators -/

instance : i.SharesNear atUpdate? := by unfold atUpdate?; infer_instance

instance (e : Expr) (l : Location) : (checkDelete e l).Steady := by
  unfold checkDelete
  cases e with
  | member object key => cases key <;> infer_instance
  | _ => infer_instance

theorem seen_atUpdate? {c : Surroundings} {s : ParseState} : atUpdate?.Yields c s fun op? _ =>
    op?.isSome → ∃ u rest, s.tokens.significant = u :: rest := by
  refine yields_atUpdate?.mono fun op? s' h hsome => ?_
  obtain ⟨q, hq⟩ := h.2 hsome
  obtain ⟨u, rest, hnext, -⟩ := TokenStream.exists_next hq
  exact ⟨u, rest, hnext⟩

instance : i.First g.updateExpression h.updateExpression := by
  refine .later fun start => .next (P := fun op? => op?.isSome) seen_atUpdate? (fun op? hop => ?_)
    (fun op? hop => ?_) (by omega) (by omega)
  · obtain ⟨op, rfl⟩ := Option.isSome_iff_exists.mp hop
    infer_instance
  · obtain rfl := Option.not_isSome_iff_eq_none.mp hop
    refine .first fun e => .tail (a := e) (.step fun _ => ?_) (fun c s t hc hjoined hnear => ?_)
      (fun c s => .bind .unmoved fun _ s₁ h₁ => ?_) fun c s t hhere => ?_
    · split
      · infer_instance
      · refine .step fun op? => ?_
        cases op? <;> infer_instance
    · have ask {α : Type} {p : Parse α} [h : i.SharesNear p] :
          p.Yields c s fun a s' => s' = s ∧ p c t = .ok (a, t) :=
        (h.unmoved c s).and (h.yields c s t hc hjoined hnear)
      refine .ask ask fun _ => ?_
      split
      · exact (inferInstance : i.Free (pure e) (pure e)).leads c s t hc hjoined
      refine .ask ask fun op? => ?_
      cases op? with
      | some op =>
        exact .ask ask fun _ => (leads_skip (d := 1) hjoined hnear).step hc
          (fun _ => (inferInstance : i.Free (pure _) (pure _))) (by omega) (by omega) (by omega)
      | none => exact (inferInstance : i.Free (pure e) (pure e)).leads c s t hc hjoined
    · obtain rfl := h₁
      split
      · exact .pure (.inl ⟨rfl, rfl⟩)
      refine .bind (Yields.and (.unmoved) seen_atUpdate?) fun op? s₂ h₂ => ?_
      obtain ⟨rfl, hseen⟩ := h₂
      cases op? with
      | some op =>
        obtain ⟨u, rest, hnext⟩ := hseen rfl
        refine .bind .unmoved fun _ s₃ h₃ => ?_
        obtain rfl := h₃
        exact (Yields.skip_then (m := 0) (n := 0) inferInstance hnext).mono fun _ _ h => .inr h
      | none => exact .pure (.inl ⟨rfl, rfl⟩)
    · have hnone : atUpdate? c t = .ok (none, t) := by
        rw [atUpdate?, atPunct, bind_of_ok (hhere.atKind (by simp) c), if_neg Bool.false_ne_true,
          atPunct, bind_of_ok (hhere.atKind (by simp) c)]
        rfl
      rw [bind_of_ok (hhere.lineTerminatorBefore c), if_neg Bool.false_ne_true, bind_of_ok hnone]
      rfl

instance : i.First g.unaryExpression h.unaryExpression := by
  refine .peek fun t => ?_
  split
  · refine .skip fun _ => .free fun e => ?_
    dsimp only
    split <;> infer_instance
  · infer_instance

instance : i.First g.exponentiationExpression h.exponentiationExpression := by
  refine .later fun kind => ?_
  split
  · exact .first fun _ => .fork (by simp) inferInstance inferInstance
  · have := free_eat (i := i) (q := .exponent) (by simp)
    exact .first fun _ => .free fun _ => inferInstance

/-- The semicolon is an operator of none of the levels. -/
theorem first_binaryExpression {levels : List BinaryLevel}
    (hlevels : ∀ level ∈ levels, level (.punctuator .semicolon) = none) :
    i.First (g.binaryExpression levels) (h.binaryExpression levels) := by
  induction levels with
  | nil => exact inferInstanceAs (i.First g.exponentiationExpression h.exponentiationExpression)
  | cons level tighter ih =>
    have := ih fun level hlevel => hlevels level (List.mem_cons_of_mem _ hlevel)
    refine .first fun first => .loop (fun left => ?_) (by omega) hp.fuel
    have hstop := hlevels level List.mem_cons_self
    refine .look (P := fun kind => (kind.bind level).isSome) (some (.punctuator .semicolon))
      (seen_peekKind?.mono fun kind _ h hsome => h (Option.isSome_of_isSome_bind hsome))
      (fun c s t h => congrArg (fun kind => Except.ok (kind, t)) h.peekKind?) (fun kind hkind => ?_)
      fun kind hkind => ?_
    · obtain ⟨op, hop⟩ := Option.isSome_iff_exists.mp hkind
      rw [hop]
      infer_instance
    · rw [Option.not_isSome_iff_eq_none.mp hkind, Option.bind_some, hstop]
      exact ⟨inferInstance, inferInstance⟩

theorem binaryLevels_semicolon (noIn : Bool) :
    ∀ level ∈ binaryLevels noIn, level (.punctuator .semicolon) = none := by
  simp [binaryLevels, relational]

/-- Operands of the same operator, one after another. -/
theorem free_logical {q : Punctuator} (hq : q ≠ .semicolon) {op : LogicalOp}
    {operand operand' : Parse Expr} [i.First operand operand'] (e : Expr) :
    i.Free
      (loop (fun left => do
        if ← eat q then return .again (.logical op left (← operand))
        return .done left) g.fuel e : Parse Expr)
      (loop (fun left => do
        if ← eat q then return .again (.logical op left (← operand'))
        return .done left) h.fuel e) := by
  have := free_eat (i := i) hq
  exact .loop (fun _ => inferInstance) (by omega) hp.fuel

instance : i.First g.logicalAnd h.logicalAnd := by
  refine .later fun c => ?_
  have := first_binaryExpression (i := i) (g := g) (h := h) (binaryLevels_semicolon c.noIn)
  exact .first fun _ => free_logical (by simp) _

instance : i.First g.logicalOr h.logicalOr := by
  refine .first fun _ => ?_
  have (e : Expr) :=
    @free_logical i g h _ .logicalOr (by simp) .or g.logicalAnd h.logicalAnd inferInstance e
  exact .free fun _ => .fork (by simp) inferInstance inferInstance

instance : i.First g.conditionalExpression h.conditionalExpression := by
  have := free_eat (i := i) (q := .question) (by simp)
  refine .first fun _ => .free fun _ => ?_
  infer_instance

instance : i.First g.assignmentExpression h.assignmentExpression := by
  refine .later fun start => .first fun left => .fork (by simp) inferInstance <|
    .fork (by simp) inferInstance ?_
  refine .look (P := fun kind => (kind.bind assignOp?).isSome)
    (some (.punctuator .semicolon))
    (seen_peekKind?.mono fun kind _ h hsome => h (Option.isSome_of_isSome_bind hsome))
    (fun c s t h => congrArg (fun kind => Except.ok (kind, t)) h.peekKind?) (fun kind hkind => ?_)
    fun kind hkind => ?_
  · obtain ⟨op, hop⟩ := Option.isSome_iff_exists.mp hkind
    rw [hop]
    infer_instance
  · rw [Option.not_isSome_iff_eq_none.mp hkind]
    exact ⟨inferInstance, inferInstanceAs (i.Free (pure left) (pure left))⟩

instance : i.First g.expression h.expression :=
  .first fun _ => .fork (by simp) inferInstance inferInstance

end Grammar

end Ecma
