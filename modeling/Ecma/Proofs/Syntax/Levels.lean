import Ecma.Proofs.Syntax.Depth

/-! Productions at any depth of nesting. Each has enough levels and turns where fewer tokens are to
come than its grammar is deep, and those that begin with a production of a deeper level where one
token less is. -/

namespace Ecma

open Parse

namespace Grammar

/-- The productions that others use have enough levels once a token has been taken. -/
class Deep (bound : Nat) (g h : Grammar) : Prop where
  left : bound ≤ g.fuel
  right : bound ≤ h.fuel
  assignment : Suffices bound 1 g.assignment h.assignment
  exponentiation : Suffices bound 1 g.exponentiation h.exponentiation
  unary : Suffices bound 1 g.unary h.unary
  member : Suffices bound 1 g.member h.member
  leftHandSide : Suffices bound 1 g.leftHandSide h.leftHandSide
  item : Suffices bound 1 g.item h.item
  subStatement : Suffices bound 1 g.subStatement h.subStatement

attribute [instance] Deep.assignment Deep.exponentiation Deep.unary Deep.member Deep.leftHandSide
  Deep.item Deep.subStatement

variable {bound slack : Nat} {g h : Grammar} [hg : g.Moves] [hd : Deep bound g h]

/-! ### Functions -/

instance : Suffices bound 0 g.propertyName h.propertyName := by
  refine .first fun t => ?_
  split
  · infer_instance
  split
  · infer_instance
  · refine .step fun x => ?_
    cases x <;> infer_instance
  · refine .step fun x => ?_
    cases x <;> infer_instance
  · infer_instance
  · infer_instance

instance : Suffices bound 0 g.formalParameters h.formalParameters := by
  refine .first fun _ => .loop (fun params => ?_) (fun params => ?_) hd.left hd.right
  · exact .eat inferInstance <| .step fun _ => .guard <| .step fun _ => .step fun _ => .guard <|
      .step fun _ => .optional fun _ => inferInstance
  · refine .step fun _ => ?_
    split
    · infer_instance
    · refine .step fun _ => .guard ?_
      exact .ofFirst <| .first fun _ => .step fun _ => .guard <| .step fun _ =>
        .optional fun _ => inferInstance

instance : atUseStrict.Sure := by
  refine .bind fun t => ?_
  cases t <;> infer_instance

omit hg in
theorem suffices_body {item item' : Parse Stmt} (hitem : Suffices bound slack item item')
    (hmoves : item.Moves 1 1) : Suffices bound slack (g.body item) (h.body item') := by
  refine .step fun isStrict => .loop (fun prologue => ?_) (fun prologue => ?_) hd.left hd.right
  · refine .step fun _ => .step fun _ => ?_
    infer_instance
  · refine .step fun _ => .step fun _ => ?_
    infer_instance

instance : Suffices bound 1 (g.body g.item) (h.body h.item) := suffices_body hd.item inferInstance

instance (name : Option String) (kind : FunctionKind) :
    Suffices bound 0 (g.functionParts name kind) (h.functionParts name kind) := by
  unfold functionParts
  infer_instance

instance (name : Option String) (kind : FunctionKind) (start : Nat)
    (superProperty superCall : Bool) :
    Suffices bound 0 (g.functionRest name kind start superProperty superCall)
      (h.functionRest name kind start superProperty superCall) := by
  unfold functionRest
  infer_instance

instance (f : FunctionDef) (kind : MethodKind) (l : Location) : (checkArity f kind l).Sure := by
  unfold checkArity
  split <;> infer_instance

instance : Suffices bound 0 g.functionExpression h.functionExpression :=
  .step fun _ => .first fun _ => .step fun _ => .guard inferInstance

instance : Suffices bound 0 g.functionDeclaration h.functionDeclaration :=
  .step fun _ => .first fun _ => .step fun _ => .guard inferInstance

/-! ### Classes -/

instance : modifiesNext.Sure := by
  refine .bind fun t => ?_
  cases t with
  | none => infer_instance
  | some t =>
    dsimp only
    split <;> infer_instance

instance (word : String) : (atModifier word).Sure := by unfold atModifier; infer_instance

instance : Suffices bound slack elementModifiers elementModifiers :=
  .step fun _ => .step fun _ => .guard <| .step fun _ => .optional fun _ => .step fun _ => .guard <|
    .step fun _ => .guard inferInstance

instance : checkNotField.Sure := by unfold checkNotField; infer_instance

instance (start : Nat) (isStatic : Bool) (kind : MethodKind) (b : ClassBody) :
    Suffices bound 0 (g.privateElement start isStatic kind b)
      (h.privateElement start isStatic kind b) :=
  .first fun _ => .guard <| .guard inferInstance

instance (start : Nat) (isStatic : Bool) (kind : MethodKind) (derived : Bool) (b : ClassBody) :
    Suffices bound 0 (g.publicElement start isStatic kind derived b)
      (h.publicElement start isStatic kind derived b) := by
  refine .step fun _ => .first fun key => .step fun _ => ?_
  split
  · exact .guard <| .guard inferInstance
  · exact .guard inferInstance

instance (derived : Bool) (b : ClassBody) :
    Suffices bound 0 (g.classElement derived b) (h.classElement derived b) := by
  unfold classElement
  infer_instance

instance (derived : Bool) :
    Suffices bound 0 (g.classElements derived) (h.classElements derived) := by
  refine .loop (fun b => ?_) (fun b => ?_) hd.left hd.right
  · infer_instance
  · refine .step fun _ => ?_
    split
    · infer_instance
    · exact .eat inferInstance inferInstance

instance (derived : Bool) : Suffices bound 0 (g.classBody derived) (h.classBody derived) := by
  refine .step fun s => .step fun _ => .first fun b => .step fun s' => .step fun c => ?_
  split
  · infer_instance
  · split <;> infer_instance

instance (isDeclaration : Bool) (start : Nat) :
    Suffices bound 0 (g.classRest isDeclaration start) (h.classRest isDeclaration start) := by
  refine .step fun _ => .step fun _ => .guard ?_
  split
  all_goals
    refine .step fun _ => .eat ?_ ?_
    · infer_instance
    · infer_instance

instance (isDeclaration : Bool) :
    Suffices bound 0 (g.classDefinition isDeclaration) (h.classDefinition isDeclaration) := by
  unfold classDefinition
  infer_instance

/-! ### Expressions -/

instance : Suffices bound 1 g.nestedExpression h.nestedExpression :=
  .step fun _ => .step fun _ => .guard inferInstance

instance : Suffices bound 0 g.memberKey? h.memberKey? :=
  .step fun _ => .guard <| .eat inferInstance inferInstance

instance : Suffices bound 0 g.arguments h.arguments := by
  have turns : Suffices bound 1 (loop (fun args => do
      if ← eat .rightParen then return .done args.reverse
      if ← atPunct .ellipsis then unsupported "Spread arguments"
      let e ← g.assignment
      if !(← atPunct .rightParen) then expect .comma
      return .again (e :: args)) g.fuel [] : Parse (List Expr)) (loop (fun args => do
      if ← eat .rightParen then return .done args.reverse
      if ← atPunct .ellipsis then unsupported "Spread arguments"
      let e ← h.assignment
      if !(← atPunct .rightParen) then expect .comma
      return .again (e :: args)) h.fuel []) := by
    refine .loop (fun args => .eat inferInstance <| .step fun _ => .guard ?_) (fun args => ?_)
      hd.left hd.right
    · exact .step fun _ => .step fun _ => .optional fun _ => inferInstance
    · refine .step fun _ => ?_
      split
      · infer_instance
      · exact .step fun _ => .guard <| .ofFirst <|
          .first fun _ => .step fun _ => .optional fun _ => inferInstance
  unfold Grammar.arguments
  infer_instance

instance : accessorModifier.Sure := by unfold accessorModifier; infer_instance

instance (start : Nat) (keyToken : Token) (key : PropertyName) :
    Suffices bound 1 (g.propertyRest start keyToken key) (h.propertyRest start keyToken key) := by
  refine .step fun _ => ?_
  split
  · infer_instance
  refine .step fun _ => ?_
  split
  · infer_instance
  split
  · refine .step fun _ => .guard ?_
    split
    · infer_instance
    · exact .step fun _ => .guard inferInstance
    · infer_instance
  · infer_instance

instance : Suffices bound 0 g.objectProperty h.objectProperty := by
  refine .step fun _ => .step fun _ => .guard <| .step fun _ => .guard <| .step fun accessor => ?_
  refine .step fun keyToken => .first fun key => ?_
  split <;> infer_instance

instance : Suffices bound 0 g.objectLiteral h.objectLiteral := by
  have turns : Suffices bound 0 (loop (fun properties => do
      if ← eat .rightBrace then return .done (.object properties.reverse)
      let property ← g.objectProperty
      if !(← atPunct .rightBrace) then expect .comma
      return .again (property :: properties)) g.fuel [] : Parse Expr) (loop (fun properties => do
      if ← eat .rightBrace then return .done (.object properties.reverse)
      let property ← h.objectProperty
      if !(← atPunct .rightBrace) then expect .comma
      return .again (property :: properties)) h.fuel []) := by
    refine .loop (fun properties => .eat inferInstance ?_) (fun properties => ?_) hd.left hd.right
    · exact .step fun _ => .step fun _ => .optional fun _ => inferInstance
    · refine .step fun _ => ?_
      split
      · infer_instance
      · exact .ofFirst <| .first fun _ => .step fun _ => .optional fun _ => inferInstance
  unfold objectLiteral
  infer_instance

instance : Suffices bound 1 g.parenthesized h.parenthesized :=
  .step fun _ => .step fun _ => .guard inferInstance

instance : Suffices bound 0 g.primary h.primary := by
  refine .peek fun t c s rest hnext hlt => ?_
  have skipped {f k : Unit → Parse Expr} (hf : ∀ u, Suffices bound 1 (f u) (k u)) :
      (skip >>= f).Settle (skip >>= k) c s :=
    .skip hf hnext hlt
  have settle {p q : Parse Expr} (hp : Suffices bound 0 p q) : p.Settle q c s := hp.settle c s hlt
  split
  case h_9 => exact skipped inferInstance
  all_goals
    apply settle
  case h_6 | h_7 =>
    refine .step fun _ => .step fun x => ?_
    cases x <;> infer_instance
  case h_3 => exact .step fun _ => .guard inferInstance
  all_goals infer_instance

/-! ### Members and calls -/

theorem settle_superProperty {c : Surroundings} {s : ParseState} {t : Token} {rest : List Token}
    (hnext : s.tokens.significant = t :: rest) (hlt : s.tokens.remaining < bound) :
    g.superProperty.Settle h.superProperty c s := by
  refine Settle.bind ⟨rfl, Sure.ends c s⟩ fun start s₁ heq => ?_
  cases heq
  refine .skip (fun _ => .step fun _ => .guard <| .step fun key? => ?_) hnext hlt
  split <;> infer_instance

omit hd in
/-- A key takes the tokens of which it consists. -/
theorem taken_memberKey? {c : Surroundings} {s : ParseState} : g.memberKey?.Yields c s
    fun key? s' => key?.isSome = true → s'.tokens.remaining < s.tokens.remaining := by
  refine .bind .unmoved fun chained s₁ h₁ => ?_
  obtain rfl := h₁
  have taken {p : Parse (Option MemberKey)} {s₂ : ParseState} [hp : p.Moves 0 0]
      (h : s₁.Moves 1 0 s₂) : p.Yields c s₂ fun key? s' => key?.isSome = true →
        s'.tokens.remaining < s₁.tokens.remaining :=
    (hp.yields c s₂).mono fun _ _ h' _ => Nat.lt_of_le_of_lt h'.remaining h.remaining
  split
  · exact .fail
  refine .bind (yields_eatKind_moves 0) fun bracketed s₂ h₂ => ?_
  split
  · next hb => exact taken (h₂.1 hb)
  next hb =>
  obtain rfl := h₂.2 (by simpa using hb)
  refine .bind (yields_eatKind_moves 0) fun dotted s₃ h₃ => ?_
  split
  · exact .pure fun h => by cases h
  · next hb => exact taken (h₃.1 (by simpa using hb))

omit hd in
/-- A turn that goes on behind a key. -/
theorem advances_memberKey? {e : Expr} : (g.memberKey? >>= fun key? => match key? with
    | some key => pure (.again (.member e key))
    | none => pure (.done e) : Parse (Turn Expr Expr)).Advances := by
  refine ⟨fun c s => .bind taken_memberKey? fun key? s' h => ?_⟩
  cases key? with
  | none => exact .pure fun h => by cases h
  | some key => exact .pure fun _ => h rfl

instance (e : Expr) : Suffices bound 0 (g.memberChain e) (h.memberChain e) := by
  refine .loop (fun e => .step fun key? => ?_) (fun e => advances_memberKey?) hd.left hd.right
  cases key? <;> infer_instance

instance : Suffices bound 1 g.newExpression h.newExpression :=
  .step fun _ => .guard <| .first fun _ => .step fun _ => inferInstance

instance : Suffices bound 0 g.memberExpression h.memberExpression := by
  refine ⟨fun c s hlt => Settle.bind ⟨rfl, Sure.ends c s⟩ fun isNew s₁ h₁ =>
    Settle.bind ⟨rfl, Sure.ends c s₁⟩ fun isSuper s₂ h₂ => ?_⟩
  obtain ⟨rfl, hsuper⟩ := Yields.atKind isSuper s₂ h₂
  obtain ⟨htaken, hsame⟩ := yields_eatKind_moves 0 isNew s₂ h₁
  have hchain (e : Expr) (s : ParseState) (hlt : s.tokens.remaining + 0 < bound) :
      (g.memberChain e).Settle (h.memberChain e) c s := Suffices.settle c s hlt
  split
  · next hnew =>
    have := (htaken hnew).remaining
    have hrest : Suffices bound 1 (g.newExpression >>= g.memberChain)
        (h.newExpression >>= h.memberChain) := inferInstance
    exact hrest.settle c s₂ (by omega)
  next hnew =>
  obtain rfl := hsame (by simpa using hnew)
  split
  · next hs =>
    obtain ⟨t, rest, hnext, -⟩ := TokenStream.exists_next (beq_iff_eq.mp (hsuper.symm.trans hs))
    refine (settle_superProperty hnext hlt).bind fun e s₃ h₃ => hchain e s₃ ?_
    have := (yields_superProperty_moves hnext e s₃ h₃).remaining
    omega
  · have hrest : Suffices bound 0 (g.primary >>= g.memberChain) (h.primary >>= h.memberChain) :=
      inferInstance
    exact hrest.settle c s₂ hlt

omit hd in
instance : g.superCallExpression.Moves 1 1 :=
  .later fun _ => .later fun _ => .later fun _ => .guard inferInstance

instance : Suffices bound 0 g.superCallExpression h.superCallExpression :=
  .step fun _ => .step fun _ => .step fun _ => .guard inferInstance

instance (e : Expr) : Suffices bound 0 (g.callChain e) (h.callChain e) := by
  refine .loop (fun e => .step fun _ => ?_) (fun e => .step fun _ => ?_) hd.left hd.right
  · split
    · infer_instance
    · refine .step fun key? => ?_
      cases key? <;> infer_instance
  · split
    · infer_instance
    · exact advances_memberKey?

instance : Suffices bound 0 g.leftHandSideExpression h.leftHandSideExpression := by
  refine .step fun _ => .step fun _ => ?_
  split
  · exact Suffices.step (p := g.superCallExpression) fun _ => inferInstance
  · exact Suffices.step (p := g.memberExpression) fun _ => inferInstance

/-! ### Operators -/

instance : atUpdate?.Sure := by unfold atUpdate?; infer_instance

instance (e : Expr) (l : Location) : (checkDelete e l).Sure := by
  unfold checkDelete
  split <;> infer_instance

instance : Suffices bound 0 g.updateExpression h.updateExpression := by
  refine .step fun start => ⟨fun c s hlt => Settle.bind ⟨rfl, Sure.ends c s⟩ fun op? s₁ heq => ?_⟩
  obtain ⟨rfl, hprefix⟩ := yields_atUpdate? op? s₁ heq
  cases op? with
  | some op =>
    obtain ⟨q, hq⟩ := hprefix rfl
    obtain ⟨t, rest, hnext, -⟩ := TokenStream.exists_next hq
    exact .skip inferInstance hnext hlt
  | none =>
    refine (Suffices.step (p := g.leftHandSideExpression) fun e => .step fun _ => ?_).settle c s₁
      hlt
    split
    · infer_instance
    · refine .step fun op? => ?_
      cases op? <;> infer_instance

instance : Suffices bound 0 g.unaryExpression h.unaryExpression := by
  refine .peek fun t c s rest hnext hlt => ?_
  split
  · exact .skip (fun _ => .step fun _ => .optional fun _ => inferInstance) hnext hlt
  · exact Suffices.settle c s hlt

instance : Suffices bound 0 g.exponentiationExpression h.exponentiationExpression := by
  refine .step fun kind => ?_
  split
  · exact .step fun _ => .step fun _ => .guard inferInstance
  · infer_instance

instance (levels : List BinaryLevel) :
    Suffices bound 0 (g.binaryExpression levels) (h.binaryExpression levels) := by
  induction levels with
  | nil => exact inferInstanceAs
      (Suffices bound 0 g.exponentiationExpression h.exponentiationExpression)
  | cons level tighter ih =>
    refine .step fun first => .loop (fun left => .step fun kind => ?_)
      (fun left => .step fun kind => ?_) hd.left hd.right
    all_goals split <;> infer_instance

instance : Suffices bound 0 g.logicalAnd h.logicalAnd :=
  .step fun _ => .step fun _ => .loop inferInstance inferInstance hd.left hd.right

instance : Suffices bound 0 g.logicalOr h.logicalOr := by
  refine .step fun _ => .loopThen inferInstance inferInstance inferInstance hd.left hd.right
    fun _ => ?_
  exact .step fun _ => .guard inferInstance

instance : Suffices bound 0 g.conditionalExpression h.conditionalExpression := by
  unfold conditionalExpression; infer_instance

instance : Suffices bound 0 g.assignmentExpression h.assignmentExpression := by
  refine .step fun start => .first fun left => .step fun _ => .guard <| .step fun _ => .guard ?_
  refine .step fun kind => ?_
  split <;> infer_instance

instance : Suffices bound 0 g.expression h.expression :=
  .step fun _ => .step fun _ => .guard inferInstance

/-! ### Declarations -/

instance : Suffices bound 0 g.condition h.condition := by unfold condition; infer_instance

instance (kind : VarKind) (name : String) (l : Location) : (bindName kind name l).Sure := by
  unfold bindName; infer_instance

instance : Suffices bound 0 g.initializer? h.initializer? := by
  unfold initializer?; infer_instance

instance (kind : VarKind) (needsInit : Bool) :
    Suffices bound 0 (g.declarator kind needsInit) (h.declarator kind needsInit) :=
  .step fun _ => .step fun _ => .step fun _ => .step fun _ => .guard inferInstance

instance (kind : VarKind) (needsInit : Bool) :
    Suffices bound 0 (g.declarators kind needsInit) (h.declarators kind needsInit) :=
  .loop (fun _ => inferInstance) (fun _ => inferInstance) hd.left hd.right

instance : Suffices bound 0 g.variableStatement h.variableStatement := by
  unfold variableStatement; infer_instance

instance : Suffices bound 0 g.lexicalDeclaration h.lexicalDeclaration := by
  refine .step fun _ => ?_
  split <;> infer_instance

instance : Suffices bound 0 g.block h.block := by
  refine .first fun _ => .loopThen
    (fun _ => .eat inferInstance <| .step fun _ => .guard inferInstance)
    (fun _ => .step fun _ => ?_) (fun _ => .step fun _ => ?_) hd.left hd.right inferInstance
  all_goals split
  · infer_instance
  · exact .step fun _ => .guard inferInstance
  · infer_instance
  · exact .step fun _ => .guard inferInstance

instance : Suffices bound 0 g.expressionStatement h.expressionStatement := by
  unfold expressionStatement; infer_instance

/-! ### Labels -/

omit hg hd in
/-- The look past labels ends at the last token at the latest. -/
theorem settle_labelsLoop {c : Surroundings} {s : ParseState} {n fuel fuel' : Nat}
    (hfuel : s.tokens.remaining < n + fuel) (hfuel' : s.tokens.remaining < n + fuel')
    (hn : n ≤ s.tokens.remaining) :
    (labelsLoop n fuel).Settle (labelsLoop n fuel') c s := by
  induction fuel generalizing n fuel' with
  | zero => omega
  | succ fuel ih =>
    obtain ⟨fuel', rfl⟩ : ∃ m, fuel' = m + 1 := ⟨fuel' - 1, by omega⟩
    rw [labelsLoop, labelsLoop]
    refine Settle.bind ⟨rfl, Sure.ends c s⟩ fun t? s₁ heq => ?_
    cases heq
    cases hnext : s.tokens.peekNth? n with
    | none => exact ⟨rfl, Sure.ends (p := pure false) c s⟩
    | some t =>
      refine Settle.bind ⟨rfl, Sure.ends c s⟩ fun b s₁ heq => ?_
      obtain ⟨rfl, hcolon⟩ := Yields.nthIs b s₁ heq
      split
      · next hlabel =>
        simp only [Bool.and_eq_true] at hlabel
        obtain ⟨colon, hget, -⟩ := hcolon hlabel.2
        obtain ⟨hbehind, -⟩ := List.getElem?_eq_some_iff.mp hget
        have := TokenStream.remaining_eq s₁.tokens
        exact ih (by omega) (by omega) (by omega)
      · split
        all_goals exact ⟨rfl, Sure.ends c s₁⟩

instance : Suffices bound slack (labelsLoop 0 g.fuel) (labelsLoop 0 h.fuel) := by
  refine ⟨fun c s hlt => settle_labelsLoop ?_ ?_ (Nat.zero_le _)⟩
  · have := hd.left
    omega
  · have := hd.right
    omega

instance : Suffices bound 0 g.labeledStatement h.labeledStatement :=
  .first fun _ => .step fun _ => .step fun _ => .step fun _ => .guard inferInstance

/-! ### Statements -/

instance : Suffices bound 0 g.ifStatement h.ifStatement := by
  unfold ifStatement; infer_instance

instance : Suffices bound 1 g.loopBody h.loopBody := by unfold loopBody; infer_instance

instance : Suffices bound 0 g.whileStatement h.whileStatement := by
  unfold whileStatement; infer_instance

instance : Suffices bound 0 g.doStatement h.doStatement := by
  unfold doStatement; infer_instance

instance : atLetDeclaration.Sure := by
  refine .bind fun b => ?_
  split
  · infer_instance
  · refine .bind fun t => ?_
    cases t with
    | none => infer_instance
    | some t =>
      dsimp only
      split <;> infer_instance

instance : atLet.Sure := by unfold atLet; infer_instance

instance : atDeclaration.Sure := by
  refine .bind fun kind => ?_
  split <;> infer_instance

instance : forKind?.Sure := by unfold forKind?; infer_instance

instance : Suffices bound 0 g.forInit h.forInit := by
  refine .step fun _ => ?_
  split
  · infer_instance
  refine .step fun kind? => ?_
  cases kind? <;> infer_instance

instance (init : ForInit) : Suffices bound slack (checkForInit init) (checkForInit init) := by
  unfold checkForInit
  split
  · refine .guard ?_
    split
    · split <;> infer_instance
    · infer_instance
  · infer_instance

instance (stop : Punctuator) :
    Suffices bound 0 (g.optionalExpression stop) (h.optionalExpression stop) := by
  unfold optionalExpression; infer_instance

instance : Suffices bound 0 g.forStatement h.forStatement := by
  refine .first fun _ => .step fun _ => .guard <| .step fun _ => .step fun _ => .step fun _ => ?_
  exact .step fun _ => .guard <| .step fun _ => inferInstance

instance : Suffices bound 0 g.returnStatement h.returnStatement :=
  .step fun _ => .first fun _ => .step fun _ => .guard <| .step fun _ => .step fun _ =>
    .step fun _ => .step fun _ => inferInstance

instance : label?.Sure := by unfold label?; infer_instance

instance : Suffices bound slack breakStatement breakStatement := by
  refine .step fun _ => .step fun _ => .step fun _ => .step fun label => ?_
  cases label <;> exact .guard inferInstance

instance : Suffices bound slack continueStatement continueStatement := by
  refine .step fun _ => .step fun _ => .step fun _ => .guard <| .step fun label => ?_
  cases label with
  | none => infer_instance
  | some label =>
    dsimp only
    split
    · infer_instance
    · exact .guard inferInstance

instance : Suffices bound 0 g.throwStatement h.throwStatement :=
  .first fun _ => .step fun _ => .guard inferInstance

instance : catchParameter.Sure := by unfold catchParameter; infer_instance

instance : Suffices bound 0 g.handler? h.handler? := by
  refine .step fun _ => ?_
  split
  · infer_instance
  refine .step fun param => .step fun _ => ?_
  cases param <;> infer_instance

instance : Suffices bound 0 g.finalizer? h.finalizer? := by unfold finalizer?; infer_instance

instance : Suffices bound 0 g.tryStatement h.tryStatement := by
  refine .step fun _ => .step fun _ => .step fun _ => .step fun _ => .step fun _ => ?_
  split <;> infer_instance

instance : Suffices bound 1 g.caseBody h.caseBody := by
  refine .loop (fun done => ?_) (fun done => ?_) hd.left hd.right
  all_goals
    refine .step fun _ => .step fun _ => .step fun _ => .step fun _ => ?_
    dsimp only
    split <;> infer_instance

instance (seenDefault : Bool) :
    Suffices bound 0 (g.caseTest seenDefault) (h.caseTest seenDefault) := by
  refine .step fun _ => .step fun _ => ?_
  split
  · infer_instance
  refine .step fun _ => ?_
  split
  · exact .guard inferInstance
  · infer_instance

instance : Suffices bound 0 g.switchCases h.switchCases :=
  .loop (fun _ => inferInstance) (fun _ => inferInstance) hd.left hd.right

instance : Suffices bound 0 g.switchStatement h.switchStatement :=
  .first fun _ => .step fun _ => .step fun _ => .step fun _ => .step fun _ => inferInstance

instance (first : TokenKind) :
    Suffices bound 0 (g.declaration first) (h.declaration first) := by
  unfold declaration
  split <;> infer_instance

instance (first : TokenKind) : Suffices bound 0 (g.statement first) (h.statement first) := by
  unfold statement
  split <;> infer_instance

instance : Suffices bound 0 g.statementListItem h.statementListItem := by
  refine .step fun first? => ?_
  cases first? <;> infer_instance

instance : Suffices bound 0 g.singleStatement h.singleStatement := by
  refine .step fun first? => ?_
  cases first? <;> infer_instance

instance : Suffices bound 0 g.script h.script := by
  have hbody : Suffices bound 0 (g.body g.statementListItem) (h.body h.statementListItem) :=
    suffices_body inferInstance inferInstance
  have : (g.body g.statementListItem).Moves 0 1 := moves_body
  exact .step fun _ => .step fun _ => .guard inferInstance

omit hg hd in
/-- Grammars of any greater depth, by induction on the bound: one more level of productions is for
one more token. -/
theorem deep_ofFuel {bound n m : Nat} (hn : bound ≤ n) (hm : bound ≤ m) :
    Deep bound (ofFuel n) (ofFuel m) := by
  induction bound generalizing n m with
  | zero =>
    have none {α : Type} {p q : Parse α} : Suffices 0 1 p q :=
      ⟨fun _ _ hlt => absurd hlt (Nat.not_lt_zero _)⟩
    exact ⟨Nat.zero_le _, Nat.zero_le _, none, none, none, none, none, none, none⟩
  | succ bound ih =>
    obtain ⟨n, rfl⟩ := Nat.exists_eq_add_one_of_ne_zero (Nat.ne_zero_of_lt hn)
    obtain ⟨m, rfl⟩ := Nat.exists_eq_add_one_of_ne_zero (Nat.ne_zero_of_lt hm)
    have := ih (Nat.le_of_succ_le_succ hn) (Nat.le_of_succ_le_succ hm)
    have := moves_ofFuel n
    have next {α : Type} {p q : Parse α} (h : Suffices bound 0 p q) : Suffices (bound + 1) 1 p q :=
      ⟨fun c s hlt => h.settle c s (by omega)⟩
    exact
      { left := hn
        right := hm
        assignment := next (inferInstanceAs (Suffices bound 0
          (ofFuel n).assignmentExpression (ofFuel m).assignmentExpression))
        exponentiation := next (inferInstanceAs (Suffices bound 0
          (ofFuel n).exponentiationExpression (ofFuel m).exponentiationExpression))
        unary := next (inferInstanceAs (Suffices bound 0
          (ofFuel n).unaryExpression (ofFuel m).unaryExpression))
        member := next (inferInstanceAs (Suffices bound 0
          (ofFuel n).memberExpression (ofFuel m).memberExpression))
        leftHandSide := next (inferInstanceAs (Suffices bound 0
          (ofFuel n).leftHandSideExpression (ofFuel m).leftHandSideExpression))
        item := next (inferInstanceAs (Suffices bound 0
          (ofFuel n).statementListItem (ofFuel m).statementListItem))
        subStatement := next (inferInstanceAs (Suffices bound 0
          (ofFuel n).singleStatement (ofFuel m).singleStatement)) }

end Grammar

end Ecma
