import Ecma.Proofs.Syntax.Blind

/-! The parser sees only the token sequence: sources with the same kinds and texts of tokens, however
their lines are broken, are both accepted with the same tree up to source texts, or both rejected
with the same kind of error. -/

namespace Ecma

open Parse
open Bare (bare)

namespace Grammar

/-- The productions that others use are blind to positions. -/
class Blind (g : Grammar) : Prop where
  assignment : Parse.Blind g.assignment g.assignment
  exponentiation : Parse.Blind g.exponentiation g.exponentiation
  unary : Parse.Blind g.unary g.unary
  member : Parse.Blind g.member g.member
  leftHandSide : Parse.Blind g.leftHandSide g.leftHandSide
  item : Parse.Blind g.item g.item
  subStatement : Parse.Blind g.subStatement g.subStatement

attribute [instance] Blind.assignment Blind.exponentiation Blind.unary Blind.member
  Blind.leftHandSide Blind.item Blind.subStatement

variable (g : Grammar) [hg : g.Blind]

/-! ### Functions -/

@[simp] theorem isPropertyWord_bare (t : Token) : (bare t).isPropertyWord = t.isPropertyWord := rfl

instance : Parse.Blind g.propertyName g.propertyName := by
  refine .bind fun t => ?_
  simp only [isPropertyWord_bare, Token.bare_kind, Token.bare_text]
  refine .ite (.pure rfl) ?_
  split
  · exact .same fun _ => .pure rfl
  · refine .same fun x => ?_
    cases x <;> exact .pure rfl
  · refine .same fun x => ?_
    cases x <;> exact .pure rfl
  · exact .bind fun _ => .same fun _ => .pure rfl
  · infer_instance

instance : Parse.Blind modifiesNext modifiesNext := by
  refine .option (.pure rfl) fun t => ?_
  simp only [Token.bare_kind]
  split <;> infer_instance

instance (word : String) : Parse.Blind (atModifier word) (atModifier word) := by
  unfold atModifier; infer_instance

instance : Parse.Blind g.formalParameters g.formalParameters :=
  .same fun _ => .loop_same (fun _ => .same fun _ => .unless <| .same fun _ => .unless <|
    .same fun _ => .same fun _ => .unless <| .same fun _ => inferInstance) _ _

instance : Parse.Blind atUseStrict atUseStrict :=
  .option (.pure rfl) fun _ => .pure rfl

theorem isDirective_bare (t : Stmt) : isDirective (bare t) = isDirective t := by
  cases t with
  | expression e => cases e <;> rfl
  | _ => rfl

omit hg in
theorem blind_body {item : Parse Stmt} (hitem : Parse.Blind item item) :
    Parse.Blind (g.body item) (g.body item) := by
  have hturn (p : Prologue) : Parse.Blind (do
      if (← atEnd) || (← atPunct .rightBrace) then
        return Turn.done (p.statements.reverse, p.strict)
      let useStrict ← atUseStrict
      let s ← withReader (fun c => { c with strict := p.strict }) item
      let leading := p.leading && isDirective s
      return .again (⟨s :: p.statements, leading, p.strict || (leading && useStrict)⟩ : Prologue))
    (do
      if (← atEnd) || (← atPunct .rightBrace) then
        return .done ((bare p.statements).reverse, p.strict)
      let useStrict ← atUseStrict
      let s ← withReader (fun c => { c with strict := p.strict }) item
      let leading := p.leading && isDirective s
      return .again ⟨s :: bare p.statements, leading, p.strict || (leading && useStrict)⟩) := by
    refine .same fun _ => .same fun _ => .ite (.pure (by simp)) <| .same fun _ =>
      .andThen (hitem.within fun _ => rfl) fun t => .pure ?_
    rw [isDirective_bare]
    rfl
  exact .same fun isStrict => .loop hturn g.fuel (Prologue.mk [] true isStrict)

instance (names : List String) (location location₀ : Location) : Parse.Blind
    (do for declared in names do checkBinding declared location)
    (do for declared in names do checkBinding declared location₀) := by
  induction names with
  | nil => exact inferInstanceAs (Parse.Blind (pure ()) (pure ()))
  | cons name rest ih =>
    simp only [List.forIn_cons, bind_assoc, pure_bind]
    exact .same fun _ => ih

theorem blind_functionParts (name : Option String) (kind : FunctionKind) :
    Parse.Blind (g.functionParts name kind) (g.functionParts name kind) := by
  have := g.blind_body hg.item
  refine .bind fun start => .same fun params => .same fun _ => .bind fun ⟨statements, isStrict⟩ => ?_
  simp only [bare_pair, bare_of_rigid, varNamesOf_bare]
  refine .same fun _ => .andThen (Parse.Blind.within inferInstance fun _ => rfl) fun _ => ?_
  exact .unless <| .same fun _ => .pure (by simp)

instance (name : Option String) (kind : FunctionKind) (start start₀ : Nat)
    (superProperty superCall : Bool) :
    Parse.Blind (g.functionRest name kind start superProperty superCall)
      (g.functionRest name kind start₀ superProperty superCall) := by
  have hparts := g.blind_functionParts name kind
  refine .same fun outer => .same fun _ => ?_
  refine .andThen (hparts.within fun _ => rfl) fun ⟨params, statements, isStrict⟩ => ?_
  simp only [bare_pair, bare_of_rigid]
  refine .same fun names => .same fun _ => .ofSource (fun _ => ?_) _ _
  exact .pure (by simp [bare, FunctionDef.bare])

instance (f : FunctionDef) (kind : MethodKind) (location location₀ : Location) :
    Parse.Blind (checkArity f kind location) (checkArity (bare f) kind location₀) := by
  unfold checkArity
  rw [show (bare f).params = f.params from f.bare_params]
  cases kind <;> infer_instance

instance : Parse.Blind g.functionExpression g.functionExpression :=
  .bind fun _ => .same fun _ => .same fun _ => .unless <| .same fun _ => .branch fun _ =>
    .bind fun _ => .pure rfl

instance : Parse.Blind g.functionDeclaration g.functionDeclaration :=
  .bind fun _ => .same fun _ => .same fun _ => .unless <| .same fun _ => .bind fun _ => .pure rfl

/-! ### Classes -/

instance : Parse.Blind elementModifiers elementModifiers :=
  .same fun _ => .same fun _ => .unless <| .same fun _ => .optionally fun _ => .same fun _ =>
    .unless <| .same fun _ => .unless <| inferInstance

instance : Parse.Blind checkNotField checkNotField := by unfold checkNotField; infer_instance

instance (start start₀ : Nat) (isStatic : Bool) (kind : MethodKind) (b : ClassBody) :
    Parse.Blind (g.privateElement start isStatic kind b)
      (g.privateElement start₀ isStatic kind (bare b)) :=
  .bind fun _ => .unless <| .unless <| .same fun _ => .bind fun _ => .same fun _ => .pure rfl

theorem is_bare (key : PropertyName) (word : String) : (bare key).is word = key.is word := by
  cases key <;> rfl

theorem isSome_constructorDef_bare (b : ClassBody) :
    (bare b).constructorDef.isSome = b.constructorDef.isSome :=
  Option.isSome_map

instance (start start₀ : Nat) (isStatic : Bool) (kind : MethodKind) (derived : Bool)
    (b : ClassBody) :
    Parse.Blind (g.publicElement start isStatic kind derived b)
      (g.publicElement start₀ isStatic kind derived (bare b)) := by
  refine .bind fun _ => .bind fun key => .same fun _ => ?_
  simp only [is_bare, isSome_constructorDef_bare]
  refine .ite (.unless <| .unless <| .bind fun _ => .pure rfl) ?_
  exact .unless <| .bind fun _ => .same fun _ => .pure rfl

instance (derived : Bool) (b : ClassBody) :
    Parse.Blind (g.classElement derived b) (g.classElement derived (bare b)) :=
  .bind fun _ => .same fun _ => .same fun _ => .unless inferInstance

instance (derived : Bool) : Parse.Blind (g.classElements derived) (g.classElements derived) := by
  refine .loop (fun b => ?_) g.fuel (ClassBody.mk none [] [])
  refine .same fun _ => .ite (.pure ?_) ?_
  · exact congrArg (fun elements => Turn.done (ClassBody.mk _ elements _)) (bare_reverse _).symm
  · refine .same fun _ => .ite (.pure rfl) ?_
    exact .bind fun _ => .pure rfl

/-- Filtering references by their names keeps the names that are left the same. -/
theorem map_fst_filter {l l₀ : List (String × Location)} (h : l₀.map Prod.fst = l.map Prod.fst)
    (p : String → Bool) :
    (l₀.filter fun r => p r.1).map Prod.fst = (l.filter fun r => p r.1).map Prod.fst := by
  have hfilter (l : List (String × Location)) :
      (l.filter fun r => p r.1).map Prod.fst = (l.map Prod.fst).filter p := by
    rw [List.filter_map]
    rfl
  rw [hfilter, hfilter, h]

theorem blind_setReferences {l l₀ : List (String × Location)}
    (h : l₀.map Prod.fst = l.map Prod.fst) :
    Parse.Blind (modify fun s => { s with references := l })
      (modify fun s => { s with references := l₀ }) :=
  ⟨fun _ _ _ hs => .ok ⟨hs.rest, hs.finish, h, hs.declared, hs.omitted⟩⟩

/-- The elements of a class, and the references that it leaves to the classes around it. -/
theorem blind_resolve (derived : Bool) {outer outer₀ : List (String × Location)}
    (houter : outer₀.map Prod.fst = outer.map Prod.fst) :
    let resolve (outer : List (String × Location)) : Parse ClassBody := do
      let b ← withReader (fun c => { c with inClass := true }) (g.classElements derived)
      let unresolved := (← get).references.filter fun r => !b.declared.any fun d => d.name == r.1
      if (← read).inClass then modify fun s => { s with references := outer ++ unresolved }
      else
        match unresolved with
        | (name, location) :: _ => failAt (.undeclaredPrivateName name) location
        | [] => modify fun s => { s with references := outer }
      return b
    Parse.Blind (resolve outer) (resolve outer₀) := by
  have hend {l l₀ : List (String × Location)} (hnames : l₀.map Prod.fst = l.map Prod.fst)
      (b : ClassBody) : Parse.Blind (do
        if (← read).inClass then modify fun s => { s with references := outer ++ l }
        else
          match l with
          | (name, location) :: _ => failAt (.undeclaredPrivateName name) location
          | [] => modify fun s => { s with references := outer }
        return b) (do
        if (← read).inClass then modify fun s => { s with references := outer₀ ++ l₀ }
        else
          match l₀ with
          | (name, location) :: _ => failAt (.undeclaredPrivateName name) location
          | [] => modify fun s => { s with references := outer₀ }
        return bare b) := by
    have hjoined : (outer₀ ++ l₀).map Prod.fst = (outer ++ l).map Prod.fst := by
      rw [List.map_append, List.map_append, houter, hnames]
    refine .ofSurroundings fun c => .ite (.andThen (blind_setReferences hjoined) fun _ => .pure rfl) ?_
    match l, l₀, hnames with
    | [], [], _ => exact .andThen (blind_setReferences houter) fun _ => .pure rfl
    | (name, _) :: _, (name₀, _) :: _, hnames =>
      obtain rfl : name₀ = name := (List.cons.inj hnames).1
      exact inferInstanceAs (Parse.Blind (failAt _ _ >>= _) (failAt _ _ >>= _))
  refine .andThen (Parse.Blind.within inferInstance fun _ => rfl) fun b =>
    .ofState fun c s s₀ hs => ?_
  have hnames := map_fst_filter hs.references fun name => !b.declared.any fun d => d.name == name
  exact (hend hnames b).shadows c hs

instance (derived : Bool) : Parse.Blind (g.classBody derived) (g.classBody derived) :=
  .ofState fun c _ _ hs => (g.blind_resolve derived hs.references).shadows c
    ⟨hs.rest, hs.finish, rfl, hs.declared, hs.omitted⟩

instance (isDeclaration : Bool) (start start₀ : Nat) :
    Parse.Blind (g.classRest isDeclaration start) (g.classRest isDeclaration start₀) := by
  refine .same fun _ => .same fun _ => .unless <| .branch fun name => .same fun extended => ?_
  have hrest (heritage : Option Expr) : Parse.Blind (do
        expect .leftBrace
        let b ← g.classBody heritage.isSome
        return ({
          name, heritage
          constructorDef := b.constructorDef
          elements := b.elements
          source := ← sourceSince start } : ClassDef)) (do
        expect .leftBrace
        let b ← g.classBody (bare heritage).isSome
        return {
          name
          heritage := bare heritage
          constructorDef := b.constructorDef
          elements := b.elements
          source := ← sourceSince start₀ }) := by
    rw [show (bare heritage).isSome = heritage.isSome from Option.isSome_map]
    refine .same fun _ => .bind fun b => .ofSource (fun _ => ?_) _ _
    exact .pure (by simp [bare, ClassDef.bare])
  exact .ite (.andThen (.map fun _ => rfl) hrest) (hrest none)

instance (isDeclaration : Bool) :
    Parse.Blind (g.classDefinition isDeclaration) (g.classDefinition isDeclaration) :=
  .bind fun _ => .same fun _ => Parse.Blind.within inferInstance fun _ => rfl

/-! ### Expressions -/

instance : Parse.Blind g.nestedExpression g.nestedExpression :=
  .bind fun _ => .same fun _ => .unless <| .pure rfl

instance : Parse.Blind g.memberKey? g.memberKey? := by
  refine .same fun _ => .unless <| .same fun _ => .ite ?_ ?_
  · exact .bind fun _ => .same fun _ => .pure rfl
  · refine .same fun _ => .ite (.pure rfl) <| .bind fun t => ?_
    simp only [isPropertyWord_bare, Token.bare_kind, Token.bare_text]
    exact .ite (.pure rfl) <| .ite (.same fun _ => .pure rfl) inferInstance

instance : Parse.Blind g.arguments g.arguments := by
  refine .same fun _ => .allowIn (.loop (fun args => ?_) g.fuel [])
  refine .same fun _ => .ite (.pure (by simp)) <| .same fun _ => .unless <| .bind fun _ => ?_
  exact .same fun _ => .optionally fun _ => .pure rfl

instance : Parse.Blind accessorModifier accessorModifier := by
  unfold accessorModifier; infer_instance

instance (start start₀ : Nat) (t : Token) (key : PropertyName) :
    Parse.Blind (g.propertyRest start t key) (g.propertyRest start₀ (bare t) (bare key)) := by
  refine .same fun _ => .ite (.bind fun _ => .pure rfl) <| .same fun _ => .ite
    (.bind fun _ => .pure rfl) ?_
  cases key with
  | identifier name =>
    refine .same fun _ => .unless ?_
    simp only [Token.bare_kind]
    split
    · exact .same fun _ => .pure rfl
    · exact .same fun _ => .unless <| .pure rfl
    · exact inferInstance
  | _ => exact inferInstanceAs (Parse.Blind unexpected unexpected)

instance : Parse.Blind g.objectProperty g.objectProperty := by
  refine .bind fun _ => .same fun _ => .unless <| .same fun _ => .unless <| .same fun accessor =>
    .bind fun t => .bind fun key => ?_
  match accessor with
  | some .getter => exact .bind fun _ => .same fun _ => .pure rfl
  | some .setter => exact .bind fun _ => .same fun _ => .pure rfl
  | some .method => exact .bind fun _ => .same fun _ => .pure rfl
  | none => exact inferInstance

instance : Parse.Blind g.objectLiteral g.objectLiteral := by
  refine .same fun _ => .allowIn (.loop (fun properties => ?_) g.fuel [])
  refine .same fun _ => .ite (.pure (by simp [bare, Expr.bare])) <| .bind fun _ => ?_
  exact .same fun _ => .optionally fun _ => .pure rfl

instance : Parse.Blind g.parenthesized g.parenthesized :=
  .same fun _ => .same fun _ => .unless <| .bind fun _ => .same fun _ => .pure rfl

instance : Parse.Blind g.primary g.primary := by
  refine .bind fun t => ?_
  simp only [Token.bare_kind, Token.bare_text]
  split
  · exact .same fun _ => .pure rfl
  · exact .same fun _ => .same fun _ => .pure rfl
  · exact .same fun _ => .unless <| .same fun _ => .pure rfl
  · exact .same fun _ => .pure rfl
  · exact .same fun _ => .pure rfl
  · refine .same fun _ => .same fun x => ?_
    cases x <;> exact .pure rfl
  · refine .same fun _ => .same fun x => ?_
    cases x <;> exact .pure rfl
  · exact .same fun _ => .same fun _ => .pure rfl
  · exact inferInstance
  · exact inferInstance
  · exact inferInstance
  · exact inferInstance
  · exact inferInstance
  · exact inferInstance
  · exact .bind fun _ => .pure rfl
  · exact inferInstance

instance : Parse.Blind g.superProperty g.superProperty := by
  refine .bind fun _ => .same fun _ => .ofSurroundings fun c => .unless <|
    .option inferInstance fun key => ?_
  cases key with
  | privateName name => exact inferInstanceAs (Parse.Blind (failAt _ _) (failAt _ _))
  | dot name => exact .pure rfl
  | computed e => exact .pure rfl

instance (e : Expr) : Parse.Blind (g.memberChain e) (g.memberChain (bare e)) := by
  refine .loop (fun e => ?_) g.fuel e
  refine .option ?_ fun key => ?_ <;> exact .pure rfl

instance : Parse.Blind g.newExpression g.newExpression := by
  refine .same fun _ => .unless <| .bind fun callee => .same fun _ => .ite ?_ ?_
  · exact .bind fun args => .pure (by simp [bare, Expr.bare])
  · exact .pure rfl

instance : Parse.Blind g.memberExpression g.memberExpression :=
  .same fun _ => .same fun _ => .ite (.bind fun _ => inferInstance) <|
    .ite (.bind fun _ => inferInstance) (.bind fun _ => inferInstance)

instance : Parse.Blind g.superCallExpression g.superCallExpression := by
  refine .bind fun _ => .same fun _ => .ofSurroundings fun c => .unless <| .bind fun args => ?_
  exact .pure (by simp [bare, Expr.bare])

instance (e : Expr) : Parse.Blind (g.callChain e) (g.callChain (bare e)) := by
  refine .loop (fun e => ?_) g.fuel e
  refine .same fun _ => .ite (.bind fun args => ?_) <| .option (.pure rfl) fun _ => .pure rfl
  exact .pure (by simp [bare, Expr.bare])

instance : Parse.Blind g.leftHandSideExpression g.leftHandSideExpression :=
  .same fun _ => .same fun _ => .ite (.bind fun _ => inferInstance) (.bind fun _ => inferInstance)

instance : Parse.Blind atUpdate? atUpdate? := by unfold atUpdate?; infer_instance

instance : Parse.Blind g.updateExpression g.updateExpression := by
  refine .bind fun _ => .same fun op => ?_
  cases op with
  | some op => exact .same fun _ => .bind fun _ => .same fun _ => .pure rfl
  | none =>
    refine .bind fun _ => .same fun _ => .ite (.pure rfl) <| .same fun op => ?_
    cases op with
    | some op => exact .same fun _ => .same fun _ => .pure rfl
    | none => exact .pure rfl

instance (e : Expr) (location location₀ : Location) :
    Parse.Blind (checkDelete e location) (checkDelete (bare e) location₀) := by
  unfold checkDelete
  cases e with
  | member object key => cases key <;> dsimp only [bare, Expr.bare, MemberKey.bare] <;> infer_instance
  | _ => dsimp only [bare, Expr.bare]; infer_instance

/-- The trees that operators with one operand build have no texts of their own. -/
theorem bare_unaryOperator {kind : TokenKind} {build : Expr → Expr}
    (h : unaryOperator? kind = some build) (e : Expr) : build (bare e) = bare (build e) := by
  unfold unaryOperator? at h
  split at h <;> cases h
  all_goals rfl

instance : Parse.Blind g.unaryExpression g.unaryExpression := by
  refine .bind fun t => ?_
  simp only [Token.bare_kind]
  split
  · next build hbuild =>
    refine .same fun _ => .bind fun e => ?_
    exact .ite (.same fun _ => .pure (bare_unaryOperator hbuild e)) (.pure (bare_unaryOperator hbuild e))
  · infer_instance

instance : Parse.Blind g.exponentiationExpression g.exponentiationExpression :=
  .same fun _ => .ite (.bind fun _ => .same fun _ => .unless <| .pure rfl) <|
    .bind fun _ => .same fun _ => .ite (.bind fun _ => .pure rfl) (.pure rfl)

instance (levels : List BinaryLevel) :
    Parse.Blind (g.binaryExpression levels) (g.binaryExpression levels) := by
  induction levels with
  | nil =>
    exact inferInstanceAs (Parse.Blind g.exponentiationExpression g.exponentiationExpression)
  | cons level tighter ih =>
    refine .bind fun first => .loop (fun left => ?_) g.fuel first
    refine .same fun kind => ?_
    cases kind.bind level with
    | none => exact .pure rfl
    | some op => exact .same fun _ => .bind fun _ => .pure rfl

instance : Parse.Blind g.logicalAnd g.logicalAnd := by
  refine .ofSurroundings fun c => .bind fun first => .loop (fun left => ?_) g.fuel first
  exact .same fun _ => .ite (.bind fun _ => .pure rfl) (.pure rfl)

instance : Parse.Blind g.logicalOr g.logicalOr := by
  refine .bind fun first => .andThen (.loop (fun left => ?_) g.fuel first) fun e => ?_
  · exact .same fun _ => .ite (.bind fun _ => .pure rfl) (.pure rfl)
  · exact .same fun _ => .unless <| .pure rfl

instance : Parse.Blind g.conditionalExpression g.conditionalExpression :=
  .bind fun _ => .same fun _ => .ite (.pure rfl) <| .bind fun _ => .same fun _ => .bind fun _ =>
    .pure rfl

instance : Parse.Blind g.assignmentExpression g.assignmentExpression := by
  refine .bind fun _ => .bind fun left => .same fun _ => .unless <| .same fun _ => .unless <|
    .same fun kind => ?_
  cases kind.bind assignOp? with
  | none => exact .pure rfl
  | some op => exact .same fun _ => .same fun _ => .bind fun _ => .pure rfl

instance : Parse.Blind g.expression g.expression :=
  .bind fun _ => .same fun _ => .unless <| .pure rfl

/-! ### Statements -/

instance : Parse.Blind g.condition g.condition :=
  .same fun _ => .bind fun _ => .same fun _ => .pure rfl

instance : Parse.Blind atLetDeclaration atLetDeclaration := by
  refine .same fun _ => .unless <| .option (.pure rfl) fun t => ?_
  simp only [Token.bare_kind]
  split <;> infer_instance

instance : Parse.Blind atLet atLet := by unfold atLet; infer_instance

instance : Parse.Blind atDeclaration atDeclaration := by
  refine .same fun kind => ?_
  split <;> infer_instance

instance (kind : VarKind) (name : String) (location location₀ : Location) :
    Parse.Blind (bindName kind name location) (bindName kind name location₀) := by
  unfold bindName; infer_instance

instance : Parse.Blind g.initializer? g.initializer? :=
  .same fun _ => .ite (.bind fun _ => .pure rfl) (.pure rfl)

instance (kind : VarKind) (needsInit : Bool) :
    Parse.Blind (g.declarator kind needsInit) (g.declarator kind needsInit) := by
  refine .bind fun _ => .same fun name => .same fun _ => .bind fun init => ?_
  rw [show (bare init).isNone = init.isNone from Option.isNone_map]
  exact .unless <| .pure (by simp [bare, Declarator.bare])

instance (kind : VarKind) (needsInit : Bool) :
    Parse.Blind (g.declarators kind needsInit) (g.declarators kind needsInit) := by
  refine .loop (fun done => ?_) g.fuel []
  exact .bind fun d => .same fun _ => .ite (.pure rfl) (.pure (by simp [bare]))

instance : Parse.Blind g.variableStatement g.variableStatement :=
  .same fun _ => .bind fun _ => .same fun _ => .pure (by simp [bare, Stmt.bare])

instance : Parse.Blind g.lexicalDeclaration g.lexicalDeclaration := by
  have hrest (kind : VarKind) : Parse.Blind
      (do let ds ← g.declarators kind true; semicolon; return Stmt.variables kind ds)
      (do let ds ← g.declarators kind true; semicolon; return .variables kind ds) :=
    .bind fun _ => .same fun _ => .pure (by simp [bare, Stmt.bare])
  exact .same fun _ => .ite (hrest _) (.same fun _ => hrest _)

instance : Parse.Blind g.block g.block := by
  refine .same fun _ => .andThen (.loop (fun done => ?_) g.fuel []) fun statements => ?_
  · refine .same fun _ => .ite (.pure (by simp)) <| .same fun _ => .unless ?_
    exact .bind fun _ => .pure rfl
  · rw [varNamesOf_bare]
    exact .same fun _ => .pure rfl

instance : Parse.Blind g.expressionStatement g.expressionStatement :=
  .bind fun _ => .same fun _ => .pure rfl

instance (n fuel : Nat) : Parse.Blind (labelsLoop n fuel) (labelsLoop n fuel) := by
  induction fuel generalizing n with
  | zero => exact inferInstanceAs (Parse.Blind (throw .exhausted : Parse Bool) (throw .exhausted))
  | succ fuel ih =>
    refine .option (.pure rfl) fun t => ?_
    simp only [Token.bare_kind]
    refine .same fun _ => .ite (ih (n + 2)) ?_
    split <;> infer_instance

instance : Parse.Blind g.labeledStatement g.labeledStatement := by
  refine .bind fun t => .same fun _ => .same fun _ => .ofSurroundings fun c => .unless ?_
  exact .same fun _ => .andThen (hg.subStatement.within fun _ => rfl) fun _ => .pure rfl

instance : Parse.Blind g.ifStatement g.ifStatement :=
  .same fun _ => .bind fun _ => .bind fun _ => .same fun _ =>
    .ite (.bind fun _ => .pure rfl) (.pure rfl)

instance : Parse.Blind g.loopBody g.loopBody :=
  hg.subStatement.within fun _ => rfl

instance : Parse.Blind g.whileStatement g.whileStatement :=
  .same fun _ => .bind fun _ => .bind fun _ => .pure rfl

instance : Parse.Blind g.doStatement g.doStatement :=
  .same fun _ => .bind fun _ => .same fun _ => .bind fun _ => .same fun _ => .pure rfl

instance : Parse.Blind forKind? forKind? := by unfold forKind?; infer_instance

instance : Parse.Blind g.forInit g.forInit := by
  refine .same fun _ => .ite (.pure rfl) <| .same fun kind => ?_
  cases kind with
  | some kind => exact .same fun _ => .bind fun _ => .pure (by simp [bare, ForInit.bare])
  | none => exact .bind fun _ => .pure rfl

instance (init : ForInit) : Parse.Blind (checkForInit init) (checkForInit (bare init)) := by
  cases init with
  | «variables» kind ds =>
    have hnames : Stmt.declaratorNames (bare ds) = Stmt.declaratorNames ds :=
      Stmt.declaratorNames_bare ds
    have hany : ((bare ds).any fun d => d.init.isNone) = ds.any fun d => d.init.isNone := by
      rw [show bare ds = ds.map Declarator.bare from rfl, List.any_map]
      exact congrArg ds.any (funext fun d => by cases d; simp [Declarator.bare])
    rw [show bare (ForInit.variables kind ds) = .variables kind (bare ds) from
      congrArg (ForInit.variables kind) (Declarator.bareAll_eq ds)]
    unfold checkForInit
    dsimp only
    rw [hany, hnames]
    refine .unless <| .ite ?_ (.pure rfl)
    split <;> infer_instance
  | _ => exact inferInstanceAs (Parse.Blind (pure ()) (pure ()))

instance (stop : Punctuator) :
    Parse.Blind (g.optionalExpression stop) (g.optionalExpression stop) :=
  .same fun _ => .ite (.pure rfl) (.bind fun _ => .pure rfl)

instance : Parse.Blind g.forStatement g.forStatement := by
  have hinit : Parse.Blind g.forInit g.forInit := inferInstance
  refine .same fun _ => .same fun _ => .unless <| .same fun _ =>
    .andThen (hinit.within fun _ => rfl) fun init => .same fun _ => .same fun _ => .unless ?_
  refine .same fun _ => .same fun _ => .bind fun test => .same fun _ => .bind fun update =>
    .same fun _ => .bind fun _ => .pure ?_
  simp [bare, Stmt.bare]

instance : Parse.Blind g.returnStatement g.returnStatement := by
  refine .bind fun _ => .same fun _ => .ofSurroundings fun c => .unless ?_
  refine .same fun _ => .same fun _ => .same fun _ => .same fun _ => ?_
  have hrest (value : Option Expr) : Parse.Blind (do semicolon; return Stmt.returns value)
      (do semicolon; return .returns (bare value)) :=
    .same fun _ => .pure (by simp [bare, Stmt.bare])
  exact .ite (hrest none) (.andThen (.map fun _ => rfl) hrest)

instance : Parse.Blind label? label? :=
  .same fun _ => .same fun _ => .ite (.pure rfl) <| .bind fun _ => .pure rfl

instance : Parse.Blind breakStatement breakStatement := by
  refine .bind fun _ => .same fun _ => .ofSurroundings fun c => .option ?_ fun ⟨label, _⟩ => ?_
  · exact .unless <| .same fun _ => .pure rfl
  · rw [bare_pair, bare_of_rigid label]
    exact .unless <| .same fun _ => .pure rfl

instance : Parse.Blind continueStatement continueStatement := by
  refine .bind fun _ => .same fun _ => .ofSurroundings fun c => .unless <|
    .option (.same fun _ => .pure rfl) fun ⟨label, _⟩ => ?_
  rw [show (bare c).labels = c.labels from rfl, bare_pair, bare_of_rigid label]
  dsimp only
  cases c.labels.find? fun l => l.1 == label with
  | none => exact inferInstanceAs (Parse.Blind (failAt _ _ >>= _) (failAt _ _ >>= _))
  | some l => exact .unless <| .same fun _ => .pure rfl

instance : Parse.Blind g.throwStatement g.throwStatement :=
  .same fun _ => .same fun _ => .unless <| .bind fun _ => .same fun _ => .pure rfl

instance : Parse.Blind catchParameter catchParameter := by
  unfold catchParameter; infer_instance

instance : Parse.Blind g.handler? g.handler? := by
  refine .same fun _ => .ite (.pure rfl) <| .same fun param => .bind fun statements => ?_
  cases param with
  | some name => exact .same fun _ => .pure rfl
  | none => exact .pure rfl

instance : Parse.Blind g.finalizer? g.finalizer? :=
  .same fun _ => .ite (.bind fun _ => .pure rfl) (.pure rfl)

instance : Parse.Blind g.tryStatement g.tryStatement := by
  refine .bind fun _ => .same fun _ => .bind fun statements => .bind fun handler =>
    .bind fun finalizer => ?_
  cases handler <;> cases finalizer
  · exact inferInstanceAs (Parse.Blind (failAt _ _) (failAt _ _))
  · exact .pure (by simp [bare, Stmt.bare])
  · exact .pure (by simp [bare, Stmt.bare])
  · exact .pure (by simp [bare, Stmt.bare])

instance : Parse.Blind g.caseBody g.caseBody := by
  refine .loop (fun done => ?_) g.fuel []
  refine .same fun _ => .same fun _ => .same fun _ => .same fun _ => .ite (.pure (by simp)) ?_
  exact .bind fun _ => .pure rfl

instance (seenDefault : Bool) :
    Parse.Blind (g.caseTest seenDefault) (g.caseTest seenDefault) :=
  .bind fun _ => .same fun _ => .ite (.bind fun _ => .pure rfl) <| .same fun _ =>
    .ite (.unless <| .pure rfl) inferInstance

instance : Parse.Blind g.switchCases g.switchCases := by
  refine .loop (fun done => ?_) g.fuel []
  have hany : ((bare done).any fun c => c.test.isNone) = done.any fun c => c.test.isNone := by
    rw [show bare done = done.map SwitchCase.bare from rfl, List.any_map]
    exact congrArg done.any (funext fun c => by cases c; simp [SwitchCase.bare])
  rw [hany]
  refine .same fun _ => .ite (.pure (by simp)) <| .bind fun test => .same fun _ => ?_
  exact .bind fun _ => .pure (by simp [bare, SwitchCase.bare])

instance : Parse.Blind g.switchStatement g.switchStatement := by
  have hcases : Parse.Blind g.switchCases g.switchCases := inferInstance
  refine .same fun _ => .bind fun subject => .same fun _ =>
    .andThen (hcases.within fun _ => rfl) fun cases => ?_
  have hnames : Stmt.varNamesOfCases (bare cases) = Stmt.varNamesOfCases cases := by
    rw [show bare cases = cases.map SwitchCase.bare from rfl, ← SwitchCase.bareAll_eq,
      Stmt.varNamesOfCases_bareAll]
  have hbodies : (bare cases).flatMap SwitchCase.body = bare (cases.flatMap SwitchCase.body) := by
    simp only [bare, List.flatMap_map, List.map_flatMap]
    exact congrArg cases.flatMap (funext fun c => by cases c; simp [SwitchCase.bare])
  rw [hnames, hbodies]
  exact .same fun _ => .pure (by simp [bare, Stmt.bare])

instance (first : TokenKind) : Parse.Blind (g.statement first) (g.statement first) := by
  unfold statement
  split
  · exact .bind fun _ => .pure (by simp [bare, Stmt.bare])
  · exact .same fun _ => .pure rfl
  all_goals first | exact inferInstance | exact .same fun _ => .same fun _ => .pure rfl

instance (first : TokenKind) : Parse.Blind (g.declaration first) (g.declaration first) := by
  unfold declaration
  split
  · exact inferInstance
  · exact .bind fun _ => .pure rfl
  · exact inferInstance
  · exact inferInstance
  · exact inferInstance

instance : Parse.Blind g.statementListItem g.statementListItem :=
  .same fun first => match first with
    | none => inferInstanceAs (Parse.Blind unexpected unexpected)
    | some _ => .same fun _ => inferInstance

instance : Parse.Blind g.singleStatement g.singleStatement :=
  .same fun first => match first with
    | none => inferInstanceAs (Parse.Blind (fail _) (fail _))
    | some _ => .same fun _ => inferInstance

/-- The productions of any depth of nesting, by induction on the depth. -/
theorem blind_ofFuel (n : Nat) : (ofFuel n).Blind := by
  induction n with
  | zero =>
    have hexhausted {α : Type} [Bare α] : Parse.Blind (throw .exhausted : Parse α) (throw .exhausted) :=
      inferInstance
    exact ⟨hexhausted, hexhausted, hexhausted, hexhausted, hexhausted, hexhausted, hexhausted⟩
  | succ n ih =>
    exact {
      assignment := inferInstanceAs
        (Parse.Blind (ofFuel n).assignmentExpression (ofFuel n).assignmentExpression)
      exponentiation := inferInstanceAs
        (Parse.Blind (ofFuel n).exponentiationExpression (ofFuel n).exponentiationExpression)
      unary := inferInstanceAs
        (Parse.Blind (ofFuel n).unaryExpression (ofFuel n).unaryExpression)
      member := inferInstanceAs
        (Parse.Blind (ofFuel n).memberExpression (ofFuel n).memberExpression)
      leftHandSide := inferInstanceAs
        (Parse.Blind (ofFuel n).leftHandSideExpression (ofFuel n).leftHandSideExpression)
      item := inferInstanceAs
        (Parse.Blind (ofFuel n).statementListItem (ofFuel n).statementListItem)
      subStatement := inferInstanceAs
        (Parse.Blind (ofFuel n).singleStatement (ofFuel n).singleStatement) }

instance : Parse.Blind g.script g.script := by
  have hitem : Parse.Blind g.statementListItem g.statementListItem := inferInstance
  have := g.blind_body hitem
  refine .bind fun ⟨statements, isStrict⟩ => ?_
  simp only [bare_pair, bare_of_rigid, varNamesOf_bare]
  exact .same fun _ => .unless <| .same fun _ => .same fun _ => .pure rfl

end Grammar

namespace Program

/-- What parsing gives without positions and source texts. -/
def bareResult (result : Except SyntaxError Program) : Except SyntaxErrorKind Program :=
  (result.map bare).mapError SyntaxError.kind

/-- Parsing reads nothing but what is left of the tokens. -/
theorem bareResult_parse {source : String} {tokens : TokenStream}
    (h : TokenStream.ofString source = .ok tokens) :
    bareResult (parse source) =
      match (Grammar.ofFuel (tokens.remaining + 1)).script (bare (surroundings source))
        ⟨⟨bareTokens tokens.rest, default, 0, 0⟩, [], [], []⟩ with
      | .ok (p, _) => .ok p
      | .error (.rejected e) => .error e.kind
      | .error .exhausted => .error .unexpectedEnd := by
  have := Grammar.blind_ofFuel (tokens.remaining + 1)
  have hstart : ParseState.Shadows ⟨⟨bareTokens tokens.rest, default, 0, 0⟩, [], [], []⟩ ⟨tokens, [], [], []⟩ :=
    ⟨rfl, rfl, rfl, rfl, rfl⟩
  have hblind : Parse.Blind (Grammar.ofFuel (tokens.remaining + 1)).script
      (Grammar.ofFuel (tokens.remaining + 1)).script := inferInstance
  have hscript := hblind.shadows (surroundings source) hstart
  rw [parse, h]
  dsimp only
  rw [ofTokens, Program.read]
  revert hscript
  generalize (Grammar.ofFuel (tokens.remaining + 1)).script (surroundings source) ⟨tokens, [], [], []⟩ = r
  generalize (Grammar.ofFuel (tokens.remaining + 1)).script (bare (surroundings source))
    ⟨⟨bareTokens tokens.rest, default, 0, 0⟩, [], [], []⟩ = r₀
  rintro ⟨⟩ <;> rfl

/-- Sources that lex to the same tokens, up to positions and to the length of runs of line
terminators, are parsed to the same tree up to source texts, or rejected for the same cause. -/
theorem parse_sees_tokens_only {source source' : String} {tokens tokens' : TokenStream}
    (h : TokenStream.ofString source = .ok tokens)
    (h' : TokenStream.ofString source' = .ok tokens')
    (hsame : readings tokens.rest = readings tokens'.rest) :
    (∃ p p', parse source = .ok p ∧ parse source' = .ok p' ∧ bare p = bare p') ∨
      ∃ e e', parse source = .error e ∧ parse source' = .error e' ∧ e.kind = e'.kind := by
  have hbare : bareTokens tokens.rest = bareTokens tokens'.rest :=
    congrArg (List.map _) hsame
  have hremaining : tokens.remaining = tokens'.remaining := by
    rw [TokenStream.remaining, ← countP_bareTokens, hbare, countP_bareTokens, TokenStream.remaining]
  have hresult : bareResult (parse source) = bareResult (parse source') := by
    rw [bareResult_parse h, bareResult_parse h', hbare, hremaining]
    rfl
  revert hresult
  cases parse source <;> cases parse source' <;> intro hresult
  · exact .inr ⟨_, _, rfl, rfl, Except.error.inj hresult⟩
  · cases hresult
  · cases hresult
  · exact .inl ⟨_, _, rfl, rfl, Except.ok.inj hresult⟩

/-- Blank lines, spaces and a comment change nothing but the source text of the function. -/
theorem parse_sees_tokens_only_respaced :
    let source := "f=\n \nfunction(){}"
    let source' := "f =\r\nfunction ( ) { } // g"
    (∃ tokens tokens', TokenStream.ofString source = .ok tokens ∧
      TokenStream.ofString source' = .ok tokens' ∧
      readings tokens.rest = readings tokens'.rest) ∧
    ((∃ p p', parse source = .ok p ∧ parse source' = .ok p' ∧ bare p = bare p') ∨
      ∃ e e', parse source = .error e ∧ parse source' = .error e' ∧ e.kind = e'.kind) := by
  intro source source'
  let lexed := Lexed.ofString source
  let lexed' := Lexed.ofString source'
  have h : TokenStream.ofString source = .ok ⟨lexed.tokens, lexed.finish, 0, 9⟩ := by
    decide +kernel
  have h' : TokenStream.ofString source' = .ok ⟨lexed'.tokens, lexed'.finish, 0, 8⟩ := by
    decide +kernel
  have hsame : readings lexed.tokens = readings lexed'.tokens := by decide +kernel
  exact ⟨⟨_, _, h, h', hsame⟩, parse_sees_tokens_only h h' hsame⟩

end Program

end Ecma
