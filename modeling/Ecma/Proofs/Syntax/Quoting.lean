import Ecma.Proofs.Syntax.Excerpt

/-! Productions in an excerpt: whatever a production reads between two places of the stretch, it reads
in the other text too, as soon as there are enough levels of productions for the tokens there. -/

namespace Ecma

open Parse Excerpt

namespace Grammar

/-- The productions that others use agree, once a token has been taken. -/
class Copies (i : Excerpt) (g h : Grammar) : Prop where
  assignment : i.Agrees h.fuel 1 1 g.assignment h.assignment
  exponentiation : i.Agrees h.fuel 1 1 g.exponentiation h.exponentiation
  unary : i.Agrees h.fuel 1 1 g.unary h.unary
  member : i.Agrees h.fuel 1 1 g.member h.member
  leftHandSide : i.Agrees h.fuel 1 1 g.leftHandSide h.leftHandSide
  item : i.Agrees h.fuel 1 1 g.item h.item
  subStatement : i.Agrees h.fuel 1 1 g.subStatement h.subStatement
  moves : g.Moves

attribute [instance] Copies.assignment Copies.exponentiation Copies.unary Copies.member
  Copies.leftHandSide Copies.item Copies.subStatement

variable {i : Excerpt} {g h : Grammar} [hp : Copies i g h] {bound slack : Nat}

/-! ### Functions -/

/-- Where a word stands does not matter. -/
theorem isPropertyWord_moved {kind : TokenKind} {text : String} (l l' : Location) :
    (⟨kind, text, l'⟩ : Token).isPropertyWord = (⟨kind, text, l⟩ : Token).isPropertyWord :=
  rfl

instance : i.Agrees h.fuel 0 1 g.propertyName h.propertyName := by
  refine .advance fun kind text l l' => ?_
  rw [isPropertyWord_moved l l']
  dsimp only
  split
  · infer_instance
  split
  · infer_instance
  · refine .step fun x => ?_
    cases x <;> infer_instance
  · refine .step fun x => ?_
    cases x <;> infer_instance
  · infer_instance
  · infer_instance

instance : i.Agrees h.fuel 0 1 g.formalParameters h.formalParameters :=
  .first fun _ => .loop fun _ => .eat inferInstance inferInstance

instance : i.Agrees bound slack 0 atUseStrict atUseStrict :=
  .peek? inferInstance fun kind text _ _ =>
    inferInstanceAs (i.Agrees bound slack 0
      (pure (kind == .stringLiteral && (text == "'use strict'" || text == "\"use strict\"")))
      (pure _))

omit hp in
theorem agrees_body {item item' : Parse Stmt}
    (hitem : i.Agrees h.fuel slack 1 item item') :
    i.Agrees h.fuel slack 0 (g.body item) (h.body item') := by
  refine .step fun isStrict => .loop fun prologue => ?_
  have := hitem.within (φ := fun c => { c with strict := prologue.strict }) fun _ _ => ⟨rfl, rfl⟩
  refine .later fun _ => .later fun _ => ?_
  dsimp only
  split <;> infer_instance

instance : i.Agrees h.fuel 1 0 (g.body g.item) (h.body h.item) := agrees_body hp.item

instance (name : Option String) (kind : FunctionKind) :
    i.Agrees h.fuel 0 1 (g.functionParts name kind) (h.functionParts name kind) := by
  refine .at fun l l' => .first fun params => .step fun _ => .step fun r => .step fun _ => ?_
  have hnames : i.Agrees h.fuel 1 0
      (do for declared in name.toList ++ params do checkBinding declared l : Parse Unit)
      (do for declared in name.toList ++ params do checkBinding declared l') := inferInstance
  have := hnames.within (φ := fun c => { c with strict := r.2 }) fun _ _ => ⟨rfl, rfl⟩
  infer_instance

instance (name : Option String) (kind : FunctionKind) (start start' : Nat) [i.Marks start start']
    (superProperty superCall : Bool) :
    i.Agrees h.fuel 0 1 (g.functionRest name kind start superProperty superCall)
      (h.functionRest name kind start' superProperty superCall) := by
  have hparts : i.Agrees h.fuel 0 1 (g.functionParts name kind) (h.functionParts name kind) :=
    inferInstance
  have := hparts.within (φ := fun c =>
    { c with
      noIn := false, inFunction := true, inIteration := false, inSwitch := false, labels := []
      superProperty, superCall }) fun _ _ => ⟨rfl, rfl⟩
  unfold functionRest
  infer_instance

instance (f : FunctionDef) (kind : MethodKind) (l l' : Location) :
    i.Agrees bound slack 0 (checkArity f kind l) (checkArity f kind l') := by
  unfold checkArity
  split <;> infer_instance

instance : i.Agrees h.fuel 0 1 g.functionExpression h.functionExpression := by
  have := hp.moves
  refine .marked (inferInstanceAs (g.functionExpression.Moves 0 0)) fun l l' hl => ?_
  exact .first fun _ => .step fun _ => .guard (.step fun _ => inferInstance)

instance : i.Agrees h.fuel 0 1 g.functionDeclaration h.functionDeclaration := by
  have := hp.moves
  refine .marked (inferInstanceAs (g.functionDeclaration.Moves 0 0)) fun l l' hl => ?_
  exact .first fun _ => .step fun _ => .guard inferInstance

/-! ### Modifiers -/

section

variable {c : Surroundings} {s t : ParseState} {α : Type} {m : α → Nat}

omit hp in
/-- A token that is no further ahead than the brace at the end. -/
theorem leads_peekNth? {f k : Option Token → Parse α} {j : Nat} (hjoined : i.Joined s t)
    (hj : i.left + j < s.tokens.remaining)
    (h : ∀ kind text l l', i.left + (j + 1) < s.tokens.remaining ∨
      kind = .punctuator .rightBrace →
        i.Leads m (f (some ⟨kind, text, l⟩)) (k (some ⟨kind, text, l'⟩)) c s t) :
    i.Leads m (peekNth? j >>= f) (peekNth? j >>= k) c s t := by
  obtain ⟨u, u', hu, hu', hsame, hlast⟩ := hjoined.peekNth? hj
  have heq : peekNth? j (i.around c) t = .ok (some u', t) :=
    congrArg (fun u? => Except.ok (u?, t)) hu'
  refine Yields.bind (P := fun u? s' => u? = some u ∧ s' = s) (fun u? s' heq => ?_)
    fun u? s' h' => ?_
  · cases heq
    exact ⟨hu, rfl⟩
  · obtain ⟨rfl, rfl⟩ := h'
    have hlead := h u.kind u.text u.location u'.location hlast
    rw [show (⟨u.kind, u.text, u'.location⟩ : Token) = u' by rw [← hsame.kind, ← hsame.text]] at hlead
    exact Yields.mono hlead fun b s'' h'' => by rwa [bind_of_ok heq]

omit hp in
/-- The next token is not the brace at the end, so there is one behind it. -/
theorem two_left (hjoined : i.Joined s t)
    (hnext : s.tokens.peekKind? ≠ some (.punctuator .rightBrace)) :
    i.left + 1 < s.tokens.remaining := by
  obtain ⟨u, u', hu, -, -, hlast⟩ := hjoined.peekNth? (j := 0) (by
    obtain ⟨j, hj, -⟩ := hjoined.remaining
    omega)
  refine hlast.resolve_right fun hbrace => hnext ?_
  rw [TokenStream.peekKind?, TokenStream.peek?_eq, List.head?_eq_getElem?,
    ← TokenStream.peekNth?_eq, hu, Option.map_some, hbrace]

omit hp in
theorem leads_nthIs {f k : Bool → Parse α} (x : Punctuator) (hjoined : i.Joined s t)
    (hnext : s.tokens.peekKind? ≠ some (.punctuator .rightBrace))
    (h : ∀ b, i.Leads m (f b) (k b) c s t) :
    i.Leads m (nthIs 1 x >>= f) (nthIs 1 x >>= k) c s t := by
  unfold nthIs
  rw [bind_assoc, bind_assoc]
  exact leads_peekNth? hjoined (two_left hjoined hnext) fun kind text l l' _ =>
    h (kind == .punctuator x)

end

instance (word : String) : i.Agrees bound slack 0 (atModifier word) (atModifier word) := by
  refine ⟨.step fun b => ?_, fun c s t hc hjoined hlt => ?_⟩
  · split
    · refine .step fun u? => ?_
      split
      · infer_instance
      · split <;> infer_instance
    · infer_instance
  refine Leads.ask (Agrees.leads c s t hc hjoined hlt) hjoined (yields_atWord word)
    fun b t' hb hjoined' hremaining => ?_
  split
  · next hword =>
    refine leads_peekNth? hjoined' (two_left hjoined' (by simp [hb hword])) fun kind text l l' _ => ?_
    dsimp only
    split <;> exact .pure hjoined' _
  · exact .pure hjoined' false

omit hp in
/-- A token ahead only matters where the next one is not the brace at the end. -/
theorem agrees_both {α : Type} {m : Nat} {p : Parse Bool} {x : Punctuator}
    {f k : Bool → Bool → Parse α} [hp : i.Agrees bound slack 0 p p]
    (hnext : ∀ c s, p.Yields c s fun b s' => s' = s ∧
      (b = true → s.tokens.peekKind? ≠ some (.punctuator .rightBrace)))
    (hf : ∀ a b, i.Agrees bound slack m (f a b) (k a b)) (hfirst : ∀ b, f false b = f false false)
    (hsecond : ∀ b, k false b = k false false) :
    i.Agrees bound slack m (p >>= fun a => nthIs 1 x >>= f a) (p >>= fun a => nthIs 1 x >>= k a) := by
  have := hp.moves
  refine ⟨.step fun a => .step fun b => (hf a b).moves, fun c s t hc hjoined hlt => ?_⟩
  refine Leads.ask (hp.leads c s t hc hjoined hlt) hjoined (hnext c s)
    fun a t' ha hjoined' hremaining => ?_
  have hleads (b : Bool) := (hf a b).leads c s t' hc hjoined' (by omega)
  cases a with
  | true => exact leads_nthIs x hjoined' (ha rfl) hleads
  | false =>
    obtain ⟨b, hb⟩ : ∃ b, nthIs 1 x (i.around c) t' = .ok (b, t') := ⟨_, rfl⟩
    refine Yields.bind .nthIs fun b' s' h => ?_
    obtain ⟨rfl, -⟩ := h
    rw [hfirst]
    refine Yields.mono (hleads false) fun a s'' h => ?_
    rwa [bind_of_ok hb, hsecond]

omit hp in
theorem yields_atPunct_closing {x : Punctuator} (hx : x ≠ .rightBrace) (c : Surroundings)
    (s : ParseState) : (atPunct x).Yields c s fun b s' => s' = s ∧
      (b = true → s.tokens.peekKind? ≠ some (.punctuator .rightBrace)) := by
  intro b s' heq
  cases heq
  refine ⟨rfl, fun hat hbrace => hx ?_⟩
  rw [TokenStream.check, hbrace, beq_iff_eq] at hat
  cases hat
  rfl

/-! ### Classes -/

instance : i.Agrees bound slack 0 elementModifiers elementModifiers := by
  refine agrees_both (fun c s => ?_) (fun a b => .guard ?_) (fun _ => rfl) fun _ => rfl
  · exact (yields_atWord _).mono fun _ _ h => ⟨h.1, fun hb => by simp [h.2 hb]⟩
  · refine .step fun isStatic => .optional fun _ => .step fun _ => .guard <| .step fun _ => ?_
    exact .guard inferInstance

instance : i.Agrees bound slack 0 checkNotField checkNotField := by
  unfold checkNotField; infer_instance

instance (start start' : Nat) [i.Marks start start'] (isStatic : Bool) (kind : MethodKind)
    (b : ClassBody) : i.Agrees h.fuel 0 1 (g.privateElement start isStatic kind b)
      (h.privateElement start' isStatic kind b) := by
  refine .advance fun kind text l l' => .guard <| .guard ?_
  infer_instance

instance (start start' : Nat) [i.Marks start start'] (isStatic : Bool) (kind : MethodKind)
    (derived : Bool) (b : ClassBody) :
    i.Agrees h.fuel 0 1 (g.publicElement start isStatic kind derived b)
      (h.publicElement start' isStatic kind derived b) := by
  refine .at fun l l' => .first fun key => .step fun _ => ?_
  infer_instance

instance (derived : Bool) (b : ClassBody) :
    i.Agrees h.fuel 0 1 (g.classElement derived b) (h.classElement derived b) := by
  have := hp.moves
  refine .marked (inferInstanceAs ((g.classElement derived b).Moves 0 0)) fun l l' hl => ?_
  exact .later fun _ => inferInstance

instance (derived : Bool) :
    i.Agrees h.fuel 0 0 (g.classElements derived) (h.classElements derived) := by
  refine .loop fun b => .eat inferInstance (.eat inferInstance ?_)
  infer_instance

instance (derived : Bool) :
    i.Agrees h.fuel 0 0 (g.classBody derived) (h.classBody derived) := by
  have helements : i.Agrees h.fuel 0 0 (g.classElements derived) (h.classElements derived) :=
    inferInstance
  have := helements.within (φ := fun c => { c with inClass := true }) fun _ _ => ⟨rfl, rfl⟩
  refine .get fun s t hst => ?_
  have : i.Agrees h.fuel 0 0 (modify fun s => { s with references := [] } : Parse PUnit)
      (modify fun s => { s with references := [] }) := .references rfl
  refine .step fun _ => .step fun b => .get fun s' t' hst' => .read fun c => ?_
  -- The uses that are left over are those of the same names.
  have hfilter (l : List (String × Location)) :
      (l.filter fun r => !b.declared.any fun d => d.name == r.1).map Prod.fst =
        (l.map Prod.fst).filter fun name => !b.declared.any fun d => d.name == name := by
    rw [List.filter_map]
    rfl
  have hunresolved :=
    (hfilter t'.references).trans ((congrArg _ hst').trans (hfilter s'.references).symm)
  rw [show (i.around c).inClass = c.inClass from rfl]
  generalize (t'.references.filter fun r => !b.declared.any fun d => d.name == r.1) = unresolved'
    at hunresolved
  generalize (s'.references.filter fun r => !b.declared.any fun d => d.name == r.1) = unresolved
    at hunresolved
  by_cases hclass : c.inClass = true
  · rw [if_pos hclass, if_pos hclass]
    have : i.Agrees h.fuel 0 0
        (modify fun u => { u with references := s.references ++ unresolved } : Parse PUnit)
        (modify fun u => { u with references := t.references ++ unresolved' }) :=
      .references (by rw [List.map_append, List.map_append, hst, hunresolved])
    infer_instance
  · rw [if_neg hclass, if_neg hclass]
    have : i.Agrees h.fuel 0 0
        (modify fun u => { u with references := s.references } : Parse PUnit)
        (modify fun u => { u with references := t.references }) := .references hst
    cases unresolved with
    | cons r rest => infer_instance
    | nil =>
      obtain rfl := List.map_eq_nil_iff.mp hunresolved
      infer_instance

instance (isDeclaration : Bool) (start start' : Nat) [i.Marks start start'] :
    i.Agrees h.fuel 0 1 (g.classRest isDeclaration start) (h.classRest isDeclaration start') := by
  refine .later fun a => .later fun b => .guard ?_
  split
  all_goals
    refine .later fun _ => .eat (Nat.le_refl 1) ?_ ?_
    · infer_instance
    · infer_instance

instance (isDeclaration : Bool) : i.Agrees h.fuel 0 1 (g.classDefinition isDeclaration)
    (h.classDefinition isDeclaration) := by
  have := hp.moves
  refine .marked (inferInstanceAs ((g.classDefinition isDeclaration).Moves 0 0)) fun l l' hl => ?_
  have hrest : i.Agrees h.fuel 0 1 (g.classRest isDeclaration l.offset)
      (h.classRest isDeclaration l'.offset) := inferInstance
  have := hrest.within (φ := fun c => { c with strict := true }) fun _ _ => ⟨rfl, rfl⟩
  infer_instance
/-! ### Expressions -/

instance : i.Agrees h.fuel 1 1 g.nestedExpression h.nestedExpression :=
  .first fun _ => .step fun _ => .guard inferInstance

instance : i.Signals h.fuel 0 g.memberKey? h.memberKey? := by
  refine .later fun _ => .guard <| .eat inferInstance <| .eatNot (.free ?_) inferInstance
  refine .advance fun kind text l l' => ?_
  rw [isPropertyWord_moved l l']
  infer_instance

instance : i.Agrees h.fuel 0 1 g.arguments h.arguments := by
  refine .first fun _ => .allowIn (.loop fun args => .eat inferInstance <| .later fun _ => .guard ?_)
  exact .ofFirst (.first fun _ => .step fun _ => .optional fun _ => inferInstance)

instance : i.Agrees bound slack 0 accessorModifier accessorModifier := by
  unfold accessorModifier; infer_instance

instance (start start' : Nat) [i.Marks start start'] (kind : TokenKind) (text : String)
    (l l' : Location) (key : PropertyName) :
    i.Agrees h.fuel 1 0 (g.propertyRest start ⟨kind, text, l⟩ key)
      (h.propertyRest start' ⟨kind, text, l'⟩ key) := by
  refine .step fun _ => ?_
  split
  · infer_instance
  refine .eat (Nat.zero_le 1) inferInstance ?_
  cases key with
  | identifier name =>
    refine .step fun _ => .guard ?_
    dsimp only
    split
    · infer_instance
    · exact .step fun _ => .guard inferInstance
    · infer_instance
  | _ => infer_instance

instance : i.Agrees h.fuel 0 1 g.objectProperty h.objectProperty := by
  have := hp.moves
  refine .marked (inferInstanceAs (g.objectProperty.Moves 0 0)) fun l l' hl => ?_
  refine .later fun _ => .guard <| .later fun _ => .guard <| .later fun accessor => ?_
  refine .peek fun kind text l l' => .first fun key => ?_
  dsimp only
  split <;> infer_instance

instance : i.Agrees h.fuel 0 1 g.objectLiteral h.objectLiteral := by
  refine .first fun _ => .allowIn (.loop fun properties => .eat inferInstance ?_)
  have : i.Agrees h.fuel 0 1 g.objectProperty h.objectProperty := inferInstance
  exact .ofFirst (.first fun _ => .step fun _ => .optional fun _ => inferInstance)

instance : i.Agrees h.fuel 1 1 g.parenthesized h.parenthesized := by
  refine agrees_both (yields_atPunct_closing (by simp)) (fun a b => .guard ?_) (fun _ => rfl)
    fun _ => rfl
  exact .first fun _ => inferInstance

instance : i.Agrees h.fuel 0 1 g.primary h.primary := by
  refine .peek fun kind text l l' => ?_
  dsimp only
  split
  case h_6 | h_7 =>
    refine .first fun _ => .step fun v => ?_
    cases v <;> infer_instance
  case h_3 => exact .later fun _ => .guard inferInstance
  all_goals infer_instance

/-! ### Members and calls -/

instance : i.Agrees h.fuel 0 1 g.superProperty h.superProperty := by
  refine .at fun l l' => .first fun _ => .read fun c => .guard <| .step fun key? => ?_
  split <;> infer_instance

instance (e : Expr) : i.Agrees h.fuel 0 0 (g.memberChain e) (h.memberChain e) :=
  .loop fun _ => .option inferInstance fun _ => inferInstance

instance : i.Agrees h.fuel 1 1 g.newExpression h.newExpression :=
  .later fun _ => .guard <| .first fun _ => .step fun _ => inferInstance

instance : i.Agrees h.fuel 0 1 g.memberExpression h.memberExpression := by
  refine .fork (Nat.le_refl 1) (fun isNew hnew => ?_) fun isNew hnew => .later fun isSuper => ?_
  · obtain rfl : isNew = true := hnew
    have hrest : i.Agrees h.fuel 1 0 (g.newExpression >>= g.memberChain)
        (h.newExpression >>= h.memberChain) := inferInstance
    exact .step fun _ => hrest
  · obtain rfl : isNew = false := hnew
    dsimp only
    split
    · next hfalse => cases hfalse
    split <;> infer_instance

instance : i.Agrees h.fuel 0 1 g.superCallExpression h.superCallExpression :=
  .at fun _ _ => .first fun _ => .read fun _ => .guard inferInstance

instance (e : Expr) : i.Agrees h.fuel 0 0 (g.callChain e) (h.callChain e) := by
  refine .loop fun e => .later fun _ => ?_
  split
  · infer_instance
  · exact .option inferInstance fun _ => inferInstance

instance : i.Agrees h.fuel 0 1 g.leftHandSideExpression h.leftHandSideExpression := by
  refine agrees_both (fun c s => ?_) (fun a b => ?_) (fun _ => rfl) fun _ => rfl
  · intro b s' heq
    cases heq
    refine ⟨rfl, fun hat hbrace => ?_⟩
    rw [TokenStream.check, hbrace] at hat
    cases hat
  · split <;> infer_instance

/-! ### Operators -/

instance : i.Agrees bound slack 0 atUpdate? atUpdate? := by unfold atUpdate?; infer_instance

instance (e : Expr) (l l' : Location) :
    i.Agrees bound slack 0 (checkDelete e l) (checkDelete e l') := by
  unfold checkDelete
  split <;> infer_instance

instance : i.Agrees h.fuel 0 1 g.updateExpression h.updateExpression := by
  refine .at fun l l' => .later fun op? => ?_
  cases op? with
  | some op => infer_instance
  | none =>
    refine .first fun e => .step fun _ => ?_
    split
    · infer_instance
    refine .step fun op? => ?_
    cases op? <;> infer_instance

instance : i.Agrees h.fuel 0 1 g.unaryExpression h.unaryExpression := by
  refine .peek fun kind text l l' => ?_
  dsimp only
  split
  · exact .first fun _ => .step fun e => .optional fun _ => inferInstance
  · infer_instance

instance : i.Agrees h.fuel 0 1 g.exponentiationExpression h.exponentiationExpression := by
  refine .later fun kind => ?_
  split
  · exact .first fun _ => .step fun _ => .guard inferInstance
  · infer_instance

instance (levels : List BinaryLevel) :
    i.Agrees h.fuel 0 1 (g.binaryExpression levels) (h.binaryExpression levels) := by
  induction levels with
  | nil =>
    exact inferInstanceAs
      (i.Agrees h.fuel 0 1 g.exponentiationExpression h.exponentiationExpression)
  | cons level tighter ih =>
    refine .first fun first => Agrees.weaken (show i.Agrees h.fuel 0 0 _ _ from
      .loop fun left => .later fun kind => ?_) (Nat.zero_le _) (Nat.le_refl _)
    split <;> infer_instance

omit hp in
/-- Operands of the same operator, one after another. -/
theorem agrees_logical {x : Punctuator} {op : LogicalOp} {operand operand' : Parse Expr}
    [i.Agrees h.fuel 0 1 operand operand'] (e : Expr) : i.Agrees h.fuel 0 0
      (loop (fun left => do
        if ← eat x then return .again (.logical op left (← operand))
        return .done left) g.fuel e : Parse Expr)
      (loop (fun left => do
        if ← eat x then return .again (.logical op left (← operand'))
        return .done left) h.fuel e) :=
  .loop fun _ => .eat inferInstance inferInstance

instance : i.Agrees h.fuel 0 1 g.logicalAnd h.logicalAnd := by
  refine .read fun c => ?_
  rw [show (i.around c).noIn = c.noIn from rfl]
  exact .first fun e => (agrees_logical e).weaken (Nat.zero_le _) (Nat.le_refl _)

instance : i.Agrees h.fuel 0 1 g.logicalOr h.logicalOr := by
  refine .first fun e => ?_
  have : i.Agrees h.fuel 0 0 (loop (fun left => do
      if ← eat .logicalOr then return .again (.logical .or left (← g.logicalAnd))
      return .done left) g.fuel e : Parse Expr) (loop (fun left => do
      if ← eat .logicalOr then return .again (.logical .or left (← h.logicalAnd))
      return .done left) h.fuel e) := agrees_logical e
  exact .step fun _ => .step fun _ => .guard inferInstance

instance : i.Agrees h.fuel 0 1 g.conditionalExpression h.conditionalExpression := by
  unfold conditionalExpression; infer_instance

instance : i.Agrees h.fuel 0 1 g.assignmentExpression h.assignmentExpression := by
  refine .at fun l l' => .first fun left => .step fun _ => .guard <| .step fun _ => .guard ?_
  refine .step fun kind => ?_
  split <;> infer_instance

instance : i.Agrees h.fuel 0 1 g.expression h.expression :=
  .first fun _ => .step fun _ => .guard inferInstance

/-! ### Declarations -/

instance : i.Agrees h.fuel 0 1 g.condition h.condition := by unfold condition; infer_instance

instance (kind : VarKind) (name : String) (l l' : Location) :
    i.Agrees bound slack 0 (bindName kind name l) (bindName kind name l') := by
  unfold bindName; infer_instance

instance : i.Agrees h.fuel 0 0 g.initializer? h.initializer? := by
  unfold initializer?; infer_instance

instance (kind : VarKind) (needsInit : Bool) :
    i.Agrees h.fuel 0 1 (g.declarator kind needsInit) (h.declarator kind needsInit) :=
  .at fun _ _ => .first fun _ => .step fun _ => .step fun _ => .guard inferInstance

instance (kind : VarKind) (needsInit : Bool) :
    i.Agrees h.fuel 0 0 (g.declarators kind needsInit) (h.declarators kind needsInit) :=
  .loop fun _ => inferInstance

instance : i.Agrees h.fuel 0 1 g.variableStatement h.variableStatement := by
  unfold variableStatement; infer_instance

instance : i.Agrees h.fuel 0 1 g.lexicalDeclaration h.lexicalDeclaration := by
  refine .eat (Nat.le_refl 1) ?_ ?_
  · infer_instance
  · infer_instance

instance : i.Agrees h.fuel 0 1 g.block h.block := by
  refine .first fun _ => ?_
  have : i.Agrees h.fuel 1 0 (loop (fun done => do
      if ← eat .rightBrace then return .done done.reverse
      if ← atEnd then fail .unexpectedEnd
      return .again ((← g.item) :: done)) g.fuel [] : Parse (List Stmt)) (loop (fun done => do
      if ← eat .rightBrace then return .done done.reverse
      if ← atEnd then fail .unexpectedEnd
      return .again ((← h.item) :: done)) h.fuel []) :=
    .loop fun _ => .eat inferInstance <| .later fun _ => .guard inferInstance
  infer_instance

instance : i.Agrees h.fuel 0 1 g.expressionStatement h.expressionStatement := by
  unfold expressionStatement; infer_instance

/-! ### Labels -/

omit hp in
/-- The look past labels ends in front of the brace at the latest. -/
theorem leads_labelsLoop {c : Surroundings} {s t : ParseState} (hjoined : i.Joined s t) {n fuel
    fuel' : Nat} (hn : i.left + n < s.tokens.remaining)
    (hfuel : s.tokens.remaining < i.left + n + fuel') :
    i.Leads (fun _ => 0) (labelsLoop n fuel) (labelsLoop n fuel') c s t := by
  induction fuel generalizing n fuel' with
  | zero => exact Yields.fail (p := throw _)
  | succ fuel ih =>
    obtain ⟨fuel', rfl⟩ : ∃ m, fuel' = m + 1 := ⟨fuel' - 1, by omega⟩
    rw [labelsLoop, labelsLoop]
    refine leads_peekNth? hjoined hn fun kind text l l' hlast => ?_
    dsimp only
    rcases hlast with hbehind | rfl
    · unfold nthIs
      rw [bind_assoc, bind_assoc]
      refine leads_peekNth? hjoined hbehind fun kind' text' _ _ hlast' => ?_
      rw [pure_bind, pure_bind]
      simp only [Option.any_some]
      split
      · next hlabel =>
        rw [Bool.and_eq_true, beq_iff_eq, beq_iff_eq] at hlabel
        refine ih (hlast'.resolve_right fun hbrace => ?_) (by omega)
        cases hbrace.symm.trans hlabel.2
      · split <;> exact .pure hjoined _
    · obtain ⟨b, hb⟩ : ∃ b, nthIs (n + 1) .colon (i.around c) t = .ok (b, t) := ⟨_, rfl⟩
      refine Yields.bind .nthIs fun b' s' h => .pure (.inr ⟨?_, t, ?_, ?_⟩)
      · rw [h.1]
        exact Nat.le_refl _
      · rw [bind_of_ok hb]
        rfl
      · rw [h.1]
        exact hjoined

omit hp in
theorem agrees_labelsLoop (fuel : Nat) :
    i.Agrees bound slack 0 (labelsLoop 0 fuel) (labelsLoop 0 bound) := by
  refine ⟨inferInstance, fun c s t hc hjoined hlt => ?_⟩
  obtain ⟨k, hs, ht⟩ := hjoined.remaining
  exact leads_labelsLoop hjoined (by omega) (by omega)

instance : i.Agrees h.fuel 0 1 g.labeledStatement h.labeledStatement := by
  refine .advance fun kind text l l' => .step fun _ => .step fun _ => .read fun c => .guard ?_
  have : i.Agrees h.fuel 1 0 (labelsLoop 0 g.fuel) (labelsLoop 0 h.fuel) := agrees_labelsLoop g.fuel
  refine .step fun isLoop => ?_
  have := (hp.subStatement.within (φ := fun c => { c with labels := c.labels ++ [(text, isLoop)] })
    fun _ _ => ⟨rfl, rfl⟩).free
  infer_instance

/-! ### Statements -/

instance : i.Agrees h.fuel 0 1 g.ifStatement h.ifStatement := by
  unfold ifStatement; infer_instance

instance : i.Agrees h.fuel 1 1 g.loopBody h.loopBody :=
  hp.subStatement.within fun _ _ => ⟨rfl, rfl⟩

instance : i.Agrees h.fuel 0 1 g.whileStatement h.whileStatement := by
  unfold whileStatement; infer_instance

instance : i.Agrees h.fuel 0 1 g.doStatement h.doStatement := by
  unfold doStatement; infer_instance

instance : i.Agrees bound slack 0 atLetDeclaration atLetDeclaration := by
  refine ⟨.step fun b => ?_, fun c s t hc hjoined hlt => ?_⟩
  · split
    · infer_instance
    · refine .step fun u? => ?_
      split
      · infer_instance
      · split <;> infer_instance
  have hword : (atKeyword .letKw).Yields c s fun b s' =>
      s' = s ∧ (b = true → s.tokens.peekKind? = some (.keyword .letKw)) := by
    intro b s' heq
    cases heq
    exact ⟨rfl, fun hat => beq_iff_eq.mp hat⟩
  refine Leads.ask (Agrees.leads c s t hc hjoined hlt) hjoined hword fun b t' hb hjoined' _ => ?_
  split
  · exact .pure hjoined' false
  next hlet =>
  have hnext := hb (by simpa using hlet)
  refine leads_peekNth? hjoined' (two_left hjoined' (by simp [hnext])) fun kind text l l' _ => ?_
  dsimp only
  split <;> exact .pure hjoined' _

instance : i.Agrees bound slack 0 atLet atLet := by unfold atLet; infer_instance

instance : i.Agrees bound slack 0 atDeclaration atDeclaration := by
  refine .step fun kind => ?_
  split <;> infer_instance

instance : i.Agrees bound slack 0 forKind? forKind? := by unfold forKind?; infer_instance

instance : i.Agrees h.fuel 1 0 g.forInit h.forInit := by
  refine .step fun _ => ?_
  split
  · infer_instance
  refine .step fun kind? => ?_
  cases kind? <;> infer_instance

instance (init : ForInit) : i.Agrees bound slack 0 (checkForInit init) (checkForInit init) := by
  unfold checkForInit
  split
  · refine .guard ?_
    split
    · split <;> infer_instance
    · infer_instance
  · infer_instance

instance (stop : Punctuator) :
    i.Agrees h.fuel 0 0 (g.optionalExpression stop) (h.optionalExpression stop) := by
  unfold optionalExpression; infer_instance

instance : i.Agrees h.fuel 0 1 g.forStatement h.forStatement := by
  have hinit : i.Agrees h.fuel 1 0 g.forInit h.forInit := inferInstance
  have := hinit.within (φ := fun c => { c with noIn := true }) fun _ _ => ⟨rfl, rfl⟩
  refine .first fun _ => .step fun _ => .guard <| .step fun _ => .step fun _ => .step fun _ => ?_
  exact .step fun _ => .guard <| .step fun _ => inferInstance

instance : i.Agrees h.fuel 0 1 g.returnStatement h.returnStatement := by
  refine .at fun l l' => .first fun _ => .read fun c => .guard ?_
  exact .step fun _ => .step fun _ => .step fun _ => .step fun _ => inferInstance

omit hp in
/-- Where a label stands does not matter. -/
theorem agrees_label {α : Type} {f k : Option (String × Location) → Parse α}
    (hnone : i.Agrees bound 1 0 (f none) (k none))
    (hsome : ∀ label l l', i.Agrees bound 1 0 (f (some (label, l))) (k (some (label, l')))) :
    i.Agrees bound 1 0 (label? >>= f) (label? >>= k) := by
  unfold label?
  simp only [bind_assoc]
  refine .step fun a => .step fun b => ?_
  split
  · rwa [pure_bind, pure_bind]
  · rw [bind_assoc, bind_assoc]
    refine .free (.advance fun kind text l l' => ?_)
    rw [pure_bind, pure_bind]
    exact hsome text l l'

instance : i.Agrees bound 0 1 breakStatement breakStatement := by
  refine .at fun _ _ => .first fun _ => .read fun c => agrees_label ?_ fun label _ _ => ?_
  · exact .guard inferInstance
  · exact .guard inferInstance

instance : i.Agrees bound 0 1 continueStatement continueStatement := by
  refine .at fun _ _ => .first fun _ => .read fun c => .guard <| agrees_label ?_ fun label _ _ => ?_
  · infer_instance
  · rw [show (i.around c).labels = c.labels from rfl]
    dsimp only
    split
    · infer_instance
    · exact .guard inferInstance

instance : i.Agrees h.fuel 0 1 g.throwStatement h.throwStatement :=
  .first fun _ => .step fun _ => .guard inferInstance

instance : i.Agrees bound slack 0 catchParameter catchParameter := by
  unfold catchParameter; infer_instance

instance : i.Agrees h.fuel 0 0 g.handler? h.handler? := by
  refine .step fun _ => ?_
  split
  · infer_instance
  refine .step fun param => .step fun _ => ?_
  cases param <;> infer_instance

instance : i.Agrees h.fuel 0 0 g.finalizer? h.finalizer? := by unfold finalizer?; infer_instance

instance : i.Agrees h.fuel 0 1 g.tryStatement h.tryStatement := by
  refine .at fun l l' => .first fun _ => .step fun _ => .step fun _ => .step fun _ => ?_
  split <;> infer_instance

instance : i.Agrees h.fuel 1 0 g.caseBody h.caseBody := by
  refine .loop fun done => .later fun _ => .later fun _ => .later fun _ => .later fun _ => ?_
  dsimp only
  split <;> infer_instance

instance (seenDefault : Bool) :
    i.Agrees h.fuel 0 0 (g.caseTest seenDefault) (h.caseTest seenDefault) := by
  refine .at fun l l' => .step fun _ => ?_
  split
  · infer_instance
  refine .step fun _ => ?_
  split
  · exact .guard inferInstance
  · infer_instance

instance : i.Agrees h.fuel 1 0 g.switchCases h.switchCases :=
  .loop fun _ => .eat inferInstance inferInstance

instance : i.Agrees h.fuel 0 1 g.switchStatement h.switchStatement := by
  have hcases : i.Agrees h.fuel 1 0 g.switchCases h.switchCases := inferInstance
  have := hcases.within (φ := fun c => { c with inSwitch := true }) fun _ _ => ⟨rfl, rfl⟩
  exact .first fun _ => .step fun _ => .step fun _ => .step fun _ => inferInstance

instance (first : TokenKind) :
    i.Agrees h.fuel 0 1 (g.declaration first) (h.declaration first) := by
  unfold declaration
  split <;> infer_instance

/-- The first token of a statement tells what to read. -/
theorem leads_statement {c : Surroundings} {s t : ParseState} (hc : c.source = i.source)
    (hjoined : i.Joined s t) (hlt : t.tokens.remaining + 0 < h.fuel) {first : TokenKind}
    (hfirst : s.tokens.peekKind? = some first) :
    i.Leads (fun _ => 1) (g.statement first) (h.statement first) c s t := by
  unfold statement
  split
  case h_18 =>
    refine leads_nthIs .colon hjoined (by simp [hfirst]) fun b => ?_
    split <;> exact Agrees.leads c s t hc hjoined hlt
  all_goals exact Agrees.leads c s t hc hjoined hlt

instance : i.Agrees h.fuel 0 1 g.statementListItem h.statementListItem := by
  have := hp.moves
  refine ⟨inferInstance, fun c s t hc hjoined hlt => ?_⟩
  refine Leads.ask (Agrees.leads c s t hc hjoined hlt) hjoined yields_peekKind?
    fun first? t₁ hfirst hjoined₁ h₁ => ?_
  cases first? with
  | none => exact Yields.fail (p := unexpected)
  | some first =>
    have hask : i.Agrees h.fuel 0 0 atDeclaration atDeclaration := inferInstance
    have hdeclaration : i.Agrees h.fuel 0 1 (g.declaration first) (h.declaration first) :=
      inferInstance
    refine Leads.ask (P := fun _ => True) (hask.leads c s t₁ hc hjoined₁ (by omega)) hjoined₁
      (Yields.unmoved.mono fun _ _ h => ⟨h, trivial⟩) fun b t₂ _ hjoined₂ h₂ => ?_
    split
    · exact hdeclaration.leads c s t₂ hc hjoined₂ (by omega)
    · exact leads_statement hc hjoined₂ (by omega) hfirst.symm

instance : i.Agrees h.fuel 0 1 g.singleStatement h.singleStatement := by
  have := hp.moves
  refine ⟨inferInstance, fun c s t hc hjoined hlt => ?_⟩
  refine Leads.ask (Agrees.leads c s t hc hjoined hlt) hjoined yields_peekKind?
    fun first? t₁ hfirst hjoined₁ h₁ => ?_
  cases first? with
  | none => exact Yields.fail (p := fail _)
  | some first =>
    have hask : i.Agrees h.fuel 0 0 atDeclaration atDeclaration := inferInstance
    refine Leads.ask (P := fun _ => True) (hask.leads c s t₁ hc hjoined₁ (by omega)) hjoined₁
      (Yields.unmoved.mono fun _ _ h => ⟨h, trivial⟩) fun b t₂ _ hjoined₂ h₂ => ?_
    split
    · exact Yields.fail (p := fail _)
    · exact leads_statement hc hjoined₂ (by omega) hfirst.symm

omit hp in
theorem fuel_ofFuel_eq (n : Nat) : (ofFuel n).fuel = n := by
  cases n <;> rfl

omit hp in
/-- The productions of any depth of nesting, by induction on the depth in the second run: one more
level of productions is for one more token. -/
theorem copies_ofFuel (i : Excerpt) (m n : Nat) : Copies i (ofFuel n) (ofFuel m) := by
  induction m generalizing n with
  | zero =>
    have hmoves := moves_ofFuel n
    have none {α : Type} {p : Parse α} (hp : p.Moves 1 1) {q : Parse α} : i.Agrees 0 1 1 p q :=
      ⟨inferInstance, fun _ _ _ _ _ hlt => absurd hlt (Nat.not_lt_zero _)⟩
    exact ⟨none hmoves.assignment, none hmoves.exponentiation, none hmoves.unary,
      none hmoves.member, none hmoves.leftHandSide, none hmoves.item, none inferInstance, hmoves⟩
  | succ m ih =>
    cases n with
    | zero =>
      have none {α : Type} {q : Parse α} : i.Agrees (m + 1) 1 1 (throw .exhausted) q := inferInstance
      exact ⟨none, none, none, none, none, none, none, moves_ofFuel 0⟩
    | succ n =>
      have := ih n
      have next {α : Type} {p q : Parse α} (h : i.Agrees (ofFuel m).fuel 0 1 p q) :
          i.Agrees (m + 1) 1 1 p q := by
        rw [fuel_ofFuel_eq] at h
        exact ⟨h.moves, fun c s t hc hjoined hlt => h.leads c s t hc hjoined (by omega)⟩
      exact
        { assignment := next (inferInstanceAs (i.Agrees _ 0 1
            (ofFuel n).assignmentExpression (ofFuel m).assignmentExpression))
          exponentiation := next (inferInstanceAs (i.Agrees _ 0 1
            (ofFuel n).exponentiationExpression (ofFuel m).exponentiationExpression))
          unary := next (inferInstanceAs (i.Agrees _ 0 1
            (ofFuel n).unaryExpression (ofFuel m).unaryExpression))
          member := next (inferInstanceAs (i.Agrees _ 0 1
            (ofFuel n).memberExpression (ofFuel m).memberExpression))
          leftHandSide := next (inferInstanceAs (i.Agrees _ 0 1
            (ofFuel n).leftHandSideExpression (ofFuel m).leftHandSideExpression))
          item := next (inferInstanceAs (i.Agrees _ 0 1
            (ofFuel n).statementListItem (ofFuel m).statementListItem))
          subStatement := next (inferInstanceAs (i.Agrees _ 0 1
            (ofFuel n).singleStatement (ofFuel m).singleStatement))
          moves := moves_ofFuel (n + 1) }

end Grammar

end Ecma
