import Ecma.Proofs.Parser.Mirror
import Ecma.Proofs.Syntax.Function

/-! Functions and classes, read by a parser as the grammar reads them. The parser puts back by hand
what holds around a function, the strictness around a class and the class bodies that are open. -/

namespace Ecma

open Ecma.Action

/-- What is checked of declared names is which names are taken. -/
theorem clash?_congr {taken taken' : List String} (h : ∀ name, name ∈ taken ↔ name ∈ taken')
    (topLevel : Bool) (body : List Stmt) :
    Parse.clash? topLevel taken body = Parse.clash? topLevel taken' body := by
  have hfirst (seen names : List String) :
      Parse.firstClash taken seen names = Parse.firstClash taken' seen names := by
    induction names generalizing seen with
    | nil => rfl
    | cons name rest ih =>
      have hcontains : taken.contains name = taken'.contains name := by
        rw [Bool.eq_iff_iff, List.contains_iff_mem, List.contains_iff_mem, h name]
      rw [Parse.firstClash, Parse.firstClash, hcontains, ih]
  simp only [Parse.clash?, hfirst]

namespace Actions

/-- The productions that others use are those of a grammar, and a statement may start wherever `in`
is an operator. -/
class Follows (g : Grammar) (h : Actions) : Prop where
  admits : ∀ m : Parser, m.noIn = false → h.admits m = true
  fuel : h.fuel = g.fuel
  assignment : Mirrors g.assignment h.assignment
  exponentiation : Mirrors g.exponentiation h.exponentiation
  unary : Mirrors g.unary h.unary
  member : Mirrors g.member h.member
  leftHandSide : Mirrors g.leftHandSide h.leftHandSide
  item : Collects g.item h.item fun t names => names = t.varNames
  subStatement : Collects g.subStatement h.subStatement fun t names => names = t.varNames

attribute [instance] Follows.assignment Follows.exponentiation Follows.unary Follows.member
  Follows.leftHandSide

variable {g : Grammar} {h : Actions} [hgh : Follows g h]

/-! ### Names of properties -/

instance : Mirrors g.propertyName h.propertyName := by
  refine .step fun t => ?_
  split
  · infer_instance
  rcases t with ⟨kind, _⟩
  cases kind with
  | keyword k => infer_instance
  | punctuator x => cases x <;> infer_instance
  | numericLiteral =>
    refine .step fun x => ?_
    cases x <;> infer_instance
  | bigIntLiteral =>
    refine .step fun x => ?_
    cases x <;> infer_instance
  | _ => infer_instance

/-! ### Bodies -/

instance : Mirrors g.formalParameters h.formalParameters :=
  .step fun _ => .loop (fun _ => .step fun _ => by
    split
    · infer_instance
    · exact .step fun _ => .guard <| .step fun _ => .step fun _ => .guard <| .step fun _ =>
        .optional fun _ => inferInstance)
    hgh.fuel

/-- What a parser has read of a body: it is strict as the directives tell, and has collected the
names of the statements. -/
structure Reads (m : Parser) (statements : List Stmt) (isStrict : Bool) (m' : Parser) : Prop where
  strict : m'.strict = isStrict
  keeps : m.Keeps (Stmt.varNamesOf statements) { m' with strict := m.strict }

variable {m m' m'' : Parser} {statements : List Stmt} {isStrict : Bool}

theorem Reads.surroundings (hm : Reads m statements isStrict m') :
    m'.surroundings = { m.surroundings with strict := m'.strict } := by
  rw [← hm.keeps.surroundings]
  rfl

theorem Reads.noIn (hm : Reads m statements isStrict m') : m'.noIn = m.noIn := by
  have hflags := congrArg Flags.noIn hm.keeps.flags
  exact hflags

theorem Reads.next {names : List String} {t : Stmt} (hm : Reads m statements isStrict m')
    (hkeeps : m'.Keeps names m'') (hnames : names = t.varNames) :
    Reads m (statements ++ [t]) isStrict m'' := by
  have hflags := hkeeps.flags
  have hset : ({ m' with strict := m.strict } : Parser).Keeps names { m'' with strict := m.strict } :=
    { hkeeps with flags := by simp only [hflags] }
  have hboth := hm.keeps.trans hset
  constructor
  · rw [congrArg Flags.strict hflags, hm.strict]
  · rw [Stmt.varNamesOf_eq, List.flatMap_append, ← Stmt.varNamesOf_eq, List.flatMap_singleton,
      ← hnames]
    exact hboth

/-- Steps that collect no name. -/
theorem Reads.skip (hm : Reads m statements isStrict m') (hkeeps : m'.Keeps [] m'') :
    Reads m statements isStrict m'' := by
  have hflags := hkeeps.flags
  have hset : ({ m' with strict := m.strict } : Parser).Keeps [] { m'' with strict := m.strict } :=
    { hkeeps with flags := by simp only [hflags] }
  have hboth := hm.keeps.trans hset
  rw [List.append_nil] at hboth
  exact ⟨(congrArg Flags.strict hflags).trans hm.strict, hboth⟩

theorem Reads.behind (hkeeps : m.Keeps [] m') (hm : Reads m' statements isStrict m'') :
    Reads m statements isStrict m'' := by
  have hboth := hkeeps.trans hm.keeps
  rw [congrArg Flags.strict hkeeps.flags] at hboth
  exact ⟨hm.strict, hboth⟩

theorem Reads.directive (hm : Reads m statements isStrict m') :
    Reads m statements true { m' with strict := true } :=
  ⟨rfl, hm.keeps⟩

/-- Statements are read one after another, each in strict code if a directive before it says so. -/
theorem does_body {item : Parse Stmt} {item' : Action Stmt}
    (hitem : Collects item item' fun t names => names = t.varNames) (hm : m.noIn = false) :
    m.Does (g.body item) (h.body item') fun r statements m' =>
      statements = r.1 ∧ Reads m r.1 r.2 m' := by
  unfold Actions.body
  rw [hgh.fuel]
  refine Parser.Alike.loop (fun (p : Grammar.Prologue) p' m' =>
    p' = (p.statements, p.leading) ∧ Reads m p.statements.reverse p.strict m') ?_ g.fuel
    ⟨rfl, rfl, by simpa [Stmt.varNamesOf_eq] using Parser.Keeps.refl m⟩
  rintro p _ m' ⟨rfl, hm'⟩
  refine Parser.Does.restrict hm'.surroundings ?_
  refine .skip fun ends m₁ hm₁ => .skip fun closes m₂ hm₂ => ?_
  replace hm' := (hm'.skip hm₁).skip hm₂
  split
  · exact .ok (.done ⟨rfl, hm'⟩)
  · refine .skip fun useStrict m₃ hm₃ => ?_
    replace hm' := hm'.skip hm₃
    have hinside : m₃.Gets (withReader (fun c => { c with strict := p.strict }) item) item'
        fun t names => names = t.varNames := by
      have hitem₃ := hitem m₃ (hm'.noIn.trans hm)
      change Parser.Alike _ (item { m₃.surroundings with strict := p.strict } m₃.reading) (item' m₃)
      rw [← hm'.strict]
      exact hitem₃
    refine hinside.then fun t names m₄ hm₄ hnames => ?_
    replace hm' := hm'.next hm₄ hnames
    rw [← List.reverse_cons] at hm'
    by_cases hstrict : ((p.leading && Grammar.isDirective t) && useStrict) = true
    · have hdirective := hm'.directive
      rw [if_pos hstrict]
      dsimp only
      rw [hstrict, Bool.or_true]
      exact Parser.Alike.ok (m := { m₄ with strict := true }) (Parser.SameTurn.again ⟨rfl, hdirective⟩)
    · rw [if_neg hstrict]
      refine .ok (.again ⟨rfl, ?_⟩)
      rw [Bool.not_eq_true] at hstrict
      rw [hstrict, Bool.or_false]
      exact hm'

/-! ### Functions -/

/-- A part is read in strict code, if the parser is strict. -/
theorem gets_strictly {α : Type} {q : Parse α} {p : Action α} [hq : Mirrors q p]
    (hm : m.strict = isStrict) :
    m.Gets (withReader (fun c => { c with strict := isStrict }) q) p fun _ names => names = [] := by
  subst hm
  exact hq.gets m

theorem mem_append_varNames (params : List String) (hnames : m.varNames = [])
    (hread : Reads m statements isStrict m') (name : String) :
    name ∈ params ++ Stmt.varNamesOf statements ↔ name ∈ params ++ m'.varNames := by
  have hcollected : m'.varNames = distinctNames (Stmt.varNamesOf statements) := by
    rw [distinctNames, ← hnames]
    exact hread.keeps.varNames
  rw [hcollected, List.mem_append, List.mem_append, mem_distinctNames]

theorem does_functionParts (name : Option String) (kind : FunctionKind) (hm : m.noIn = false)
    (hnames : m.varNames = []) :
    m.Does (g.functionParts name kind) (h.functionParts name kind) fun r parts m' =>
      parts = (r.1, r.2.1) ∧ Reads m r.2.1 r.2.2 m' := by
  refine .skip fun start m₁ hm₁ => .skip fun params m₂ hm₂ => .skip fun _ m₃ hm₃ => ?_
  have hm₀ : m.Keeps [] m₃ := (hm₁.trans hm₂).trans hm₃
  have hnoIn : m₃.noIn = false := (congrArg Flags.noIn hm₀.flags).trans hm
  have hnames₃ : m₃.varNames = [] := hm₀.varNames.trans hnames
  refine (does_body hgh.item hnoIn).follow fun r statements m₄ hr => ?_
  obtain ⟨_, isStrict⟩ := r
  obtain ⟨rfl, hread⟩ := hr
  dsimp only at hread ⊢
  refine Parser.Does.restrict hread.surroundings ?_
  refine .skip fun _ m₅ hm₅ => ?_
  replace hread := hread.skip hm₅
  rw [bind_pure_unit]
  refine (gets_strictly hread.strict).then fun _ names m₆ hm₆ hnone => ?_
  subst hnone
  replace hread := hread.skip hm₆
  refine .get ?_
  rw [hread.strict]
  split
  · exact .reject
  · have hclash := clash?_congr (mem_append_varNames params hnames₃ hread)
    refine .get ?_
    have hsame : Parse.checkDeclarations true (params ++ Stmt.varNamesOf statements) statements =
        Parse.checkDeclarations true (params ++ m₆.varNames) statements := by
      rw [Parse.checkDeclarations, Parse.checkDeclarations, hclash]
    rw [hsame]
    refine .skip fun _ m₇ hm₇ => ?_
    exact .ok ⟨rfl, Reads.behind hm₀ (hread.skip hm₇)⟩

/-- What holds around a function is put back behind it. -/
instance (name : Option String) (kind : FunctionKind) (start : Nat)
    (superProperty superCall : Bool) :
    Mirrors (g.functionRest name kind start superProperty superCall)
      (h.functionRest name kind start superProperty superCall) := by
  refine ⟨fun m => ?_⟩
  have hparts := does_functionParts (g := g) (h := h) name kind (m :=
    { m with
      noIn := false, inFunction := true, inIteration := 0, inSwitch := 0, labels := []
      superProperty, superCall, varNames := [], varDeclarations := [] }) rfl rfl
  change Parser.Alike _ (g.functionParts name kind _ _ >>= _)
    (((h.functionParts name kind _ >>= _) >>= _) >>= _)
  rw [bind_assoc, bind_assoc]
  refine Parser.Alike.bind hparts fun r parts m' hr => ?_
  obtain ⟨params, statements, isStrict⟩ := r
  obtain ⟨rfl, hread⟩ := hr
  dsimp only at hread ⊢
  have hkeeps : m.Keeps [] { m' with
      strict := m.strict, inFunction := m.inFunction, inIteration := m.inIteration
      inSwitch := m.inSwitch, labels := m.labels, superProperty := m.superProperty
      superCall := m.superCall, noIn := m.noIn, varNames := m.varNames
      varDeclarations := m.varDeclarations } :=
    ⟨rfl, hread.keeps.source, rfl, (List.append_nil _).symm, hread.keeps.outer,
      hread.keeps.declared⟩
  have hsource : Mirrors
      (Parse.sourceSince start >>= fun source => pure
        { name, kind, params, body := statements, strict := isStrict, varNames := m'.varNames, source })
      (liftM (Parse.sourceSince start) >>= fun source => pure
        (⟨name, kind, params, statements, m'.strict, m'.varNames, source⟩ : FunctionDef)) := by
    rw [hread.strict]
    infer_instance
  exact Parser.Gets.behind (P := fun _ names => names = []) hkeeps (hsource.gets _)

instance : Mirrors g.functionExpression h.functionExpression :=
  .step fun _ => .step fun _ => .step fun _ => .guard <| .step fun _ => inferInstance

theorem collects_functionDeclaration :
    Collects g.functionDeclaration h.functionDeclaration fun t names => names = t.varNames :=
  .skip fun _ => .skip fun _ => .skip fun _ => .guard <| .skip fun _ => .skip fun _ =>
    .pure (by simp [Stmt.varNames])

/-! ### Private names -/

variable {declared : List Grammar.PrivateDeclaration} {referenced : List (String × Location)}
  {scope : PrivateScope} {outer : List PrivateScope}

theorem declarePrivate_open (hm : m.privateScopes = scope :: outer)
    (d : Grammar.PrivateDeclaration) (l : Location) :
    declarePrivate d l m = (do
      if !Grammar.canDeclare scope.declared d then Parse.failAt (.duplicatePrivateName d.name) l
      modify fun m => { m with
        privateScopes := { scope with declared := scope.declared ++ [d] } :: outer } :
      Action Unit) m := by
  cases m
  cases hm
  rfl

theorem referPrivate_open (hm : m.privateScopes = scope :: outer) (name : String) (l : Location) :
    referPrivate name l m = .ok ((), { m with privateScopes :=
      { scope with referenced := scope.referenced ++ [(name, l)] } :: outer }) := by
  cases m
  cases hm
  rfl

theorem referPrivate_closed (hm : m.privateScopes = []) (name : String) (l : Location) :
    referPrivate name l m = .error (.rejected ⟨.undeclaredPrivateName name, l⟩) := by
  cases m
  cases hm
  rfl

instance (name : String) (l : Location) :
    Mirrors (Parse.referPrivate name l) (referPrivate name l) := by
  refine ⟨fun m => .read ?_⟩
  change Parser.Alike _ _ (referPrivate name l m)
  cases hscopes : m.privateScopes with
  | nil =>
    have hclosed : m.surroundings.inClass = false := by
      rw [Parser.surroundings, hscopes]
      rfl
    rw [hclosed, if_neg Bool.false_ne_true, referPrivate_closed hscopes]
    exact .error _
  | cons scope outer =>
    have hopen : m.surroundings.inClass = true := by
      rw [Parser.surroundings, hscopes]
      rfl
    rw [hopen, if_pos rfl, referPrivate_open hscopes]
    refine .of_reading ?_ ⟨rfl, [], ?_, rfl⟩
    · rw [Parser.reading, Parser.reading, Parser.references, hscopes]
      rfl
    · exact ⟨rfl, rfl, rfl, (List.append_nil _).symm, by rw [hscopes]; rfl, by rw [hscopes]; rfl⟩

/-! ### Classes -/

/-- What a parser has read of the body of a class, which it has been in since the first state: its
elements, and in its own state the private names that they declare. -/
structure Builds (m : Parser) (b : Grammar.ClassBody) (parts : ClassParts) (m' : Parser) :
    Prop where
  parts : parts = ⟨b.constructorDef, b.elements⟩
  keeps : m.Keeps [] { m' with privateScopes := m.privateScopes }
  declared : m'.privateScopes.head?.map PrivateScope.declared = some b.declared
  outer : m'.privateScopes.tail = m.privateScopes.tail

variable {b : Grammar.ClassBody} {parts : ClassParts}

theorem Builds.skip (hb : Builds m b parts m') (hkeeps : m'.Keeps [] m'') :
    Builds m b parts m'' where
  parts := hb.parts
  keeps :=
    { flags := hkeeps.flags.trans hb.keeps.flags
      source := hkeeps.source.trans hb.keeps.source
      varNames := hkeeps.varNames.trans hb.keeps.varNames
      varDeclarations := hkeeps.varDeclarations.trans <|
        (List.append_nil _).trans hb.keeps.varDeclarations
      outer := rfl
      declared := rfl }
  declared := hkeeps.declared.trans hb.declared
  outer := hkeeps.outer.trans hb.outer

theorem Builds.cons (hb : Builds m b parts m') : ∃ referenced,
    m'.privateScopes = ⟨b.declared, referenced⟩ :: m.privateScopes.tail := by
  have hdeclared := hb.declared
  have houter := hb.outer
  cases hscopes : m'.privateScopes with
  | nil =>
    rw [hscopes] at hdeclared
    cases hdeclared
  | cons scope outer =>
    rw [hscopes] at hdeclared houter
    have hscope : scope.declared = b.declared := Option.some.inj hdeclared
    exact ⟨scope.referenced, by rw [← houter, ← hscope]; rfl⟩

/-- A private name that may not be declared is rejected. -/
theorem Builds.declarePrivate_error (hb : Builds m b parts m') {d : Grammar.PrivateDeclaration}
    (hd : Grammar.canDeclare b.declared d = false) (l : Location) :
    declarePrivate d l m' = .error (.rejected ⟨.duplicatePrivateName d.name, l⟩) := by
  obtain ⟨referenced, hscopes⟩ := hb.cons
  rw [declarePrivate_open hscopes, hd]
  rfl

/-- A private name joins those of the body. -/
theorem Builds.declarePrivate (hb : Builds m b parts m') {d : Grammar.PrivateDeclaration}
    (hd : Grammar.canDeclare b.declared d = true) (l : Location) : ∃ m'',
    Action.declarePrivate d l m' = .ok ((), m'') ∧ m''.reading = m'.reading ∧
      m''.surroundings = m'.surroundings ∧
      ∀ elements, Builds m { b with elements, declared := b.declared ++ [d] }
        { parts with elements } m'' := by
  obtain ⟨referenced, hscopes⟩ := hb.cons
  refine ⟨{ m' with
    privateScopes := ⟨b.declared ++ [d], referenced⟩ :: m.privateScopes.tail }, ?_, ?_, ?_, ?_⟩
  · rw [declarePrivate_open hscopes, hd]
    rfl
  · rw [Parser.reading, Parser.reading, Parser.references, Parser.references, hscopes]
    rfl
  · rw [Parser.surroundings, Parser.surroundings, hscopes]
    rfl
  · intro elements
    exact ⟨by rw [hb.parts], hb.keeps, rfl, rfl⟩

theorem does_privateElement (hb : Builds m b parts m') (start : Nat) (isStatic : Bool)
    (kind : MethodKind) :
    m'.Does (g.privateElement start isStatic kind b) (h.privateElement start isStatic kind parts)
      (Builds m) := by
  refine .skip fun t m₁ hm₁ => .guard ?_
  replace hb := hb.skip hm₁
  dsimp only
  cases hd : Grammar.canDeclare b.declared ⟨(t.text.drop 1).toString, kind, isStatic⟩ with
  | false =>
    rw [Bool.not_false, if_pos rfl]
    change Parser.Alike _ (.error _) (declarePrivate _ _ m₁ >>= _)
    rw [hb.declarePrivate_error hd]
    exact .error _
  | true =>
    obtain ⟨m₂, hrun, hreading, hsurroundings, hbuilds⟩ := hb.declarePrivate hd t.location
    rw [Bool.not_true, if_neg Bool.false_ne_true]
    refine .unseen hrun hreading hsurroundings ?_
    refine .skip fun _ m₃ hm₃ => .skip fun f m₄ hm₄ => .skip fun _ m₅ hm₅ => .ok ?_
    rw [hb.parts] at hbuilds ⊢
    exact (((hbuilds _).skip hm₃).skip hm₄).skip hm₅

theorem does_publicElement (hb : Builds m b parts m') (start : Nat) (isStatic : Bool)
    (kind : MethodKind) (derived : Bool) :
    m'.Does (g.publicElement start isStatic kind derived b)
      (h.publicElement start isStatic kind derived parts) (Builds m) := by
  refine .skip fun keyLocation m₁ hm₁ => .skip fun key m₂ hm₂ => .skip fun _ m₃ hm₃ => ?_
  replace hb := ((hb.skip hm₁).skip hm₂).skip hm₃
  obtain rfl := hb.parts
  split
  · refine .guard <| .guard <| .skip fun f m₄ hm₄ => .ok ?_
    exact ⟨rfl, (hb.skip hm₄).keeps, (hb.skip hm₄).declared, (hb.skip hm₄).outer⟩
  · refine .guard <| .skip fun f m₄ hm₄ => .skip fun _ m₅ hm₅ => .ok ?_
    replace hb := (hb.skip hm₄).skip hm₅
    exact ⟨rfl, hb.keeps, hb.declared, hb.outer⟩

theorem does_classElement (hb : Builds m b parts m') (derived : Bool) :
    m'.Does (g.classElement derived b) (h.classElement derived parts) (Builds m) := by
  refine .skip fun start m₁ hm₁ => .skip fun modifiers m₂ hm₂ => .skip fun found m₃ hm₃ => ?_
  replace hb := ((hb.skip hm₁).skip hm₂).skip hm₃
  split
  · exact does_privateElement hb _ _ _
  · exact does_publicElement hb _ _ _ _

theorem Builds.surroundings {b₀ : Grammar.ClassBody} {parts₀ : ClassParts}
    (hstart : Builds m b₀ parts₀ m) (hb : Builds m b parts m') :
    m'.surroundings = m.surroundings := by
  obtain ⟨referenced₀, hscopes₀⟩ := hstart.cons
  obtain ⟨referenced, hscopes⟩ := hb.cons
  rw [← hb.keeps.surroundings, Parser.surroundings, Parser.surroundings, hscopes, hscopes₀]
  rfl

theorem does_classElements (hstart : Builds m ⟨none, [], []⟩ ⟨none, []⟩ m) (derived : Bool) :
    m.Does (g.classElements derived) (h.classElements derived) (Builds m) := by
  unfold Actions.classElements
  rw [hgh.fuel]
  refine Parser.Alike.loop (Builds m) (fun b parts m' hb => ?_) g.fuel hstart
  rw [← hstart.surroundings hb]
  refine Parser.Does.skip (m := m') fun _ m₁ hm₁ => ?_
  replace hb := hb.skip hm₁
  split
  · exact .ok (.done ⟨by rw [hb.parts], hb.keeps, hb.declared, hb.outer⟩)
  · refine .skip fun _ m₂ hm₂ => ?_
    replace hb := hb.skip hm₂
    split
    · exact .ok (.again hb)
    · exact (does_classElement hb derived).follow fun b parts m₃ hb => .ok (.again hb)

/-- The private names that are passed on from the body of a class to the one around it. -/
def PrivateScope.unresolved (scope : PrivateScope) : List (String × Location) :=
  scope.referenced.filter fun r => !scope.declared.any fun d => d.name == r.1

theorem passOn_step (r : String × Location) :
    passOn ⟨declared, r :: referenced⟩ =
      if (declared.any fun d => d.name == r.1) = true then passOn ⟨declared, referenced⟩
      else referPrivate r.1 r.2 >>= fun _ => passOn ⟨declared, referenced⟩ := by
  unfold passOn
  rw [List.forIn_cons]
  cases declared.any fun d => d.name == r.1 <;> simp

theorem unresolved_step (r : String × Location) :
    PrivateScope.unresolved ⟨declared, r :: referenced⟩ =
      if (declared.any fun d => d.name == r.1) = true then
        PrivateScope.unresolved ⟨declared, referenced⟩
      else r :: PrivateScope.unresolved ⟨declared, referenced⟩ := by
  unfold PrivateScope.unresolved
  rw [List.filter_cons]
  cases declared.any fun d => d.name == r.1 <;> simp

/-- Outside of all classes the first name that is passed on is rejected. -/
theorem passOn_closed (hm : m.privateScopes = []) : passOn ⟨declared, referenced⟩ m =
    match PrivateScope.unresolved ⟨declared, referenced⟩ with
    | (name, l) :: _ => .error (.rejected ⟨.undeclaredPrivateName name, l⟩)
    | [] => .ok ((), m) := by
  induction referenced with
  | nil => rfl
  | cons r rest ih =>
    rw [passOn_step, unresolved_step]
    split
    · exact ih
    · change (referPrivate r.1 r.2 m >>= _) = _
      rw [referPrivate_closed hm]
      rfl

/-- The body of a class uses the names that are passed on from one inside it. -/
theorem passOn_open (hm : m.privateScopes = scope :: outer) : passOn ⟨declared, referenced⟩ m =
    .ok ((), { m with privateScopes := { scope with
      referenced := scope.referenced ++ PrivateScope.unresolved ⟨declared, referenced⟩ } :: outer }) := by
  induction referenced generalizing m scope with
  | nil =>
    have hsame : ({ scope with referenced := scope.referenced ++ [] } : PrivateScope) = scope := by
      rw [List.append_nil]
    change Except.ok ((), m) = .ok ((), { m with
      privateScopes := { scope with referenced := scope.referenced ++ [] } :: outer })
    rw [hsame, ← hm]
  | cons r rest ih =>
    rw [passOn_step, unresolved_step]
    split
    · exact ih hm
    · change (referPrivate r.1 r.2 m >>= fun x => passOn ⟨declared, rest⟩ x.2) = _
      rw [referPrivate_open hm]
      refine (ih rfl).trans ?_
      rw [List.append_assoc]
      rfl

theorem exitPrivateScope_eq (hm : m.privateScopes = scope :: outer) :
    exitPrivateScope m = passOn scope { m with privateScopes := outer } := by
  cases m
  cases hm
  rfl

/-- The end of a class body, behind which the names used before it are in force again. -/
def closing (before : List (String × Location)) (b : Grammar.ClassBody) :
    Parse Grammar.ClassBody := do
  let unresolved := (← get).references.filter fun r => !b.declared.any fun d => d.name == r.1
  if (← read).inClass then modify fun s => { s with references := before ++ unresolved }
  else
    match unresolved with
    | (name, location) :: _ => Parse.failAt (.undeclaredPrivateName name) location
    | [] => modify fun s => { s with references := before }
  return b

theorem closing_open {c : Surroundings} {s : ParseState} (hc : c.inClass = true)
    (before : List (String × Location)) (b : Grammar.ClassBody) :
    closing before b c s = .ok (b, { s with
      references := before ++ PrivateScope.unresolved ⟨b.declared, s.references⟩ }) := by
  change (if c.inClass = true then _ else _ : Parse _) c s = _
  rw [if_pos hc]
  rfl

theorem closing_closed {c : Surroundings} {s : ParseState} (hc : c.inClass = false)
    (before : List (String × Location)) (b : Grammar.ClassBody) :
    closing before b c s = match PrivateScope.unresolved ⟨b.declared, s.references⟩ with
      | (name, l) :: _ => .error (.rejected ⟨.undeclaredPrivateName name, l⟩)
      | [] => .ok (b, { s with references := before }) := by
  change (if c.inClass = true then _ else _ : Parse _) c s = _
  rw [if_neg (by rw [hc]; exact Bool.false_ne_true)]
  change (match PrivateScope.unresolved ⟨b.declared, s.references⟩ with
    | (name, l) :: _ => _
    | [] => _ : Parse _) c s = _
  cases PrivateScope.unresolved ⟨b.declared, s.references⟩ <;> rfl

/-- The parser is back in the body of the class around, with the names that are passed on. -/
theorem does_classBody (derived : Bool) :
    m.Does (g.classBody derived) (h.classBody derived) fun b parts m' =>
      parts = ⟨b.constructorDef, b.elements⟩ ∧ m.Keeps [] m' := by
  have hstart : Builds { m with privateScopes := ⟨[], []⟩ :: m.privateScopes } ⟨none, [], []⟩
      ⟨none, []⟩ { m with privateScopes := ⟨[], []⟩ :: m.privateScopes } :=
    ⟨rfl, .refl _, rfl, rfl⟩
  have helements := does_classElements (g := g) (h := h) hstart derived
  change Parser.Alike _ (g.classElements derived _ _ >>= _) (h.classElements derived _ >>= _)
  refine Parser.Alike.bind helements fun b parts m' hb => ?_
  obtain ⟨referenced, hscopes⟩ := hb.cons
  change m'.privateScopes = ⟨b.declared, referenced⟩ :: m.privateScopes at hscopes
  have hreferences : m'.reading.references = referenced := by
    rw [Parser.reading, Parser.references, hscopes]
    rfl
  have hkeeps (scopes : List PrivateScope) (houter : scopes.tail = m.privateScopes.tail)
      (hdeclared : scopes.head?.map PrivateScope.declared =
        m.privateScopes.head?.map PrivateScope.declared) :
      m.Keeps [] { m' with privateScopes := scopes } :=
    ⟨hb.keeps.flags, hb.keeps.source, hb.keeps.varNames, hb.keeps.varDeclarations, houter, hdeclared⟩
  change Parser.Alike _ (closing m.references b m.surroundings m'.reading) (exitPrivateScope m' >>= _)
  rw [exitPrivateScope_eq hscopes]
  cases houter : m.privateScopes with
  | nil =>
    have hclosed : m.surroundings.inClass = false := by
      rw [Parser.surroundings, houter]
      rfl
    rw [closing_closed hclosed, passOn_closed (m := { m' with privateScopes := [] }) rfl, hreferences]
    cases PrivateScope.unresolved ⟨b.declared, referenced⟩ with
    | nil =>
      refine .of_reading ?_ ⟨hb.parts, hkeeps [] (by rw [houter]) (by rw [houter])⟩
      rw [Parser.references, houter]
      rfl
    | cons r rest => exact .error _
  | cons scope outer =>
    have hopen : m.surroundings.inClass = true := by
      rw [Parser.surroundings, houter]
      rfl
    rw [closing_open hopen, passOn_open (m := { m' with privateScopes := scope :: outer }) rfl,
      hreferences]
    refine .of_reading ?_ ⟨hb.parts, hkeeps _ (by rw [houter]; rfl) (by rw [houter]; rfl)⟩
    rw [Parser.references, houter]
    rfl

instance (isDeclaration : Bool) (start : Nat) :
    Mirrors (g.classRest isDeclaration start) (h.classRest isDeclaration start) := by
  refine .step fun _ => .step fun _ => .guard <| .either fun name => .step fun _ => ?_
  refine .either fun heritage => .step fun _ => ⟨fun m => ?_⟩
  refine (does_classBody _).follow fun b parts m' ⟨heq, hkeeps⟩ => ?_
  subst heq
  have hsource : Mirrors
      (Parse.sourceSince start >>= fun source => pure
        { name, heritage, constructorDef := b.constructorDef, elements := b.elements, source })
      (liftM (Parse.sourceSince start) >>= fun source => pure
        (⟨name, heritage, b.constructorDef, b.elements, source⟩ : ClassDef)) := by
    infer_instance
  exact Parser.Gets.behind (P := fun _ names => names = []) hkeeps (hsource.gets m')

/-- The parser is as strict behind a class as it was before it. -/
instance (isDeclaration : Bool) :
    Mirrors (g.classDefinition isDeclaration) (h.classDefinition isDeclaration) := by
  refine .step fun start => .step fun _ => ⟨fun m => .get ?_⟩
  rw [← bind_pure (withReader _ _)]
  refine .within (fun flags => { flags with strict := true })
    (fun flags => { flags with strict := m.strict }) rfl rfl (Mirrors.gets _)
    fun d names m' _ hnames => .pure ?_
  rw [hnames]
  rfl

end Actions

end Ecma
