import Ecma.Proofs.Syntax.Collect

/-! The variables of functions and scripts. Statements collect the names that `var` declares in
them, at any depth outside functions, in the order of the tokens; so every function and script that
is accepted has exactly these names, each once, in the order in which they first occur. -/

namespace Ecma

open Parse

namespace Parse

variable {α : Type} {p : Parse α} {c : Surroundings} {s : ParseState}

theorem Yields.and {P Q : α → ParseState → Prop} (hP : p.Yields c s P) (hQ : p.Yields c s Q) :
    p.Yields c s fun a s' => P a s' ∧ Q a s' :=
  fun a s' heq => ⟨hP a s' heq, hQ a s' heq⟩

/-- Passing over a token that is next. -/
theorem Yields.skip_next {t : Token} {rest : List Token} (h : s.tokens.significant = t :: rest) :
    Parse.skip.Yields c s fun _ s' => s'.tokens.significant = rest :=
  (Yields.skip (by simp [h])).mono fun _ _ ⟨_, heq⟩ => (List.cons.inj (h.symm.trans heq)).2.symm

/-- Taking a token of a category that is looked for. -/
theorem Yields.eatKind {kind : TokenKind} : (eatKind kind).Yields c s fun b s' => s.Passes s' ∧
    (b = true → ∃ t, t.kind = kind ∧ s.tokens.significant = t :: s'.tokens.significant) ∧
    (b = false → s' = s) := by
  refine .and (Plain.yields c s) (.bind .atKind fun b s₁ h => ?_)
  obtain ⟨rfl, hb⟩ := h
  split
  · next htrue =>
    rw [hb, TokenStream.check, TokenStream.peekKind?, TokenStream.peek?_eq, beq_iff_eq,
      Option.map_eq_some_iff] at htrue
    obtain ⟨t, ht, hkind⟩ := htrue
    obtain ⟨rest, hrest⟩ := List.head?_eq_some_iff.mp ht
    refine .bind (.skip_next hrest) fun _ s₂ h => .pure ⟨fun _ => ⟨t, hkind, h ▸ hrest⟩, ?_⟩
    exact fun hfalse => absurd hfalse.symm Bool.false_ne_true
  · exact .pure ⟨fun htrue => absurd htrue Bool.false_ne_true, fun _ => rfl⟩

theorem Yields.expectKeyword {k : Keyword} : (expectKeyword k).Yields c s fun _ s' =>
    s.Passes s' ∧ ∃ t, t.kind = .keyword k ∧ s.tokens.significant = t :: s'.tokens.significant := by
  refine .bind .eatKind fun b s' ⟨hpasses, htaken, _⟩ => ?_
  split
  · exact .fail
  · next hb => exact .pure ⟨hpasses, htaken (by simpa using hb)⟩

/-- A declared name is that of the token that is taken, an identifier in strict code. -/
theorem Yields.bindingIdentifier : bindingIdentifier.Yields c s fun name s' => s.Passes s' ∧
    ∃ t, t.isName ∧ (c.strict = true → t.kind = .identifier) ∧ name = t.declaredName ∧
      s.tokens.significant = t :: s'.tokens.significant := by
  have seen : peek.Yields c s fun t s' => s' = s ∧ s.tokens.significant.head? = some t := by
    refine .bind (P := fun t s' => s' = s ∧ t = s.tokens.peek?)
      (fun _ _ heq => by cases heq; exact ⟨rfl, rfl⟩) fun t s' ⟨hs, ht⟩ => ?_
    cases t with
    | none => exact .fail
    | some t => exact .pure ⟨hs, by rw [← TokenStream.peek?_eq, ← ht]⟩
  refine .and (Plain.yields c s) (.bind seen fun t s₁ ⟨hs, ht⟩ => ?_)
  subst hs
  obtain ⟨rest, hrest⟩ := List.head?_eq_some_iff.mp ht
  split
  · next hkind =>
    refine .bind (P := fun _ s' => s' = s₁) ?_ fun _ s₂ h₂ => ?_
    · refine .read ?_
      split
      · dsimp only
        split
        · exact .fail
        split
        · exact .fail
        · exact .pure rfl
      · exact .pure rfl
    · subst h₂
      refine .bind (.skip_next hrest) fun _ s₃ h => .pure
        ⟨t, .inl hkind, fun _ => hkind, ?_, h ▸ hrest⟩
      simp [Token.declaredName, hkind]
  · next hkind =>
    refine .read ?_
    split
    · exact .fail
    next hsloppy =>
    refine .bind (.skip_next hrest) fun _ s₃ h => .pure
      ⟨t, .inr hkind, fun hstrict => absurd hstrict hsloppy, ?_, h ▸ hrest⟩
    simp [Token.declaredName, hkind]
  · exact .fail
  · exact .fail
  · exact .fail

/-- What a production collects from a later state on. -/
theorem Collects.yields_from {T : Origin} {σ : CodeMode} {P : α → List Token → Prop}
    (hp : p.Collects T σ P) {s' : ParseState} (h : s.Passes s') (hs : T.At σ c s) :
    p.Yields c s' fun a s'' => ∃ marks, s.Collects c marks s'' ∧ P a marks :=
  (hp c s' (hs.passes h)).mono fun _ _ ⟨marks, hcollects, ha⟩ =>
    ⟨marks, ParseState.Collects.trans (.of_passes h) hcollects, ha⟩

end Parse

namespace Grammar

variable {T : Origin} {σ : CodeMode} {g : Grammar}

/-! ### Declarations -/

theorem yields_bindName {c : Surroundings} {s : ParseState} (kind : VarKind) (name : String)
    (l : Location) : (bindName kind name l).Yields c s fun _ s' => s'.tokens = s.tokens ∧
      s'.references = s.references ∧
      s'.declared = if kind = .var then addName s.declared name else s.declared := by
  unfold bindName
  split
  · next hkind => exact Yields.modify.mono fun _ s' hs' => by simp_all
  · next hkind =>
    have hne : kind ≠ .var := by simpa using hkind
    split
    · exact .fail
    · exact .pure ⟨rfl, rfl, rfl⟩

theorem yields_initializer? (hg : g.Collects T) {c : Surroundings} {s : ParseState}
    (hs : T.At σ c s) :
    g.initializer?.Yields c s fun init s' =>
      (∀ e ∈ init, (Part.expr e).Known T σ) ∧ s.Advances c s' ∧ s'.declared = s.declared ∧
      ∃ used, Initializer used ∧ s.tokens.significant = used ++ s'.tokens.significant := by
  refine .bind .eatKind fun b s₁ ⟨h₁, htrue, hfalse⟩ => ?_
  split
  · next hb =>
    obtain ⟨t, ht, htaken⟩ := htrue hb
    refine .bind (finds_assignmentExpression hg c s₁ (hs.passes h₁))
      fun e s₂ ⟨marks, hcollects, hmarks, he⟩ => .pure ⟨by simpa using he, ?_, ?_, ?_⟩
    · exact .trans (.of_passes h₁) hcollects.toAdvances
    · subst hmarks
      rw [hcollects.declared, h₁.rest]
      rfl
    · obtain ⟨used, hused, -⟩ := hcollects.tokens
      exact ⟨t :: used, .value ht used, by rw [htaken, hused, List.cons_append]⟩
  · next hb =>
    obtain rfl := hfalse (by simpa using hb)
    exact .pure ⟨by simp, .of_passes (.refl _), rfl, [], .none, rfl⟩

/-- A declarator takes the token of its name and those of its initial value. -/
theorem yields_declarator (hg : g.Collects T) {c : Surroundings} {s : ParseState}
    (hs : T.At σ c s) (kind : VarKind) (needsInit : Bool) :
    (g.declarator kind needsInit).Yields c s fun d s' => (Part.declarator d).Known T σ ∧
      s.Advances c s' ∧
      s'.declared = (if kind = .var then addName s.declared d.name else s.declared) ∧
      ∃ t init, t.isName ∧ Initializer init ∧ d.name = t.declaredName ∧
        s.tokens.significant = t :: init ++ s'.tokens.significant := by
  refine .bind (P := fun _ s' => s' = s) (fun _ _ heq => by cases heq; rfl) fun _ s₁ h₁ => ?_
  subst h₁
  refine .bind .bindingIdentifier fun name s₂ ⟨h₂, t, ht, _, hname, htaken⟩ => ?_
  refine .bind (yields_bindName kind name _) fun _ s₃ ⟨htokens, hreferences, hdeclared⟩ => ?_
  have h₃ : s₁.Advances c s₃ := ⟨htokens ▸ h₂.stream, fun _ => hreferences.trans h₂.references⟩
  refine .bind (yields_initializer? hg (hs.advances h₃))
    fun init s₄ ⟨hinit, h₄, hd, used, hused, heq⟩ => ?_
  dsimp only
  split
  · exact .fail
  refine .pure ⟨Part.known_of_parts rfl rfl (by simpa using hinit), h₃.trans h₄, ?_, t, used, ht,
    hused, hname, ?_⟩
  · rw [hd, hdeclared, h₂.rest]
  · rw [htaken, ← htokens, heq, List.cons_append]

/-- The names of a declaration are those of tokens between commas. By induction on the number of
turns, with the declarators `done` so far. -/
theorem yields_declaratorsFrom (hg : g.Collects T) (kind : VarKind) (needsInit : Bool)
    {c : Surroundings} (fuel : Nat) (done : List Declarator) (s : ParseState) (hs : T.At σ c s)
    (hdone : ∀ d ∈ done, (Part.declarator d).Known T σ) :
    (loop (fun done => do
      let d ← g.declarator kind needsInit
      if ← eat .comma then return .again (d :: done)
      return .done (d :: done).reverse) fuel done).Yields c s fun ds s' =>
      (∀ d ∈ ds, (Part.declarator d).Known T σ) ∧ s.Advances c s' ∧ ∃ used marks more,
        s.tokens.significant = used ++ s'.tokens.significant ∧ NameTokens used marks ∧
        ds = done.reverse ++ more ∧
        marks.map Token.declaredName = Stmt.declaratorNames more ∧
        s'.declared = if kind = .var then (Stmt.declaratorNames more).foldl addName s.declared
          else s.declared := by
  induction fuel generalizing done s with
  | zero => exact Yields.fail (p := throw _)
  | succ fuel ih =>
    rw [loop, bind_assoc]
    refine .bind (yields_declarator hg hs kind needsInit)
      fun d s₁ ⟨hd, h₁, hdeclared, t, init, ht, hi, hname, htaken⟩ => ?_
    have hall : ∀ d' ∈ d :: done, (Part.declarator d').Known T σ :=
      List.forall_mem_cons.mpr ⟨hd, hdone⟩
    rw [bind_assoc]
    refine .bind .eatKind fun b s₂ ⟨h₂, htrue, hfalse⟩ => ?_
    split
    · next hb =>
      obtain ⟨comma, hcomma, heq⟩ := htrue hb
      have hadvances : s.Advances c s₂ := h₁.trans (.of_passes h₂)
      refine (ih (d :: done) s₂ (hs.advances hadvances) hall).mono
        fun ds s' ⟨hds, h', used, marks, more, hused, hnames, hmore, hmarks, hlast⟩ =>
          ⟨hds, hadvances.trans h', t :: init ++ comma :: used, t :: marks, d :: more, ?_,
            .more ht hi hcomma hnames, ?_, ?_, ?_⟩
      · rw [htaken, heq, hused]
        simp
      · simp [hmore]
      · simp [hmarks, Stmt.declaratorNames, hname]
      · rw [hlast, h₂.rest, hdeclared]
        split <;> rfl
    · next hb =>
      obtain rfl := hfalse (by simpa using hb)
      refine .pure ⟨fun d' hd' => hall d' (List.mem_reverse.mp hd'), h₁, t :: init, [t], [d],
        htaken, .last ht hi, ?_, ?_, ?_⟩
      · simp
      · simp [Stmt.declaratorNames, hname]
      · rw [hdeclared]
        rfl

/-- The names of a `let` or `const` declaration are not collected. -/
theorem finds_declarators (hg : g.Collects T) {kind : VarKind} (hkind : kind ≠ .var)
    (needsInit : Bool) : (g.declarators kind needsInit).Finds T σ fun ds =>
      ∀ d ∈ ds, (Part.declarator d).Known T σ := by
  intro c s hs
  refine (yields_declaratorsFrom hg kind needsInit g.fuel [] s hs (by simp)).mono
    fun ds s' ⟨hds, hadvances, used, marks, more, hused, hnames, hmore, hmarks, hlast⟩ => ?_
  rw [if_neg hkind] at hlast
  exact ⟨[], .of_advances hadvances hlast, rfl, hds⟩

/-- The names behind the keyword `var` are collected. -/
theorem yields_varDeclarators (hg : g.Collects T) (needsInit : Bool) {c : Surroundings}
    {s s' : ParseState} {v : Token} (hs : T.At σ c s) (hpasses : s.Passes s')
    (hv : v.kind = .keyword .varKw)
    (htaken : s.tokens.significant = v :: s'.tokens.significant) :
    (g.declarators .var needsInit).Yields c s' fun ds s'' => ∃ marks, s.Collects c marks s'' ∧
      marks.map Token.declaredName = Stmt.declaratorNames ds ∧
      ∀ d ∈ ds, (Part.declarator d).Known T σ := by
  refine (yields_declaratorsFrom hg .var needsInit g.fuel [] s' (hs.passes hpasses) (by simp)).mono
    fun ds s'' ⟨hds, hadvances, used, marks, more, hused, hnames, hmore, hmarks, hlast⟩ => ?_
  obtain rfl : ds = more := hmore
  rw [if_pos rfl, ← hmarks] at hlast
  refine ⟨marks, ⟨.trans (.of_passes hpasses) hadvances, ⟨v :: used, ?_, .declaration hv hnames⟩,
    ?_⟩, hmarks, hds⟩
  · rw [htaken, hused, List.cons_append]
  · rw [hlast, hpasses.rest]

theorem collects_variableStatement (hg : g.Collects T) :
    g.variableStatement.Collects T σ (Stmt.Declares T σ) := by
  intro c s hs
  refine .bind .expectKeyword fun _ s₁ ⟨h₁, v, hv, htaken⟩ => ?_
  refine .bind (yields_varDeclarators hg true hs h₁ hv htaken)
    fun ds s₂ ⟨marks, hcollects, hmarks, hds⟩ => ?_
  refine .bind (Quiet.yields c s₂) fun _ s₃ h₃ => .pure ⟨marks ++ [], hcollects.trans h₃, ?_, ?_⟩
  · rw [List.append_nil, hmarks, Stmt.varNames, if_pos rfl]
  · exact Part.known_of_parts rfl rfl (by simpa using hds)

theorem collects_lexicalDeclaration (hg : g.Collects T) :
    g.lexicalDeclaration.Collects T σ (Stmt.Declares T σ) := by
  have hrest (kind : VarKind) (hkind : kind ≠ .var) : Parse.Collects T σ (do
      let ds ← g.declarators kind true
      semicolon
      return Stmt.variables kind ds) (Stmt.Declares T σ) := by
    refine .find (finds_declarators hg hkind true) fun ds hds => .skip fun _ => .pure ⟨?_, ?_⟩
    · rw [Stmt.varNames, if_neg hkind, List.map_nil]
    · exact Part.known_of_parts rfl rfl (by simpa using hds)
  refine .skip fun _ => ?_
  split
  · exact hrest .letVar (by decide)
  · exact .skip fun _ => hrest .const (by decide)

/-- A declaration is read like a function expression: the next token behind the name that it has is
no matter, as no name is a parenthesis. -/
theorem functionExpression_of_declaration {c : Surroundings} {s s' : ParseState} {t : Stmt}
    (h : g.functionDeclaration c s = .ok (t, s')) :
    ∃ f, t = .function f ∧ g.functionExpression c s = .ok (.function f, s') := by
  have hread : g.functionDeclaration.Yields c s fun t s' => ∃ f, t = .function f ∧
      g.functionExpression c s = .ok (.function f, s') := by
    unfold functionExpression
    refine .bind .self fun start s₁ h₁ => .bind .self fun _ s₂ h₂ => ?_
    refine .bind (.and .self .atKind) fun star s₃ ⟨h₃, heq₃, _⟩ => ?_
    subst s₃
    split
    · exact .fail
    next hstar =>
    refine .bind (.and .self .bindingIdentifier) fun name s₄ ⟨h₄, _, t, ht, _, _, htaken⟩ => ?_
    refine .bind .self fun f s₅ h₅ => .pure ⟨f, rfl, ?_⟩
    have hparen : s₂.tokens.check (.punctuator .leftParen) = false := by
      have hkind : t.kind ≠ .punctuator .leftParen := by
        rintro hkind
        rcases ht with h | h <;> cases hkind.symm.trans h
      simpa [TokenStream.check, TokenStream.peekKind?, TokenStream.peek?_eq, htaken] using hkind
    have hname : (some <$> bindingIdentifier) c s₂ = .ok (some name, s₄) := by
      change (do let name ← bindingIdentifier; return some name : Parse (Option String)) c s₂ = _
      rw [bind_of_ok h₄]
      rfl
    have hat : atPunct .leftParen c s₂ = .ok (false, s₂) := hparen ▸ rfl
    rw [bind_of_ok h₁, bind_of_ok h₂, bind_of_ok h₃, if_neg hstar]
    exact (bind_of_ok hat).trans ((bind_of_ok hname).trans (bind_of_ok h₅))
  exact hread t s' h

theorem collects_functionDeclaration (hg : g.Collects T) :
    g.functionDeclaration.Collects T σ (Stmt.Declares T σ) := by
  have hfound : g.functionDeclaration.Finds T σ fun t => ∃ f, t = .function f ∧
      ((f.kind = .normal → f.IsRead T σ) → ∀ a b, (Part.function f a b).Known T σ) := by
    refine .skip fun _ => .skip fun _ => .skip fun _ => .guard ?_
    refine .find finds_bindingIdentifier fun name hname => ?_
    refine .find (finds_functionRest hg (by simpa using hname) _ _ _ _) fun f hf => ?_
    exact .found ⟨f, rfl, hf.2⟩
  intro c s hs t s' heq
  obtain ⟨marks, hcollects, rfl, f, rfl, hf⟩ := hfound c s hs t s' heq
  obtain ⟨_, hfunction, hread⟩ := functionExpression_of_declaration heq
  cases hfunction
  obtain ⟨depth, rfl⟩ := hg.depth
  refine ⟨[], hcollects, by simp [Stmt.varNames], Part.known_of_parts rfl rfl ?_⟩
  simpa using hf (fun _ => ⟨depth, c, s, s', hs, hread⟩) false false

/-! ### Blocks and expressions -/

theorem finds_condition (hg : g.Collects T) :
    g.condition.Finds T σ fun e => (Part.expr e).Known T σ :=
  .skip fun _ => .find (finds_expression hg) fun _ he => .skip fun _ => .found he

theorem collects_block (hg : g.Collects T) : g.block.Collects T σ (Stmt.DeclareAll T σ) := by
  refine .skip fun _ => .bind (Collects.loop (Q := Stmt.DeclareAll T σ)
    (fun done marks => Stmt.DeclareAll T σ done.reverse marks) (fun done marks hdone => ?_) .nil)
    fun body marks hbody => .skip fun _ => .pure ((List.append_nil marks).symm ▸ hbody)
  refine .skip fun _ => ?_
  split
  · exact .pure ((List.append_nil marks).symm ▸ hdone)
  refine .skip fun _ => .guard <| .bind hg.item fun t marks' ht => .pure ?_
  exact hdone.next ((List.append_nil marks').symm ▸ ht)

theorem collects_expressionStatement (hg : g.Collects T) :
    g.expressionStatement.Collects T σ (Stmt.Declares T σ) := by
  refine .find (finds_expression hg) fun e he => .skip fun _ => .pure ⟨by simp [Stmt.varNames], ?_⟩
  exact Part.known_of_parts rfl rfl (by simpa using he)

/-! ### Labels, conditions and loops -/

instance (n fuel : Nat) : (labelsLoop n fuel).Plain := by
  induction fuel generalizing n with
  | zero => exact inferInstanceAs (throw _ : Parse Bool).Plain
  | succ fuel ih =>
    refine .bind fun t => ?_
    cases t with
    | none => exact inferInstanceAs (pure false : Parse Bool).Plain
    | some t =>
      refine .bind fun b => ?_
      split
      · exact ih (n + 2)
      · split <;> infer_instance

theorem collects_labeledStatement (hg : g.Collects T) :
    g.labeledStatement.Collects T σ (Stmt.Declares T σ) := by
  refine .skip fun _ => .skip fun _ => .skip fun _ => .skip fun _ => .guard <| .skip fun _ => ?_
  refine .bind (.within (fun _ => ⟨rfl, rfl, rfl⟩) hg.subStatement)
    fun body marks hbody => .pure ⟨?_, ?_⟩
  · rw [List.append_nil, hbody.names, Stmt.varNames]
  · exact Part.known_of_parts rfl rfl (by simpa using hbody.known)

theorem collects_ifStatement (hg : g.Collects T) :
    g.ifStatement.Collects T σ (Stmt.Declares T σ) := by
  refine .skip fun _ => .find (finds_condition hg) fun test htest => ?_
  refine .bind hg.subStatement fun yes marks hyes => .skip fun _ => ?_
  split
  · refine .bind hg.subStatement fun no marks' hno => .pure ⟨?_, ?_⟩
    · simp [hyes.names, hno.names, Stmt.varNames]
    · exact Part.known_of_parts rfl rfl (by simp [htest, hyes.known, hno.known])
  · refine .pure ⟨by simp [hyes.names, Stmt.varNames], ?_⟩
    exact Part.known_of_parts rfl rfl (by simp [htest, hyes.known])

theorem collects_loopBody (hg : g.Collects T) : g.loopBody.Collects T σ (Stmt.Declares T σ) :=
  .within (fun _ => ⟨rfl, rfl, rfl⟩) hg.subStatement

theorem collects_whileStatement (hg : g.Collects T) :
    g.whileStatement.Collects T σ (Stmt.Declares T σ) := by
  refine .skip fun _ => .find (finds_condition hg) fun test htest => ?_
  refine .bind (collects_loopBody hg) fun body marks hbody => .pure ⟨?_, ?_⟩
  · simp [hbody.names, Stmt.varNames]
  · exact Part.known_of_parts rfl rfl (by simp [htest, hbody.known])

theorem collects_doStatement (hg : g.Collects T) :
    g.doStatement.Collects T σ (Stmt.Declares T σ) := by
  refine .skip fun _ => .bind (collects_loopBody hg) fun body marks hbody => .skip fun _ => ?_
  refine .find (finds_condition hg) fun test htest => .skip fun _ => .pure ⟨?_, ?_⟩
  · simp [hbody.names, Stmt.varNames]
  · exact Part.known_of_parts rfl rfl (by simp [htest, hbody.known])

/-- A `for` head that starts a `var` declaration starts with that keyword. -/
theorem yields_forKind? {c : Surroundings} {s : ParseState} :
    forKind?.Yields c s fun kind s' => s.Passes s' ∧
      (kind = some .var → s' = s ∧ s.tokens.peekKind? = some (.keyword .varKw)) := by
  refine .and (Plain.yields c s) (.bind .atKind fun b s₁ ⟨hs, hb⟩ => ?_)
  subst hs
  split
  · next htrue =>
    refine .pure fun _ => ⟨rfl, ?_⟩
    rw [hb] at htrue
    exact beq_iff_eq.mp htrue
  refine .after fun _ _ => ?_
  split
  · exact .pure nofun
  refine .after fun _ _ => ?_
  split
  · exact .pure nofun
  · exact .pure nofun

theorem collects_forInit (hg : g.Collects T) : g.forInit.Collects T σ fun init marks =>
    marks.map Token.declaredName = init.varNames ∧ (Part.forInit init).Known T σ := by
  refine .skip fun _ => ?_
  split
  · exact .pure ⟨rfl, Part.known_leaf rfl rfl rfl⟩
  intro c s hs
  refine .bind yields_forKind? fun kind? s₁ h => ?_
  obtain ⟨h₁, hvar⟩ := h
  cases kind? with
  | none =>
    refine Collects.yields_from (.find (finds_expression hg) fun e he => .pure ⟨?_, ?_⟩) h₁ hs
    · rw [ForInit.varNames, List.map_nil]
      exact nofun
    · exact Part.known_of_parts rfl rfl (by simpa using he)
  | some kind =>
    by_cases hkind : kind = .var
    · subst hkind
      obtain ⟨rfl, hpeek⟩ := hvar rfl
      rw [TokenStream.peekKind?, TokenStream.peek?_eq, Option.map_eq_some_iff] at hpeek
      obtain ⟨v, hhead, hv⟩ := hpeek
      obtain ⟨rest, hrest⟩ := List.head?_eq_some_iff.mp hhead
      refine .bind (.and (Plain.yields c s₁) (.skip_next hrest)) fun _ s₂ h => ?_
      obtain ⟨h₂, heq⟩ := h
      refine .bind (yields_varDeclarators hg false hs h₂ hv (heq ▸ hrest))
        fun ds s₃ h => ?_
      obtain ⟨marks, hcollects, hmarks, hds⟩ := h
      refine .pure ⟨marks, hcollects, hmarks, ?_⟩
      exact Part.known_of_parts rfl rfl (by simpa using hds)
    · refine Collects.yields_from (.skip fun _ => .find (finds_declarators hg hkind false)
        fun ds hds => .pure ⟨?_, ?_⟩) h₁ hs
      · cases kind <;> first | rfl | exact absurd rfl hkind
      · exact Part.known_of_parts rfl rfl (by simpa using hds)

theorem finds_optionalExpression (hg : g.Collects T) (stop : Punctuator) :
    (g.optionalExpression stop).Finds T σ fun e? => ∀ e ∈ e?, (Part.expr e).Known T σ := by
  refine .skip fun _ => ?_
  split
  · exact .found (by simp)
  · exact .find (finds_expression hg) fun e he => .found (by simpa using he)

theorem collects_forStatement (hg : g.Collects T) :
    g.forStatement.Collects T σ (Stmt.Declares T σ) := by
  refine .skip fun _ => .skip fun _ => .guard <| .skip fun _ => ?_
  refine .bind (.within (fun _ => ⟨rfl, rfl, rfl⟩) (collects_forInit hg))
    fun init marks ⟨hnames, hinit⟩ => ?_
  refine .skip fun _ => .skip fun _ => .guard <| .skip fun _ => .skip fun _ => ?_
  refine .find (finds_optionalExpression hg _) fun test htest => .skip fun _ => ?_
  refine .find (finds_optionalExpression hg _) fun update hupdate => .skip fun _ => ?_
  refine .bind (collects_loopBody hg) fun body marks' hbody => .pure ⟨?_, ?_⟩
  · simp [hnames, hbody.names, Stmt.varNames]
  · refine Part.known_of_parts rfl rfl ?_
    simp only [Part.parts, Stmt.parts, List.mem_cons, List.map_append, List.mem_append,
      List.mem_map, Option.mem_toList]
    rintro y (rfl | rfl | ⟨e, he, rfl⟩ | ⟨e, he, rfl⟩)
    · exact hinit
    · exact hbody.known
    · exact htest e he
    · exact hupdate e he

/-! ### Jumps -/

theorem collects_returnStatement (hg : g.Collects T) :
    g.returnStatement.Collects T σ (Stmt.Declares T σ) := by
  refine .skip fun _ => .skip fun _ => .skip fun _ => .guard ?_
  refine .skip fun _ => .skip fun _ => .skip fun _ => .skip fun _ => ?_
  refine .findIte (P := fun (v : Option Expr) => ∀ e ∈ v, (Part.expr e).Known T σ)
    (.found (by simp)) (.map ((finds_expression hg).mono fun e he => by simpa using he))
    fun value hvalue => .skip fun _ => .pure ⟨by simp [Stmt.varNames], ?_⟩
  exact Part.known_of_parts rfl rfl (by simpa using hvalue)

theorem collects_breakStatement : breakStatement.Collects T σ (Stmt.Declares T σ) := by
  refine .skip fun _ => .skip fun _ => .skip fun _ => .skip fun label? => ?_
  split
  · exact .guard <| .skip fun _ => .pure ⟨by simp [Stmt.varNames], Part.known_leaf rfl rfl rfl⟩
  · exact .guard <| .skip fun _ => .pure ⟨by simp [Stmt.varNames], Part.known_leaf rfl rfl rfl⟩

theorem collects_continueStatement : continueStatement.Collects T σ (Stmt.Declares T σ) := by
  refine .skip fun _ => .skip fun _ => .skip fun _ => .guard <| .skip fun label? => ?_
  split
  · split
    · exact .fail
    · exact .guard <| .skip fun _ => .pure ⟨by simp [Stmt.varNames], Part.known_leaf rfl rfl rfl⟩
  · exact .skip fun _ => .pure ⟨by simp [Stmt.varNames], Part.known_leaf rfl rfl rfl⟩

theorem collects_throwStatement (hg : g.Collects T) :
    g.throwStatement.Collects T σ (Stmt.Declares T σ) := by
  refine .skip fun _ => .skip fun _ => .guard <| .find (finds_expression hg) fun e he => ?_
  refine .skip fun _ => .pure ⟨by simp [Stmt.varNames], ?_⟩
  exact Part.known_of_parts rfl rfl (by simpa using he)

/-! ### Exceptions and switches -/

theorem collects_handler? (hg : g.Collects T) : g.handler?.Collects T σ fun handler marks =>
    Stmt.DeclareAll T σ (handler.elim [] Prod.snd) marks := by
  refine .skip fun _ => ?_
  split
  · exact .pure .nil
  refine .skip fun param => .bind (collects_block hg) fun body marks hbody => ?_
  split
  · exact .skip fun _ => .pure ((List.append_nil marks).symm ▸ hbody)
  · exact .pure ((List.append_nil marks).symm ▸ hbody)

theorem collects_finalizer? (hg : g.Collects T) : g.finalizer?.Collects T σ fun finalizer marks =>
    Stmt.DeclareAll T σ (finalizer.getD []) marks := by
  refine .skip fun _ => ?_
  split
  · refine .bind (collects_block hg) fun body marks hbody => .pure ?_
    exact (List.append_nil marks).symm ▸ hbody
  · exact .pure .nil

theorem collects_tryStatement (hg : g.Collects T) :
    g.tryStatement.Collects T σ (Stmt.Declares T σ) := by
  refine .skip fun _ => .skip fun _ => .bind (collects_block hg) fun body marks hbody => ?_
  refine .bind (collects_handler? hg) fun handler marks' hhandler => ?_
  refine .bind (collects_finalizer? hg) fun finalizer marks'' hfinalizer => ?_
  have hparts {lists : List Stmt} (h : ∀ t ∈ lists, (Part.statement t).Known T σ) :
      ∀ y ∈ lists.map Part.statement, y.Known T σ := by
    simpa using h
  split
  · refine .pure ⟨?_, Part.known_of_parts rfl rfl (hparts ?_)⟩
    · simpa [hbody.names, Stmt.varNames, hfinalizer.names] using hhandler.names
    · exact List.forall_mem_append.mpr
        ⟨List.forall_mem_append.mpr ⟨hbody.known, hhandler.known⟩, hfinalizer.known⟩
  · refine .pure ⟨?_, Part.known_of_parts rfl rfl (hparts ?_)⟩
    · simp [hbody.names, Stmt.varNames, hfinalizer.names, hhandler.names, Stmt.varNamesOf_eq]
    · exact List.forall_mem_append.mpr ⟨hbody.known, hhandler.known⟩
  · refine .pure ⟨?_, Part.known_of_parts rfl rfl (hparts ?_)⟩
    · simp [hbody.names, Stmt.varNames, hfinalizer.names, hhandler.names, Stmt.varNamesOf_eq]
    · exact List.forall_mem_append.mpr ⟨hbody.known, hfinalizer.known⟩
  · exact .fail

theorem collects_caseBody (hg : g.Collects T) : g.caseBody.Collects T σ (Stmt.DeclareAll T σ) := by
  refine .loop (fun done marks => Stmt.DeclareAll T σ done.reverse marks)
    (fun done marks hdone => ?_) .nil
  refine .skip fun _ => .skip fun _ => .skip fun _ => .skip fun _ => ?_
  dsimp only
  split
  · exact .pure ((List.append_nil marks).symm ▸ hdone)
  refine .bind hg.item fun t marks' ht => .pure ?_
  exact hdone.next ((List.append_nil marks').symm ▸ ht)

theorem finds_caseTest (hg : g.Collects T) (seenDefault : Bool) :
    (g.caseTest seenDefault).Finds T σ fun test => ∀ e ∈ test, (Part.expr e).Known T σ := by
  refine .skip fun _ => .skip fun _ => ?_
  split
  · exact .find (finds_expression hg) fun e he => .found (by simpa using he)
  refine .skip fun _ => ?_
  split
  · exact .guard (.found (by simp))
  · exact .fail

theorem collects_switchCases (hg : g.Collects T) : g.switchCases.Collects T σ fun cases marks =>
    marks.map Token.declaredName = Stmt.varNamesOfCases cases ∧
      ∀ k ∈ cases, (Part.clause k).Known T σ := by
  refine .loop (fun (done : List SwitchCase) marks =>
    marks.map Token.declaredName = Stmt.varNamesOfCases done.reverse ∧
      ∀ k ∈ done, (Part.clause k).Known T σ) (fun done marks ⟨hnames, hdone⟩ => ?_)
    ⟨by simp [Stmt.varNamesOfCases], by simp⟩
  refine .skip fun _ => ?_
  split
  · exact .pure ⟨by simpa using hnames, fun k hk => hdone k (List.mem_reverse.mp hk)⟩
  refine .find (finds_caseTest hg _) fun test htest => .skip fun _ => ?_
  refine .bind (collects_caseBody hg) fun body marks' hbody => .pure ⟨?_, ?_⟩
  · simp [hnames, hbody.names, Stmt.varNamesOfCases_eq, Stmt.varNamesOf_eq]
  · refine List.forall_mem_cons.mpr ⟨Part.known_of_parts rfl rfl ?_, hdone⟩
    simp only [Part.parts, List.mem_append, List.mem_map, Option.mem_toList]
    rintro y (⟨e, he, rfl⟩ | ⟨t, ht, rfl⟩)
    · exact htest e he
    · exact hbody.known t ht

theorem collects_switchStatement (hg : g.Collects T) :
    g.switchStatement.Collects T σ (Stmt.Declares T σ) := by
  refine .skip fun _ => .find (finds_condition hg) fun subject hsubject => .skip fun _ => ?_
  refine .bind (.within (fun _ => ⟨rfl, rfl, rfl⟩) (collects_switchCases hg))
    fun cases marks ⟨hnames, hcases⟩ => ?_
  refine .skip fun _ => .pure ⟨by simp [hnames, Stmt.varNames], Part.known_of_parts rfl rfl ?_⟩
  simpa [hsubject] using hcases

/-! ### The whole grammar -/

theorem collects_statement (hg : g.Collects T) (first : TokenKind) :
    (g.statement first).Collects T σ (Stmt.Declares T σ) := by
  have hleaf {t : Stmt} (hnames : t.varNames = []) (hparts : t.parts = []) : t.Declares T σ [] :=
    ⟨hnames.symm, Part.known_leaf rfl rfl hparts⟩
  unfold statement
  split
  · refine .bind (collects_block hg) fun body marks hbody => .pure ⟨?_, ?_⟩
    · simp [hbody.names, Stmt.varNames]
    · exact Part.known_of_parts rfl rfl (by simpa using hbody.known)
  · exact .skip fun _ => .pure (hleaf (by simp [Stmt.varNames]) rfl)
  · exact collects_variableStatement hg
  · exact collects_ifStatement hg
  · exact collects_whileStatement hg
  · exact collects_doStatement hg
  · exact collects_forStatement hg
  · exact collects_returnStatement hg
  · exact collects_breakStatement
  · exact collects_continueStatement
  · exact collects_throwStatement hg
  · exact collects_tryStatement hg
  · exact collects_switchStatement hg
  · exact .fail
  · exact .fail
  · exact .fail
  · exact .skip fun _ => .skip fun _ => .pure (hleaf (by simp [Stmt.varNames]) rfl)
  · refine .skip fun _ => ?_
    split
    · exact collects_labeledStatement hg
    · exact collects_expressionStatement hg
  · exact collects_expressionStatement hg

theorem collects_declaration (hg : g.Collects T) (first : TokenKind) :
    (g.declaration first).Collects T σ (Stmt.Declares T σ) := by
  unfold declaration
  split
  · exact collects_functionDeclaration hg
  · refine .find (finds_classDefinition hg _) fun d hd => .pure ⟨by simp [Stmt.varNames], ?_⟩
    exact Part.known_of_parts rfl rfl (by simpa using hd)
  · exact collects_lexicalDeclaration hg
  · exact collects_lexicalDeclaration hg
  · exact .fail

theorem collects_statementListItem (hg : g.Collects T) :
    g.statementListItem.Collects T σ (Stmt.Declares T σ) := by
  refine .skip fun first? => ?_
  cases first? with
  | none => exact .fail
  | some first =>
    refine .skip fun _ => ?_
    split
    · exact collects_declaration hg first
    · exact collects_statement hg first

theorem collects_singleStatement (hg : g.Collects T) :
    g.singleStatement.Collects T σ (Stmt.Declares T σ) := by
  refine .skip fun first? => ?_
  cases first? with
  | none => exact .fail
  | some first =>
    refine .skip fun _ => ?_
    split
    · exact .fail
    · exact collects_statement hg first

/-- By induction on the depth: the productions at a depth use those one level deeper. -/
theorem collects_ofFuel (T : Origin) (n : Nat) : (ofFuel n).Collects T := by
  induction n with
  | zero =>
    refine ⟨⟨0, rfl⟩, ?_, ?_, ?_, ?_, ?_, ?_, ?_⟩
    all_goals exact Collects.fail (p := throw _)
  | succ n ih =>
    exact {
      depth := ⟨n + 1, rfl⟩
      assignment := finds_assignmentExpression ih
      exponentiation := finds_exponentiationExpression ih
      unary := finds_unaryExpression ih
      member := finds_memberExpression ih
      leftHandSide := finds_leftHandSideExpression ih
      item := collects_statementListItem ih
      subStatement := collects_singleStatement ih }

/-- A script has the names of its variables, and all functions in it are known. -/
theorem yields_script (hg : g.Collects T) {c : Surroundings} {s : ParseState} (hs : T.At σ c s)
    (hdeclared : s.declared = []) :
    g.script.Yields c s fun p _ => Hoists T.significant p.body p.varNames ∧
      ∀ t ∈ p.body, (Part.statement t).Known T { σ with strict := p.strict } := by
  refine .bind (collects_body (fun _ => collects_statementListItem hg) c s hs)
    fun r s₁ ⟨marks, hcollects, hbody⟩ => ?_
  have hvars : Hoists T.significant r.1 s₁.declared := by
    obtain ⟨used, hused, hmarks⟩ := hcollects.tokens
    have hwithin : used <:+: T.significant :=
      (hused ▸ (List.prefix_append _ _).isInfix).trans hs.significant.isInfix
    refine ⟨marks, hmarks.within hwithin, hbody.names, ?_⟩
    rw [hcollects.declared, hdeclared, distinctNames]
  refine .bind (P := fun _ s' => s' = s₁) (fun _ _ heq => by cases heq; rfl) fun _ s₂ h₂ => ?_
  subst h₂
  dsimp only
  split
  · exact .fail
  refine .bind (Plain.yields c s₂) fun _ s₃ h₃ => ?_
  refine .bind (P := fun names s' => names = s₃.declared) (fun _ _ heq => by cases heq; rfl)
    fun names s₄ hnames => .pure ⟨?_, hbody.known⟩
  rw [hnames, h₃.rest]
  exact hvars

end Grammar

end Ecma
