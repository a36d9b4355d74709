import Ecma.Proofs.Syntax.Dynamic
import Ecma.Proofs.Syntax.StrictNames

/-! Function expressions from the steps that read them. What stands around a function does not matter
to it, but whether the code there is strict and in a class; neither does the place of its text. -/

namespace Ecma

open Parse

/-! ### Productions to which little of what stands around them matters -/

/-- The same text, strict code in both or in none, in a class in both or in none. -/
structure Surroundings.Alike (c c' : Surroundings) : Prop where
  source : c'.source = c.source
  strict : c'.strict = c.strict
  inClass : c'.inClass = c.inClass

theorem Surroundings.Alike.inside {c c' : Surroundings} (h : c.Alike c')
    (superProperty superCall : Bool) :
    c'.inside superProperty superCall = c.inside superProperty superCall := by
  cases c
  cases c'
  obtain ⟨rfl, rfl, rfl⟩ := h
  rfl

namespace Parse

variable {α β : Type} {p q : Parse α}

/-- A production has the same result in surroundings that are alike, whatever is declared so far, and
declares nothing. -/
class Apart (p : Parse α) : Prop where
  yields : ∀ {c c'} s names, c.Alike c' → p.Yields c s fun a s' =>
    p c' { s with declared := names } = .ok (a, { s' with declared := names })

namespace Apart

instance (priority := low) [p.Fails] : p.Apart :=
  ⟨fun _ _ _ => .fail⟩

instance (a : α) : (pure a : Parse α).Apart :=
  ⟨fun _ _ _ => .pure rfl⟩

theorem bind {f : α → Parse β} [hp : p.Apart] (hf : ∀ a, (f a).Apart) : (p >>= f).Apart := by
  refine ⟨fun s names hc => .bind (hp.yields s names hc) fun a s' ha => ?_⟩
  refine ((hf a).yields s' names hc).mono fun b s'' hb => ?_
  rw [bind_of_ok ha, hb]

instance {f : α → Parse β} [p.Apart] [hf : ∀ a, (f a).Apart] : (p >>= f).Apart :=
  .bind hf

instance {f : α → β} [p.Apart] : (f <$> p).Apart := by
  rw [map_eq_pure_bind]
  infer_instance

instance {b : Prop} [Decidable b] [p.Apart] [q.Apart] : (if b then p else q).Apart := by
  split <;> infer_instance

/-- A check that rejects the text, or passes. -/
theorem guard {b : Prop} [Decidable b] {f : α → Parse β} {y : Parse β} [p.Fails] (hy : y.Apart) :
    (if b then p >>= f else y).Apart := by
  split <;> infer_instance

instance : location.Apart :=
  ⟨fun _ _ _ _ _ heq => by cases heq; rfl⟩

instance : peek?.Apart :=
  ⟨fun _ _ _ _ _ heq => by cases heq; rfl⟩

instance (kind : TokenKind) : (atKind kind).Apart :=
  ⟨fun _ _ _ _ _ heq => by cases heq; rfl⟩

instance (x : Punctuator) : (atPunct x).Apart := by unfold atPunct; infer_instance

instance : strict.Apart := by
  refine ⟨fun s names hc a s' heq => ?_⟩
  cases heq
  exact congrArg (fun b => Except.ok (b, _)) hc.strict

instance : peek.Apart := by
  refine .bind fun t => ?_
  cases t <;> infer_instance

instance : skip.Apart := by
  refine ⟨fun {c c'} s names hc a s' heq => ?_⟩
  unfold skip at heq ⊢
  rw [get_bind] at heq ⊢
  dsimp only at heq ⊢
  cases hnext : s.tokens.next? with
  | none =>
    rw [hnext] at heq
    cases heq
    rfl
  | some next =>
    rw [hnext] at heq
    cases heq
    rfl

instance (kind : TokenKind) : (eatKind kind).Apart := by unfold eatKind; infer_instance

instance (k : Keyword) : (expectKeyword k).Apart := by
  unfold expectKeyword eatKeyword
  infer_instance

instance (name : String) (l : Location) : (checkBinding name l).Apart := by
  unfold checkBinding
  infer_instance

instance : bindingIdentifier.Apart := by
  refine .bind fun t => ?_
  split <;> infer_instance

end Apart

end Parse

namespace Grammar

variable {g : Grammar} {c : Surroundings} {s s₁ s₂ s₃ s₄ : ParseState}

/-! ### Functions from their steps -/

theorem checkBinding_eq {name : String} (l : Location)
    (h : c.strict = true → isRestrictedName name = false) :
    checkBinding name l c s = .ok ((), s) := by
  unfold checkBinding
  rw [bind_of_ok strict_eq]
  cases hc : c.strict with
  | false => rfl
  | true =>
    have hallowed := h hc
    rw [isRestrictedName, Bool.or_eq_false_iff, Bool.or_eq_false_iff] at hallowed
    rw [if_pos rfl, hallowed.1.1, hallowed.1.2, hallowed.2]
    rfl

/-- By induction on the names that are still to be checked. -/
theorem checkBindings_eq {names : List String} (l : Location)
    (h : c.strict = true → ∀ name ∈ names, isRestrictedName name = false) :
    (forIn names PUnit.unit fun name _ => do
      checkBinding name l
      return ForInStep.yield PUnit.unit : Parse PUnit) c s = .ok (PUnit.unit, s) := by
  induction names with
  | nil => rfl
  | cons name rest ih =>
    rw [List.forIn_cons, bind_assoc,
      bind_of_ok (checkBinding_eq l fun hc => h hc name List.mem_cons_self)]
    exact ih fun hc other hother => h hc other (List.mem_cons_of_mem _ hother)

/-- The parameters and the body of a function that is no method, if its names may be declared. -/
theorem functionParts_of_steps {f : FunctionDef} (h : f.Steps g c s s₁ s₂ s₃ s₄)
    {name : Option String} (hnames : f.strict = true → f.params.Nodup ∧
      ∀ word ∈ name.toList ++ f.params, isRestrictedName word = false) :
    g.functionParts name .normal c s = .ok ((f.params, f.body, f.strict), s₄) := by
  have hchecks : (withReader (fun c => { c with strict := f.strict }) do
      for declared in name.toList ++ f.params do
        checkBinding declared s.tokens.location : Parse Unit) c s₄ = .ok ((), s₄) :=
    (bind_of_ok (checkBindings_eq (c := { c with strict := f.strict }) _
      fun hstrict => (hnames hstrict).2)).trans rfl
  have hdistinct :
      ((f.strict || FunctionKind.normal != .normal) && hasDuplicate f.params) = false := by
    cases hstrict : f.strict with
    | false => rfl
    | true => exact hasDuplicate_eq_false (hnames hstrict).1
  have hdeclared : checkDeclarations true (f.params ++ Stmt.varNamesOf f.body) f.body c s₄ =
      .ok ((), s₄) := by
    unfold checkDeclarations
    rw [h.names]
    rfl
  unfold functionParts
  rw [bind_of_ok (show location c s = .ok (s.tokens.location, s) from rfl),
    bind_of_ok h.parameters, bind_of_ok h.opens, bind_of_ok h.body]
  dsimp only
  rw [bind_of_ok h.closes, bind_of_ok hchecks, hdistinct, if_neg Bool.false_ne_true,
    bind_of_ok hdeclared]
  rfl

/-- A function that is no method, if the text behind its start is its own. -/
theorem functionRest_of_steps {f : FunctionDef} {name : Option String} {start : Nat}
    {superProperty superCall : Bool} {s' : ParseState}
    (h : f.Steps g (c.inside superProperty superCall) { s with declared := [] } s₁ s₂ s₃ s₄)
    (hcloses : f.Closes name .normal start c s s₄ s')
    (hnames : f.strict = true → f.params.Nodup ∧
      ∀ word ∈ name.toList ++ f.params, isRestrictedName word = false) :
    g.functionRest name .normal start superProperty superCall c s = .ok (f, s') := by
  have hparts := functionParts_of_steps h hnames
  obtain ⟨rfl, hkind, hvars, hsource, rfl⟩ := hcloses
  have hinside : (withReader (fun c =>
      { c with
        noIn := false, inFunction := true, inIteration := false, inSwitch := false, labels := []
        superProperty, superCall }) (g.functionParts f.name .normal)) c { s with declared := [] } =
      .ok ((f.params, f.body, f.strict), s₄) := hparts
  unfold functionRest
  rw [bind_of_ok (show varNames c s = .ok (s.declared, s) from rfl),
    bind_of_ok (show (modify fun s => { s with declared := [] } : Parse PUnit) c s =
      .ok ((), { s with declared := [] }) from rfl), bind_of_ok hinside]
  cases f
  subst hkind hvars hsource
  rfl

instance (name : Option String) (start : Nat) :
    (g.functionRest name .normal start false false).Apart := by
  refine ⟨fun {c c'} s names hc f s' heq => ?_⟩
  obtain ⟨-, hnames⟩ := yields_functionRest_names List.suffix_rfl _ _ _ _ _ f s' heq
  obtain ⟨s₁, s₂, s₃, s₄, hsteps, hname, hkind, hvars, hsource, rfl⟩ :=
    yields_functionRest_steps _ _ _ _ _ f s' heq
  rw [← hc.source] at hsource
  rw [← hc.inside] at hsteps
  exact functionRest_of_steps hsteps ⟨hname, hkind, hvars, hsource, rfl⟩ hnames

/-! ### Function expressions from their steps -/

/-- The name of a function expression, which may be left out. -/
def functionName? : Parse (Option String) := do
  if ← atPunct .star then unsupported "Generator functions"
  if ← atPunct .leftParen then pure none else some <$> bindingIdentifier

instance : functionName?.Apart :=
  .bind fun _ => .guard inferInstance

theorem functionExpression_eq : g.functionExpression = (do
    let start ← location
    expectKeyword .functionKw
    let name ← functionName?
    return .function (← g.functionRest name .normal start.offset false false)) := by
  unfold functionExpression functionName?
  simp only [bind_assoc]
  refine bind_congr fun start => bind_congr fun _ => bind_congr fun isGenerator => ?_
  have hname (b : Bool) : (if b = true then pure none else some <$> bindingIdentifier) >>=
      (fun name => do
        return .function (← g.functionRest name .normal start.offset false false) : _ → Parse Expr) =
      if b = true then do
        return .function (← g.functionRest none .normal start.offset false false)
      else do
        let name ← some <$> bindingIdentifier
        return .function (← g.functionRest name .normal start.offset false false) := by
    cases b <;> rfl
  cases isGenerator <;>
    simp only [Bool.false_eq_true, if_false, if_true, bind_assoc, hname, pure_bind]

instance : g.functionExpression.Apart := by
  rw [functionExpression_eq]
  infer_instance

/-- The states that a function expression is read through, behind its keyword and its name. -/
theorem yields_functionExpression_steps : g.functionExpression.Yields c s fun e s' =>
    ∃ s₁ s₂ x name f, e = .function f ∧ s.Next x s₁.lexemes s₁ ∧ x.1 = .keyword .functionKw ∧
      functionName? c s₁ = .ok (name, s₂) ∧
        g.functionRest name .normal s.tokens.location.offset false false c s₂ = .ok (f, s') := by
  rw [functionExpression_eq]
  refine .bind (P := fun l s' => l = s.tokens.location ∧ s' = s)
    (fun _ _ heq => by cases heq; exact ⟨rfl, rfl⟩) fun l s₀ h₀ => ?_
  obtain ⟨rfl, rfl⟩ := h₀
  refine .bind yields_expectKeyword_next fun _ s₁ h₁ => ?_
  obtain ⟨x, hnext, hx⟩ := h₁
  refine .bind .self fun name s₂ h₂ => .bind .self fun f s₃ h₃ => .pure ?_
  exact ⟨s₁, s₂, x, name, f, rfl, hnext, hx, h₂, h₃⟩

theorem functionExpression_of_steps {x : Lexeme} {name : Option String} {f : FunctionDef}
    {s' : ParseState} (hnext : s.Next x s₁.lexemes s₁) (hx : x.1 = .keyword .functionKw)
    (hname : functionName? c s₁ = .ok (name, s₂))
    (hrest : g.functionRest name .normal s.tokens.location.offset false false c s₂ = .ok (f, s')) :
    g.functionExpression c s = .ok (.function f, s') := by
  rw [functionExpression_eq, bind_of_ok (show location c s = .ok (s.tokens.location, s) from rfl),
    bind_of_ok (expectKeyword_next hnext hx), bind_of_ok hname, bind_of_ok hrest]
  rfl

theorem primary_function (h : g.functionExpression c s = .ok (e, s')) :
    g.primary c s = .ok (e, s') := by
  obtain ⟨s₁, -, x, -, -, -, hnext, hx, -⟩ := yields_functionExpression_steps _ s' h
  obtain ⟨t, hpeek, rfl⟩ := peek_next (c := c) hnext
  have hkind : t.kind = .keyword .functionKw := hx
  unfold primary
  rw [bind_of_ok hpeek]
  simp only [hkind]
  exact h

/-! ### The same function in another text -/

variable {i : Excerpt} {n m : Nat} {f : FunctionDef} {s' t : ParseState}

theorem functionRest_of_copy {name : Option String} {start start' : Nat}
    (h : (ofFuel n).functionRest name .normal start false false c s = .ok (f, s'))
    (hend : s'.tokens.remaining = i.left) (hc : c.source = i.source) (hjoined : i.Joined s t)
    (hstart : i.Marks start start') (hlt : t.tokens.remaining < m) :
    ∃ t', (ofFuel m).functionRest name .normal start' false false (i.around c) t = .ok (f, t') ∧
      t'.tokens.rest = i.rest' := by
  have := copies_ofFuel i m n
  have hproductions := moves_ofFuel n
  obtain ⟨-, hnames⟩ := yields_functionRest_names List.suffix_rfl _ _ _ _ _ f s' h
  obtain ⟨s₁, s₂, s₃, s₄, hsteps, hcloses⟩ := yields_functionRest_steps _ _ _ _ _ f s' h
  have hopens : (expect .leftBrace).Moves 1 1 := inferInstance
  have hbody : ((ofFuel n).body (ofFuel n).item).Moves 0 1 := inferInstance
  have hshuts : (expect .rightBrace).Moves 1 1 := inferInstance
  have hopened := (hopens.yields _ _ _ _ hsteps.opens).remaining
  have hread := (hbody.yields _ _ _ _ hsteps.body).remaining
  have hshut := (hshuts.yields _ _ _ _ hsteps.closes).remaining
  have hend₄ : s₄.tokens.remaining = i.left := by rw [← hend, hcloses.state]
  have hjoined₀ : i.Joined { s with declared := [] } { t with declared := [] } :=
    ⟨hjoined.tokens, hjoined.previousEnd, hjoined.references, rfl⟩
  have hparameters : i.Agrees m 0 1 (ofFuel n).formalParameters (ofFuel m).formalParameters := by
    have hagrees : i.Agrees (ofFuel m).fuel 0 1 (ofFuel n).formalParameters
        (ofFuel m).formalParameters := inferInstance
    rwa [fuel_ofFuel_eq] at hagrees
  have hbrace : i.Agrees m 0 1 (expect .leftBrace) (expect .leftBrace) := inferInstance
  obtain ⟨t₁, hparameters', hjoined₁, htaken⟩ :=
    hparameters.exists_joined hsteps.parameters (by omega) hc hjoined₀ hlt
  dsimp only at htaken
  obtain ⟨t₂, hopens', hjoined₂, htaken'⟩ :=
    hbrace.exists_joined hsteps.opens (by omega) hc hjoined₁ (by omega)
  obtain ⟨t₃, t₄, hbody', hcloses', hrest, hmarks, -, hdeclared⟩ :=
    body_of_copy (m := m) hsteps.body hsteps.closes hend₄ hc hjoined₂ (by omega)
  refine ⟨{ t₄ with declared := t.declared }, ?_, hrest⟩
  refine functionRest_of_steps ⟨hparameters', hopens', hbody', hcloses', hsteps.names⟩
    ⟨hcloses.name, hcloses.kind, hcloses.varNames.trans hdeclared.symm, ?_, rfl⟩ hnames
  rw [hcloses.source, hc, ← hstart.slice_eq hmarks]
  rfl

/-- A function expression at the end of a stretch of text is the same one wherever the stretch
stands. -/
theorem functionExpression_of_copy {u u' : Token} {tokens tokens' : TokenStream}
    (h : (ofFuel n).functionExpression c s = .ok (.function f, s'))
    (hend : s'.tokens.remaining = i.left) (hc : c.source = i.source)
    (hs : s.tokens.next? = some (u, tokens)) (ht : t.tokens.next? = some (u', tokens'))
    (hsame : i.Same u u') (hjoined : i.Joined { s with tokens } { t with tokens := tokens' })
    (hlt : tokens'.remaining < m) :
    ∃ t', (ofFuel m).functionExpression (i.around c) t = .ok (.function f, t') ∧
      t'.tokens.rest = i.rest' := by
  obtain ⟨s₁, s₂, x, name, f', heq, hnext, hx, hname, hrest⟩ :=
    yields_functionExpression_steps _ s' h
  cases heq
  obtain ⟨v, hv, rfl⟩ := hnext.next
  obtain ⟨rfl, rfl⟩ := Prod.mk.inj (Option.some.inj (hs.symm.trans hv))
  rw [← hnext.same] at hjoined
  have hproductions := moves_ofFuel n
  have hmoves (start : Nat) : ((ofFuel n).functionRest name .normal start false false).Moves 1 1 :=
    inferInstance
  have hread := ((hmoves _).yields _ _ _ _ hrest).remaining
  have hagrees : i.Agrees m 0 0 functionName? functionName? :=
    .step fun _ => .guard inferInstance
  obtain ⟨t₂, hname', hjoined₂, htaken⟩ :=
    hagrees.exists_joined hname (by omega) hc hjoined hlt
  dsimp only at htaken
  have hstart : i.Marks s.tokens.location.offset t.tokens.location.offset := by
    rw [TokenStream.location_of_next? hs, TokenStream.location_of_next? ht]
    exact hsame.start
  obtain ⟨t', hrest', hbehind⟩ := functionRest_of_copy (m := m) hrest hend hc hjoined₂ hstart
    (by omega)
  have hnext' : t.Next u'.lexeme _ { t with tokens := tokens' } := ⟨⟨u', ht, rfl⟩, rfl, rfl⟩
  exact ⟨t', functionExpression_of_steps hnext' (hsame.kind.trans hx) hname' hrest', hbehind⟩

/-! ### Where a function expression stands -/

/-- A function expression goes from its keyword to the brace that ends its body, and so does its
source text. -/
theorem functionExpression_stretch
    (h : (ofFuel n).functionExpression c s = .ok (.function f, s')) :
    ∃ u tokens inner closing, s.tokens.next? = some (u, tokens) ∧
      u.kind = .keyword .functionKw ∧ tokens.rest = inner ++ closing :: s'.tokens.rest ∧
      closing.kind = .punctuator .rightBrace ∧
      f.source = String.ofList (slice u.location.offset closing.endOffset 0 c.source) := by
  obtain ⟨s₁, s₂, x, name, f', heq, hnext, hx, hname, hrest⟩ :=
    yields_functionExpression_steps _ s' h
  cases heq
  obtain ⟨u, hu, rfl⟩ := hnext.next
  obtain ⟨p₁, p₂, p₃, p₄, hsteps, hcloses⟩ := yields_functionRest_steps _ _ _ _ _ f s' hrest
  have hproductions := moves_ofFuel n
  have hnames : functionName?.Moves 0 0 := .step fun _ => .guard inferInstance
  have hparameters : (ofFuel n).formalParameters.Moves 1 1 := inferInstance
  have hopens : (expect .leftBrace).Moves 1 1 := inferInstance
  have hbody : ((ofFuel n).body (ofFuel n).item).Moves 0 1 := inferInstance
  -- The tokens are taken one by one, so those of the body end right before the brace.
  have hreaches : s₁.tokens.Reaches p₃.tokens :=
    (((hnames.yields _ _ _ _ hname).reaches.trans
      (hparameters.yields _ _ _ _ hsteps.parameters).reaches).trans
      (hopens.yields _ _ _ _ hsteps.opens).reaches).trans (hbody.yields _ _ _ _ hsteps.body).reaches
  obtain ⟨front, hfront⟩ := hreaches.exists_front
  obtain ⟨y, hlast, hy⟩ := yields_expect_next _ p₄ hsteps.closes
  obtain ⟨closing, hclosing, rfl⟩ := hlast.next
  obtain ⟨-, skipped, hskipped⟩ := TokenStream.exists_of_next? hclosing
  refine ⟨u, s₁.tokens, front ++ skipped, closing, hu, hx, ?_, hy, ?_⟩
  · rw [hfront, hskipped, hcloses.state, List.append_assoc]
  · rw [hcloses.source, TokenStream.location_of_next? hu, TokenStream.previousEnd_of_next? hclosing]

end Grammar

end Ecma
