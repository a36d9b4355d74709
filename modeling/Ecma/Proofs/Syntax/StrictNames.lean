import Ecma.Proofs.Syntax.Variables

/-! The names of strict functions. A function may become strict by a directive in its own body, when
its name and its parameters have been read; they are checked again then. -/

namespace Ecma

open Parse

/-! ### Checks of names -/

/-- What the check of a declared name in strict code rejects. -/
def isRestrictedName (name : String) : Bool :=
  isStrictReservedWord name || name == "eval" || name == "arguments"

theorem Grammar.nodup_of_hasDuplicate {names : List String} (h : hasDuplicate names = false) :
    names.Nodup := by
  induction names with
  | nil => exact List.nodup_nil
  | cons name rest ih =>
    rw [hasDuplicate, Bool.or_eq_false_iff] at h
    refine List.nodup_cons.mpr ⟨fun hmem => ?_, ih h.2⟩
    rw [List.contains_iff_mem.mpr hmem] at h
    exact absurd h.1 (by decide)

theorem Grammar.hasDuplicate_eq_false {names : List String} (h : names.Nodup) :
    hasDuplicate names = false := by
  induction names with
  | nil => rfl
  | cons name rest ih =>
    obtain ⟨hnew, hrest⟩ := List.nodup_cons.mp h
    rw [hasDuplicate, ih hrest, Bool.or_false, ← Bool.not_eq_true, List.contains_iff_mem]
    exact hnew

namespace Parse

variable {c : Surroundings} {s : ParseState}

theorem yields_checkBinding (name : String) (l : Location) : (checkBinding name l).Yields c s
    fun _ _ => c.strict = true → isRestrictedName name = false := by
  refine .read ?_
  split
  · dsimp only
    split
    · exact .fail
    next hreserved =>
    split
    · exact .fail
    next hwords =>
    refine .pure fun _ => ?_
    simp only [Bool.or_eq_true, not_or, Bool.not_eq_true] at hreserved hwords
    rw [isRestrictedName, hreserved, hwords.1, hwords.2]
    rfl
  · next hsloppy => exact .pure fun hstrict => absurd hstrict hsloppy

/-- By induction on the names that are still to be checked. -/
theorem yields_checkBindings (names : List String) (l : Location) :
    (forIn names PUnit.unit fun name _ => do
      checkBinding name l
      return ForInStep.yield PUnit.unit : Parse PUnit).Yields c s
    fun _ _ => c.strict = true → ∀ name ∈ names, isRestrictedName name = false := by
  induction names generalizing s with
  | nil => exact .pure (by simp)
  | cons name rest ih =>
    rw [List.forIn_cons, bind_assoc]
    refine .bind (yields_checkBinding name l) fun _ s' hname => ih.mono fun _ _ hrest hstrict => ?_
    exact List.forall_mem_cons.mpr ⟨hname hstrict, hrest hstrict⟩

end Parse

namespace Grammar

variable {T : Origin} {σ : CodeMode} {g : Grammar}

theorem finds_formalParameters : g.formalParameters.Finds T σ fun params =>
    ∀ name ∈ params, BindingName T.significant σ.strict name := by
  refine .skip fun _ => Finds.loop
    (fun params => ∀ name ∈ params, BindingName T.significant σ.strict name)
    (fun params hparams => ?_) (by simp)
  refine .skip fun _ => ?_
  split
  · exact .found fun name hname => hparams name (List.mem_reverse.mp hname)
  refine .skip fun _ => .guard <| .find finds_bindingIdentifier fun name hname => ?_
  refine .skip fun _ => .guard <| .skip fun _ => .optional fun _ => .found ?_
  exact List.forall_mem_cons.mpr ⟨hname, hparams⟩

/-- The names are checked again as strict as the body turns out to be. -/
theorem yields_functionParts {tokens : List Token} {c : Surroundings} {s : ParseState}
    (hs : s.tokens.significant <:+ tokens) (name : Option String) (kind : FunctionKind) :
    (g.functionParts name kind).Yields c s fun r _ =>
      (∀ word ∈ r.1, BindingName tokens c.strict word) ∧ (r.2.2 = true → r.1.Nodup ∧
        ∀ word ∈ name.toList ++ r.1, isRestrictedName word = false) := by
  refine .bind (Plain.yields c s) fun start s₁ h₁ => ?_
  refine .bind (finds_formalParameters c s₁ (.here c s₁)) fun params s₂ hfound => ?_
  obtain ⟨-, -, -, hfound⟩ := hfound
  have hparams : ∀ name ∈ params, BindingName tokens c.strict name :=
    fun name hname => (hfound name hname).of_suffix (h₁.tokens.trans hs)
  refine .after fun _ _ => .after fun r _ => .after fun _ s₃ => ?_
  have hnames : (withReader (fun c => { c with strict := r.2 }) do
      for declared in name.toList ++ params do
        checkBinding declared start : Parse Unit).Yields c s₃ fun _ _ =>
      r.2 = true → ∀ word ∈ name.toList ++ params, isRestrictedName word = false :=
    .withReader (.bind (yields_checkBindings _ start) fun _ _ h => .pure h)
  refine .bind hnames fun _ s₄ hchecked => ?_
  split
  · exact .fail
  next hdistinct =>
  refine .after fun _ _ => .pure ⟨hparams, fun hstrict => ⟨?_, hchecked hstrict⟩⟩
  refine nodup_of_hasDuplicate ?_
  simpa [show r.2 = true from hstrict] using hdistinct

theorem yields_functionRest_names {tokens : List Token} {c : Surroundings} {s : ParseState}
    (hs : s.tokens.significant <:+ tokens) (name : Option String) (kind : FunctionKind) (start : Nat)
    (superProperty superCall : Bool) :
    (g.functionRest name kind start superProperty superCall).Yields c s fun f _ =>
      (∀ word ∈ f.params, BindingName tokens c.strict word) ∧ (f.strict = true → f.params.Nodup ∧
        ∀ word ∈ name.toList ++ f.params, isRestrictedName word = false) := by
  refine .bind (Plain.yields c s) fun _ s₁ h₁ => .bind .modify fun _ s₂ h₂ => ?_
  have hs₂ : s₂.tokens.significant <:+ tokens := h₂ ▸ h₁.tokens.trans hs
  refine .bind (.withReader (yields_functionParts hs₂ name kind)) fun r _ h => ?_
  exact .after fun _ _ => .after fun _ _ => .after fun _ _ => .pure h

end Grammar

/-! ### Strict functions -/

theorem Lexed.text_of_identifier {source : String} {t : Token} (h : t ∈ (ofString source).tokens)
    (hkind : t.kind = .identifier) : t.text ≠ "let" := by
  intro htext
  have hlet := tokenText_of_mem h
  rw [hkind, htext] at hlet
  generalize htokenKind : TokenKind.identifier = kind at hlet
  generalize hchars : "let".toList = chars at hlet
  cases hlet with
  | word =>
    rw [← hchars] at htokenKind
    cases htokenKind
  | number hfirst =>
    rw [← hchars] at hfirst
    cases hfirst
  | _ => cases htokenKind

/-- In strict code no name is `let`, which is no identifier. -/
theorem BindingName.ne_let {source : String} {tokens : List Token} {name : String}
    (htokens : ∀ t ∈ tokens, t ∈ (Lexed.ofString source).tokens)
    (h : BindingName tokens true name) : name ≠ "let" := by
  obtain ⟨c, s, s', hstrict, hs, hread⟩ := h
  obtain ⟨-, t, -, hkind, rfl, htaken⟩ := Yields.bindingIdentifier name s' hread
  have hidentifier := hkind hstrict
  have hmem : t ∈ tokens := hs.subset (htaken ▸ List.mem_cons_self)
  rw [Token.declaredName, if_neg (by simp [hidentifier])]
  exact Lexed.text_of_identifier (htokens t hmem) hidentifier

/-- A function that is declared directly in a script stands in it. -/
theorem Program.has_function {source : String} {p : Program} (hparse : parse source = .ok p)
    {f : FunctionDef} (h : f ∈ Stmt.functionsOf p.body) :
    (Place.mk p []).Has (.function f false false) := by
  obtain ⟨t, ht, hf⟩ := List.mem_filterMap.mp h
  split at hf
  · cases hf
    exact .part (.script ⟨source, hparse⟩ ht) (List.mem_singleton_self _)
  · cases hf

/-- A strict function of an accepted script has distinct parameters. Neither its name nor one of them
is a word that is reserved in strict code, `eval` or `arguments`, and if one is `let` the code around
the function is not strict. -/
theorem Program.strict_function_names {source : String} {l : Place}
    (hparse : parse source = .ok l.program) {f : FunctionDef} {superProperty superCall : Bool}
    (h : l.Has (.function f superProperty superCall)) (hstrict : f.strict = true) :
    f.params.Nodup ∧ ∀ name ∈ f.name.toList ++ f.params,
      isStrictReservedWord name = false ∧ name ≠ "eval" ∧ name ≠ "arguments" ∧
        (name = "let" → l.isStrict = false) := by
  obtain ⟨here, -⟩ := h.each (known_of_parse hparse).2
  obtain ⟨s, s', hrun⟩ : ∃ s s', f.Run _ l.isStrict s s' := (here f rfl).run
  obtain ⟨depth, c, start, superProperty, superCall, hc, hread⟩ := hrun.reads
  obtain ⟨hparams, hchecked⟩ :=
    Grammar.yields_functionRest_names hrun.within _ _ _ _ _ f s' hread
  obtain ⟨hdistinct, hnames⟩ := hchecked hstrict
  refine ⟨hdistinct, fun name hname => ?_⟩
  have hallowed := hnames name hname
  simp only [isRestrictedName, Bool.or_eq_false_iff, beq_eq_false_iff_ne] at hallowed
  refine ⟨hallowed.1.1, hallowed.1.2, hallowed.2, fun hlet => ?_⟩
  have hbinding : BindingName ((Lexed.ofString source).tokens.filter Token.isSignificant)
      l.isStrict name := by
    rcases List.mem_append.mp hname with hname | hname
    · exact hrun.name name (Option.mem_toList.mp hname)
    · exact hc ▸ hparams name hname
  cases hl : l.isStrict with
  | false => rfl
  | true =>
    rw [hl] at hbinding
    exact absurd hlet (hbinding.ne_let fun t ht => List.mem_of_mem_filter ht)

theorem Program.strict_function_names_directive : ∃ p f,
    parse "function f(a, b) \x7b 'use strict'; \x7d" = .ok p ∧
      (Place.mk p []).Has (.function f false false) ∧ f.strict = true ∧ f.params = ["a", "b"] ∧
      f.params.Nodup ∧ ∀ name ∈ f.name.toList ++ f.params,
        isStrictReservedWord name = false ∧ name ≠ "eval" ∧ name ≠ "arguments" ∧
          (name = "let" → (Place.mk p []).isStrict = false) := by
  have hfunction : ((parse "function f(a, b) \x7b 'use strict'; \x7d").toOption.map fun p =>
      (Stmt.functionsOf p.body).map fun f => (f.strict, f.params)) =
        some [(true, ["a", "b"])] := by
    decide +kernel
  cases hparse : parse "function f(a, b) \x7b 'use strict'; \x7d" with
  | error e =>
    rw [hparse] at hfunction
    cases hfunction
  | ok p =>
    rw [hparse] at hfunction
    obtain ⟨f, hf, hfacts⟩ := List.mem_map.mp
      (Option.some.inj hfunction ▸ List.mem_singleton_self _)
    obtain ⟨hstrict, hparams⟩ := Prod.mk.inj hfacts
    have hhas := has_function hparse hf
    exact ⟨p, f, rfl, hhas, hstrict, hparams,
      strict_function_names (l := ⟨p, []⟩) hparse hhas hstrict⟩

/-- A strict function with a parameter that strict code cannot name. -/
theorem Program.strict_function_names_let : ∃ p f,
    parse "function f(let) \x7b 'use strict'; \x7d" = .ok p ∧
      (Place.mk p []).Has (.function f false false) ∧ f.strict = true ∧ "let" ∈ f.params := by
  have hfunction : ((parse "function f(let) \x7b 'use strict'; \x7d").toOption.map fun p =>
      (Stmt.functionsOf p.body).map fun f => (f.strict, f.params)) = some [(true, ["let"])] := by
    decide +kernel
  cases hparse : parse "function f(let) \x7b 'use strict'; \x7d" with
  | error e =>
    rw [hparse] at hfunction
    cases hfunction
  | ok p =>
    rw [hparse] at hfunction
    obtain ⟨f, hf, hfacts⟩ := List.mem_map.mp
      (Option.some.inj hfunction ▸ List.mem_singleton_self _)
    obtain ⟨hstrict, hparams⟩ := Prod.mk.inj hfacts
    exact ⟨p, f, rfl, has_function hparse hf, hstrict, hparams ▸ List.mem_singleton_self _⟩

end Ecma
