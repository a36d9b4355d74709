import Ecma.Proofs.Syntax.Spelling
import Ecma.Proofs.Syntax.StrictNames

/-! The string literals of strict code. They have the escapes that strict code allows, apart from
those in a directive prologue before the directive that makes the code strict: their values are read
before it is known. -/

namespace Ecma

open Parse

/-- Between two states stand the tokens of a function from its parameters on: those inside the
braces of its body, and before them none that is a brace. -/
def ParseState.Braces (before : ParseState) (inner : List Token) (after : ParseState) : Prop :=
  ∃ head left right,
    before.tokens.significant = head ++ left :: (inner ++ right :: after.tokens.significant) ∧
      (∀ t ∈ head, t.kind ≠ .punctuator .leftBrace) ∧ left.kind = .punctuator .leftBrace ∧
      right.kind = .punctuator .rightBrace

namespace ParseState

/-- Tokens are taken, none of them an opening brace. -/
def Braceless (before after : ParseState) : Prop :=
  ∃ used, before.tokens.significant = used ++ after.tokens.significant ∧
    ∀ t ∈ used, t.kind ≠ .punctuator .leftBrace

theorem Braceless.of_eq {s s' : ParseState} (h : s'.tokens = s.tokens) : s.Braceless s' :=
  ⟨[], by rw [h, List.nil_append], by simp⟩

theorem Braceless.next {s s' s'' : ParseState} {t : Token} (h : s.Braceless s')
    (htaken : s'.tokens.significant = t :: s''.tokens.significant)
    (ht : t.kind ≠ .punctuator .leftBrace) : s.Braceless s'' := by
  obtain ⟨used, hused, hnone⟩ := h
  refine ⟨used ++ [t], by rw [hused, htaken]; simp, ?_⟩
  exact List.forall_mem_append.mpr ⟨hnone, List.forall_mem_singleton.mpr ht⟩

end ParseState

namespace Grammar

variable {g : Grammar}

theorem yields_formalParameters_tokens {c : Surroundings} {s : ParseState} :
    g.formalParameters.Yields c s fun _ s' => s.Braceless s' := by
  refine .bind yields_expect fun _ s₁ h₁ => ?_
  obtain ⟨left, hleft, htaken⟩ := h₁
  refine .loop (fun _ s' => s.Braceless s') (fun params s₂ h₂ => ?_)
    (ParseState.Braceless.next (.of_eq rfl) htaken (by simp [hleft]))
  refine .bind yields_eatKind fun closed s₃ h₃ => ?_
  split
  · next hclosed =>
    obtain ⟨t, ht, htaken⟩ := h₃.1 hclosed
    exact .pure (h₂.next htaken (by simp [ht]))
  next hclosed =>
  obtain rfl := h₃.2 (by simpa using hclosed)
  refine .bind .atKind fun rest s₄ h₄ => ?_
  obtain ⟨rfl, -⟩ := h₄
  split
  · exact .fail
  refine .bind .bindingIdentifier fun name s₅ h₅ => ?_
  obtain ⟨-, t, ht, -, -, htaken⟩ := h₅
  have hname : s.Braceless s₅ := h₂.next htaken (by rcases ht with ht | ht <;> simp [ht])
  refine .bind .atKind fun default s₆ h₆ => ?_
  obtain ⟨rfl, -⟩ := h₆
  split
  · exact .fail
  refine .bind .atKind fun closes s₇ h₇ => ?_
  obtain ⟨rfl, -⟩ := h₇
  split
  · refine .bind yields_expect fun _ s₈ h₈ => .pure ?_
    obtain ⟨comma, hcomma, htaken⟩ := h₈
    exact hname.next htaken (by simp [hcomma])
  · exact .pure hname

variable [hg : g.Spells]

theorem yields_functionParts_tokens {c : Surroundings} {s : ParseState} (name : Option String)
    (kind : FunctionKind) : (g.functionParts name kind).Yields c s fun r s' =>
      ∃ inner, s.Braces inner s' ∧ (c.strict = true → ∀ t ∈ inner, t.IsStrict) ∧
        (c.strict = false → r.2.2 = true → StrictFrom inner) := by
  refine .bind (P := fun _ s' => s' = s) (fun _ _ heq => by cases heq; rfl) fun start s₁ h₁ => ?_
  obtain rfl := h₁
  refine .bind yields_formalParameters_tokens fun params s₂ h₂ => ?_
  refine .bind yields_expect fun _ s₃ h₃ => .bind (yields_body c s₃) fun r s₄ h₄ => ?_
  refine .bind yields_expect fun _ s₅ h₅ => .bind (Still.yields c s₅) fun _ s₆ h₆ => ?_
  obtain ⟨head, hhead, hbraceless⟩ := h₂
  obtain ⟨left, hleft, htakenLeft⟩ := h₃
  obtain ⟨inner, htakes, hown⟩ := h₄
  obtain ⟨right, hright, htakenRight⟩ := h₅
  split
  · exact .fail
  refine .bind (Still.yields c s₆) fun _ s₇ h₇ => .pure ⟨inner, ?_, htakes.strictly, hown⟩
  refine ⟨head, left, right, ?_, hbraceless, hleft, hright⟩
  rw [hhead, htakenLeft, htakes.tokens, htakenRight, h₇, h₆]

theorem yields_functionRest_tokens {c : Surroundings} {s : ParseState} (name : Option String)
    (kind : FunctionKind) (start : Nat) (superProperty superCall : Bool) :
    (g.functionRest name kind start superProperty superCall).Yields c s fun f s' =>
      ∃ inner, s.Braces inner s' ∧ (c.strict = true → ∀ t ∈ inner, t.IsStrict) ∧
        (c.strict = false → f.strict = true → StrictFrom inner) := by
  refine .bind (Still.yields c s) fun _ s₁ h₁ => .bind (Still.yields c s₁) fun _ s₂ h₂ => ?_
  refine .bind (.withReader (yields_functionParts_tokens name kind)) fun r s₃ h => ?_
  obtain ⟨inner, hbraces, htokens⟩ := h
  refine .bind (Still.yields c s₃) fun _ s₄ h₄ => .bind (Still.yields c s₄) fun _ s₅ h₅ => ?_
  refine .bind (Still.yields c s₅) fun _ s₆ h₆ => .pure ⟨inner, ?_, htokens⟩
  unfold ParseState.Braces at hbraces ⊢
  rwa [h₆, h₅, h₄, ← h₁, ← h₂]

theorem yields_script_tokens {c : Surroundings} {s : ParseState} (hc : c.strict = false) :
    g.script.Yields c s fun p _ => p.strict = true → StrictFrom s.tokens.significant := by
  have : g.statementListItem.Directs := inferInstance
  refine .bind (yields_body c s) fun r s₁ h => ?_
  refine .bind (P := fun b s' => s' = s₁ ∧ b = s₁.tokens.isAtEnd)
    (fun _ _ heq => by cases heq; exact ⟨rfl, rfl⟩) fun b s₂ h₂ => ?_
  obtain ⟨rfl, hend⟩ := h₂
  obtain ⟨used, htakes, hown⟩ := h
  dsimp only
  split
  · exact .fail
  next hb =>
  refine .after fun _ _ => .after fun _ _ => .pure fun hstrict => ?_
  have hnone : s₂.tokens.significant = [] := by
    rw [hend] at hb
    rw [← List.head?_eq_none_iff, ← TokenStream.peek?_eq]
    simpa [TokenStream.isAtEnd] using hb
  rw [htakes.tokens, hnone, List.append_nil]
  exact hown hc hstrict

end Grammar

namespace Program

/-- In a strict script and in the body of a strict function each string literal has the escapes that
strict code allows, apart from those in front of the directive that makes the code strict. -/
theorem strict_string_literals {source : String} {p : Program} (hparse : parse source = .ok p) :
    let tokens := (Lexed.ofString source).tokens.filter Token.isSignificant
    (p.strict = true → Grammar.StrictFrom tokens) ∧
      ∀ (l : Place) (f : FunctionDef) (superProperty superCall : Bool), l.program = p →
        l.Has (.function f superProperty superCall) → f.strict = true →
          (∃ s s', f.Run tokens l.isStrict s s') ∧
            ∀ s s', f.Run tokens l.isStrict s s' → ∃ inner, s.Braces inner s' ∧
              (l.isStrict = true → ∀ t ∈ inner, t.IsStrict) ∧
              (l.isStrict = false → Grammar.StrictFrom inner) := by
  intro tokens
  refine ⟨fun hstrict => ?_, fun l f superProperty superCall hl hf hstrict => ⟨?_, ?_⟩⟩
  · obtain ⟨stream, depth, s', htokens, hscript⟩ := script_of_parse hparse
    have := Grammar.spells_ofFuel depth
    have hown := Grammar.yields_script_tokens rfl p s' hscript hstrict
    rwa [htokens] at hown
  · subst hl
    obtain ⟨here, -⟩ := hf.each (known_of_parse hparse).2
    exact (here f rfl).run
  · intro s s' hrun
    obtain ⟨depth, c, start, superProperty, superCall, hc, hread⟩ := hrun.reads
    have := Grammar.spells_ofFuel depth
    obtain ⟨inner, hbraces, hinherited, hown⟩ :=
      Grammar.yields_functionRest_tokens _ _ _ _ _ f s' hread
    rw [hc] at hinherited hown
    exact ⟨inner, hbraces, hinherited, fun hsloppy => hown hsloppy hstrict⟩

/-- A literal before the directive of a function that only sloppy code allows, and one behind it. -/
theorem strict_string_literals_function :
    let source := "function f() \x7b '\\01'; 'use strict'; 'b'; \x7d"
    let tokens := (Lexed.ofString source).tokens.filter Token.isSignificant
    ∃ p, parse source = .ok p ∧ p.strict = false ∧
      (Stmt.functionsOf p.body).map FunctionDef.strict = [true] ∧
      (p.strict = true → Grammar.StrictFrom tokens) ∧
      ∀ (l : Place) (f : FunctionDef) (superProperty superCall : Bool), l.program = p →
        l.Has (.function f superProperty superCall) → f.strict = true →
          (∃ s s', f.Run tokens l.isStrict s s') ∧
            ∀ s s', f.Run tokens l.isStrict s s' → ∃ inner, s.Braces inner s' ∧
              (l.isStrict = true → ∀ t ∈ inner, t.IsStrict) ∧
              (l.isStrict = false → Grammar.StrictFrom inner) := by
  intro source tokens
  have hstrict : ((parse source).toOption.map fun p =>
      (p.strict, (Stmt.functionsOf p.body).map FunctionDef.strict)) = some (false, [true]) := by
    decide +kernel
  cases hparse : parse source with
  | error e =>
    rw [hparse] at hstrict
    cases hstrict
  | ok p =>
    rw [hparse] at hstrict
    obtain ⟨hscript, hfunction⟩ := Prod.mk.inj (Option.some.inj hstrict)
    exact ⟨p, rfl, hscript, hfunction, strict_string_literals hparse⟩

/-- A strict script with a string literal that strict code cannot have. -/
theorem strict_string_literals_octal :
    let source := "'\\01'; 'use strict';"
    ∃ p, parse source = .ok p ∧ p.strict = true ∧ ∃ t ∈ (Lexed.ofString source).tokens,
      t.kind = .stringLiteral ∧ StringLiteral.value true t.text = .error .octalEscapeInStrict := by
  intro source
  have hstrict : (parse source).toOption.map Program.strict = some true := by
    decide +kernel
  have htoken : (Lexed.ofString source).tokens.head?.map (fun t =>
      (t.kind, StringLiteral.value true t.text)) =
        some (.stringLiteral, .error .octalEscapeInStrict) := by
    decide +kernel
  obtain ⟨t, ht, hvalue⟩ := Option.map_eq_some_iff.mp htoken
  obtain ⟨hkind, hvalue⟩ := Prod.mk.inj hvalue
  cases hparse : parse source with
  | error e =>
    rw [hparse] at hstrict
    cases hstrict
  | ok p =>
    rw [hparse] at hstrict
    exact ⟨p, rfl, Option.some.inj hstrict, t, List.mem_of_head? ht, hkind, hvalue⟩

end Program

end Ecma
