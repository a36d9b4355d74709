import Ecma.Proofs.Syntax.Production

/-! Looking ahead past labels. A label is known to be on a loop before the loop is read; here is
what the tokens say then. -/

namespace Ecma

/-- The keywords that start a loop. -/
def TokenKind.startsLoop (k : TokenKind) : Prop :=
  k = .keyword .forKw ∨ k = .keyword .whileKw ∨ k = .keyword .doKw

/-- Tokens that start with any number of labels and then a loop. -/
inductive LoopAhead : List Token → Prop
  | loop {t : Token} {rest : List Token} (ht : t.kind.startsLoop) : LoopAhead (t :: rest)
  | label {t colon : Token} {rest : List Token} (ht : t.kind = .identifier)
    (hc : colon.kind = .punctuator .colon) (h : LoopAhead rest) : LoopAhead (t :: colon :: rest)

namespace Parse

/-- What is seen ahead: an answer of the tokens, which stay where they are. -/
theorem Yields.nthIs {n : Nat} {q : Punctuator} {c : Surroundings} {s : ParseState} :
    (nthIs n q).Yields c s fun b s' => s' = s ∧ (b = true →
      ∃ t, s.tokens.significant[n]? = some t ∧ t.kind = .punctuator q) := by
  intro b s' heq
  cases heq
  refine ⟨rfl, fun h => ?_⟩
  simp only [Option.any_eq_true, beq_iff_eq] at h
  rwa [← TokenStream.peekNth?_eq]

variable {c : Surroundings} {s : ParseState}

theorem Yields.advance :
    advance.Yields c s fun t s' => s.tokens.significant = t :: s'.tokens.significant := by
  refine .bind .get fun _ _ h => ?_
  obtain ⟨rfl, rfl⟩ := h
  split
  · next t tokens hnext =>
    refine .bind .modify fun _ s' hs' => .pure ?_
    rw [hs']
    exact TokenStream.next?_eq_some hnext
  · exact .fail

theorem Yields.checkReference {t : Token} : (checkReference t).Yields c s fun _ s' => s' = s := by
  refine .read ?_
  split
  · exact .fail
  · exact .pure rfl

theorem Yields.atKind {kind : TokenKind} :
    (atKind kind).Yields c s fun b s' => s' = s ∧ b = s.tokens.check kind :=
  fun _ _ heq => by cases heq; exact ⟨rfl, rfl⟩

/-- Passing over a token that is there. -/
theorem Yields.skip (hs : s.tokens.significant ≠ []) :
    skip.Yields c s fun _ s' => ∃ t, s.tokens.significant = t :: s'.tokens.significant := by
  refine .bind .get fun _ _ h => ?_
  obtain ⟨rfl, rfl⟩ := h
  split
  · next t tokens hnext =>
    intro _ _ heq
    cases heq
    exact ⟨t, TokenStream.next?_eq_some hnext⟩
  · next hnext =>
    simp only [TokenStream.next?, Option.map_eq_none_iff] at hnext
    exact absurd (TokenStream.firstSignificant_eq_none hnext) hs

theorem Yields.eat {q : Punctuator} :
    (eat q).Yields c s fun b s' =>
      b = true → ∃ t, s.tokens.significant = t :: s'.tokens.significant := by
  refine .bind .atKind fun b s' ⟨hs, hb⟩ => ?_
  subst hs
  split
  · next htrue =>
    have hne : s'.tokens.significant ≠ [] := by
      intro hnil
      simp [hb, TokenStream.check, TokenStream.peekKind?, TokenStream.peek?_eq, hnil] at htrue
    exact .bind (.skip hne) fun _ _ h => .pure fun _ => h
  · exact .pure fun h => by cases h

theorem Yields.expect {q : Punctuator} :
    (expect q).Yields c s fun _ s' => ∃ t, s.tokens.significant = t :: s'.tokens.significant := by
  refine .bind .eat fun b s' h => ?_
  split
  · exact .fail
  · next hb => exact .pure (h (by simpa using hb))

end Parse

namespace Grammar

open Parse

/-- A label that is taken to be on a loop has a loop ahead. -/
theorem labelsLoop_loopAhead (n fuel : Nat) (c : Surroundings) (s : ParseState) :
    (labelsLoop n fuel).Yields c s fun b s' =>
      s' = s ∧ (b = true → LoopAhead (s.tokens.significant.drop n)) := by
  induction fuel generalizing n with
  | zero => exact Yields.fail (p := throw _)
  | succ fuel ih =>
    have seen : (peekNth? n).Yields c s fun t s' => s' = s ∧ t = s.tokens.significant[n]? := by
      intro t s' heq
      cases heq
      exact ⟨rfl, TokenStream.peekNth?_eq _ _⟩
    refine .bind seen fun t s' hseen => ?_
    obtain ⟨rfl, ht⟩ := hseen
    cases t with
    | none => exact .pure ⟨rfl, fun h => by cases h⟩
    | some t =>
      obtain ⟨hn, ht⟩ := List.getElem?_eq_some_iff.mp ht.symm
      refine .bind .nthIs fun b s₁ hcolon => ?_
      obtain ⟨rfl, hb⟩ := hcolon
      split
      · next hlabel =>
        simp only [Bool.and_eq_true, beq_iff_eq] at hlabel
        obtain ⟨colon, hget, hcolon⟩ := hb hlabel.2
        obtain ⟨hn', hget⟩ := List.getElem?_eq_some_iff.mp hget
        refine (ih (n + 2)).mono fun b s' h => ⟨h.1, fun hb => ?_⟩
        rw [List.drop_eq_getElem_cons hn, List.drop_eq_getElem_cons hn', ht, hget]
        exact .label hlabel.1 hcolon (h.2 hb)
      · have loop (hkind : t.kind.startsLoop) :
            LoopAhead (s₁.tokens.significant.drop n) := by
          rw [List.drop_eq_getElem_cons hn, ht]
          exact .loop hkind
        split
        · next hk => exact .pure ⟨rfl, fun _ => loop (.inl hk)⟩
        · next hk => exact .pure ⟨rfl, fun _ => loop (.inr (.inl hk))⟩
        · next hk => exact .pure ⟨rfl, fun _ => loop (.inr (.inr hk))⟩
        · exact .pure ⟨rfl, fun h => by cases h⟩

end Grammar

end Ecma
