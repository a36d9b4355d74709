import Ecma.Token.Stream

/-! The tokens that a stream still has to give, without the line terminators between them. -/

namespace Ecma

namespace TokenStream

/-- The tokens still to come without line terminators. -/
def significant (s : TokenStream) : List Token :=
  s.rest.filter Token.isSignificant

theorem nthSignificant_eq (tokens : List Token) (n : Nat) :
    nthSignificant tokens n = (tokens.filter Token.isSignificant)[n]? := by
  induction tokens generalizing n with
  | nil => simp [nthSignificant]
  | cons t rest ih =>
    by_cases ht : t.isSignificant
    · cases n <;> simp [nthSignificant, ht, ih]
    · simp [nthSignificant, ht, ih]

theorem peekNth?_eq (s : TokenStream) (n : Nat) : s.peekNth? n = s.significant[n]? :=
  nthSignificant_eq s.rest n

theorem firstSignificant_eq_some {tokens rest : List Token} {t : Token}
    (h : firstSignificant tokens = some (t, rest)) :
    tokens.filter Token.isSignificant = t :: rest.filter Token.isSignificant := by
  induction tokens with
  | nil => simp [firstSignificant] at h
  | cons u tokens ih =>
    by_cases hu : u.isSignificant
    · simp only [firstSignificant, hu, if_true, Option.some.injEq, Prod.mk.injEq] at h
      obtain ⟨rfl, rfl⟩ := h
      simp [hu]
    · simp only [firstSignificant, hu, Bool.false_eq_true, if_false] at h
      simp [hu, ih h]

/-- The next token with the line terminators before it. -/
theorem firstSignificant_split {tokens rest : List Token} {t : Token}
    (h : firstSignificant tokens = some (t, rest)) :
    t.isSignificant = true ∧ ∃ skipped, tokens = skipped ++ t :: rest := by
  induction tokens with
  | nil => simp [firstSignificant] at h
  | cons u tokens ih =>
    rw [firstSignificant] at h
    split at h
    · next hu =>
      cases h
      exact ⟨hu, [], rfl⟩
    · obtain ⟨ht, skipped, rfl⟩ := ih h
      exact ⟨ht, u :: skipped, rfl⟩

theorem next?_eq_some {s s' : TokenStream} {t : Token} (h : s.next? = some (t, s')) :
    s.significant = t :: s'.significant := by
  simp only [next?, Option.map_eq_some_iff] at h
  obtain ⟨⟨u, rest⟩, hfirst, heq⟩ := h
  cases heq
  exact firstSignificant_eq_some hfirst

theorem next?_of_rest {s : TokenStream} {t : Token} {rest : List Token} (h : s.rest = t :: rest)
    (ht : t.isSignificant = true) :
    s.next? = some (t, { s with rest, previousEnd := t.endOffset }) := by
  rw [next?, h, firstSignificant, if_pos ht]
  rfl

theorem peek?_of_rest {s : TokenStream} {t : Token} {rest : List Token} (h : s.rest = t :: rest)
    (ht : t.isSignificant = true) : s.peek? = some t := by
  rw [peek?, h, firstSignificant, if_pos ht]
  rfl

theorem previousEnd_of_next? {s s' : TokenStream} {t : Token} (h : s.next? = some (t, s')) :
    s'.previousEnd = t.endOffset := by
  obtain ⟨⟨u, rest⟩, -, heq⟩ := Option.map_eq_some_iff.mp h
  cases heq
  rfl

theorem location_of_next? {s s' : TokenStream} {t : Token} (h : s.next? = some (t, s')) :
    s.location = t.location := by
  obtain ⟨⟨u, rest⟩, hfirst, heq⟩ := Option.map_eq_some_iff.mp h
  cases heq
  rw [location, peek?, hfirst]
  rfl

/-- Only tokens that are passed over stand before the next one. -/
theorem exists_of_next? {s s' : TokenStream} {t : Token} (h : s.next? = some (t, s')) :
    t.isSignificant = true ∧ ∃ skipped, s.rest = skipped ++ t :: s'.rest := by
  obtain ⟨⟨u, rest⟩, hfirst, heq⟩ := Option.map_eq_some_iff.mp h
  cases heq
  exact firstSignificant_split hfirst

theorem suffix_of_next? {s s' : TokenStream} {t : Token} (h : s.next? = some (t, s')) :
    s'.rest <:+ s.rest := by
  obtain ⟨-, skipped, hskipped⟩ := exists_of_next? h
  exact ⟨skipped ++ [t], by rw [hskipped, List.append_assoc]; rfl⟩

theorem firstSignificant_eq_none {tokens : List Token} (h : firstSignificant tokens = none) :
    tokens.filter Token.isSignificant = [] := by
  induction tokens with
  | nil => rfl
  | cons u tokens ih =>
    by_cases hu : u.isSignificant
    · simp [firstSignificant, hu] at h
    · simp only [firstSignificant, hu, Bool.false_eq_true, if_false] at h
      simp [hu, ih h]

theorem peek?_eq (s : TokenStream) : s.peek? = s.significant.head? := by
  unfold peek?
  cases h : firstSignificant s.rest with
  | none => simp [significant, firstSignificant_eq_none h]
  | some r => simp [significant, firstSignificant_eq_some h]

theorem rest_of_ofString {source : String} {s : TokenStream} (h : ofString source = .ok s) :
    s.rest = (Lexed.ofString source).tokens := by
  unfold ofString at h
  dsimp only at h
  split at h <;> cases h
  rfl

end TokenStream

end Ecma
