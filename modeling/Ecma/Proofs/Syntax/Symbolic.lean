import Ecma.Proofs.Syntax.Lookahead
import Ecma.Proofs.Syntax.Print

/-! What productions do on given lexemes: they give a value and leave other lexemes, or find a power
whose base has an operator with one operand in front. -/

namespace Ecma

/-- The tokens to come show the lexemes, and none of them is a line terminator. No variable is
declared so far. -/
structure ParseState.Shows (s : ParseState) (l : List Lexeme) : Prop where
  lexemes : s.tokens.rest.map (fun t => (t.kind, t.text)) = l
  significant : ∀ t ∈ s.tokens.rest, t.isSignificant = true
  declared : s.declared = []

/-- The text is neither strict code nor the head of a `for` statement. -/
structure Surroundings.IsPlain (c : Surroundings) : Prop where
  strict : c.strict = false
  noIn : c.noIn = false

namespace Parse

variable {α β : Type}

/-- The value and the lexemes to come, or none for a misplaced operator with one operand. -/
inductive Outcome : Option (α × List Lexeme) → Except ParseFailure (α × ParseState) → Prop
  | value {a : α} {s : ParseState} {l : List Lexeme} (hs : s.Shows l) : Outcome (some (a, l)) (.ok (a, s))
  | misplaced {location : Location} :
    Outcome none (.error (.rejected ⟨.unaryBeforeExponentiation, location⟩))

/-- What a production gives from tokens that show the lexemes. -/
def Scans (x : Parse α) (l : List Lexeme) (r : Option (α × List Lexeme)) : Prop :=
  ∀ ⦃c : Surroundings⦄ ⦃s : ParseState⦄, c.IsPlain → s.Shows l → Outcome r (x c s)

namespace Scans

variable {x : Parse α} {f : α → Parse β} {a : α} {l l' : List Lexeme} {r : Option (β × List Lexeme)}

theorem pure (a : α) (l : List Lexeme) : Scans (pure a) l (some (a, l)) :=
  fun _ _ _ hs => .value hs

theorem bind (hx : Scans x l (some (a, l'))) (hf : Scans (f a) l' r) : Scans (x >>= f) l r := by
  intro c s hc hs
  have h := hx hc hs
  change Outcome r ((x c s).bind fun y => f y.1 c y.2)
  revert h
  generalize x c s = y
  rintro ⟨hs'⟩
  exact hf hc hs'

theorem bind_misplaced (hx : Scans x l none) : Scans (x >>= f) l none := by
  intro c s hc hs
  have h := hx hc hs
  change Outcome none ((x c s).bind fun y => f y.1 c y.2)
  revert h
  generalize x c s = y
  rintro ⟨⟩
  exact .misplaced

theorem of_eq {x y : Parse α} {r : Option (α × List Lexeme)} (h : Scans x l r)
    (heq : ∀ ⦃c s⦄, c.IsPlain → s.Shows l → y c s = x c s) : Scans y l r := by
  intro c s hc hs
  rw [heq hc hs]
  exact h hc hs

/-! ### Tokens -/

theorem ofState {f : ParseState → Parse β}
    (h : ∀ ⦃c s⦄, c.IsPlain → s.Shows l → Outcome r (f s c s)) : Scans (get >>= f) l r :=
  fun _ _ hc hs => h hc hs

theorem ofSurroundings {f : Surroundings → Parse β}
    (h : ∀ c, c.IsPlain → Scans (f c) l r) : Scans (read >>= f) l r :=
  fun c _ hc hs => h c hc hc hs

theorem location {f : Location → Parse β} (h : ∀ location, Scans (f location) l r) :
    Scans (Parse.location >>= f) l r :=
  fun _ s hc hs => h s.tokens.location hc hs

end Scans

end Parse

open Parse

namespace ParseState.Shows

variable {s : ParseState} {x : Lexeme} {l : List Lexeme}

theorem significant_eq (h : s.Shows l) : s.tokens.significant = s.tokens.rest :=
  List.filter_eq_self.2 h.significant

/-- The next token shows the first lexeme. -/
theorem peek? (h : s.Shows l) : s.tokens.peek?.map (fun t => (t.kind, t.text)) = l.head? := by
  rw [TokenStream.peek?_eq, h.significant_eq, ← h.lexemes, List.head?_map]

theorem peekNth? (h : s.Shows l) (n : Nat) :
    (s.tokens.peekNth? n).map (fun t => (t.kind, t.text)) = l[n]? := by
  rw [TokenStream.peekNth?_eq, h.significant_eq, ← h.lexemes, List.getElem?_map]

theorem next? (h : s.Shows (x :: l)) : ∃ t tokens, s.tokens.next? = some (t, tokens) ∧
    (t.kind, t.text) = x ∧ ParseState.Shows { s with tokens } l := by
  obtain ⟨t, rest, hrest, hx, hl⟩ := List.map_eq_cons_iff.1 h.lexemes
  have hsig : ∀ u ∈ t :: rest, u.isSignificant = true := hrest ▸ h.significant
  refine ⟨t, { s.tokens with rest, previousEnd := t.endOffset }, ?_, hx, hl, ?_, h.declared⟩
  · rw [TokenStream.next?, hrest, TokenStream.firstSignificant, if_pos (hsig t (by simp))]
    rfl
  · exact fun u hu => hsig u (by simp [hu])

end ParseState.Shows

/-- The category of the first lexeme. -/
def firstKind? (l : List Lexeme) : Option TokenKind :=
  l.head?.map Prod.fst

@[simp] theorem firstKind?_cons (x : Lexeme) (l : List Lexeme) : firstKind? (x :: l) = some x.1 := rfl

@[simp] theorem firstKind?_nil : firstKind? [] = none := rfl

theorem ParseState.Shows.peekKind? {s : ParseState} {l : List Lexeme} (h : s.Shows l) :
    s.tokens.peekKind? = firstKind? l := by
  rw [firstKind?, ← h.peek?, Option.map_map]
  rfl

namespace Parse

theorem get_bind {β : Type} (f : ParseState → Parse β) (c : Surroundings) (s : ParseState) :
    (get >>= f) c s = f s c s := rfl

theorem peek?_bind {β : Type} (f : Option Token → Parse β) (c : Surroundings) (s : ParseState) :
    (Parse.peek? >>= f) c s = f s.tokens.peek? c s := rfl

/-- The next token is the first one. -/
theorem bind_peek {β : Type} {s : ParseState} {x : Lexeme} {l : List Lexeme} (c : Surroundings)
    (hs : s.Shows (x :: l)) : ∃ t : Token, (t.kind, t.text) = x ∧
      ∀ f : Token → Parse β, (Parse.peek >>= f) c s = f t c s := by
  have hpeek := hs.peek?
  cases hp : s.tokens.peek? with
  | none => rw [hp] at hpeek; cases hpeek
  | some t =>
    rw [hp] at hpeek
    refine ⟨t, Option.some.inj hpeek, fun f => ?_⟩
    have heq : Parse.peek c s = .ok (t, s) := by
      unfold Parse.peek
      rw [peek?_bind, hp]
      rfl
    change (Parse.peek c s).bind (fun y => f y.1 c y.2) = _
    rw [heq]
    rfl

namespace Scans

variable {α β : Type} {l : List Lexeme} {r : Option (β × List Lexeme)}

theorem peekKind? (l : List Lexeme) : Scans Parse.peekKind? l (some (firstKind? l, l)) := by
  intro c s _ hs
  have h : Parse.peekKind? c s = .ok (s.tokens.peekKind?, s) := rfl
  rw [h, hs.peekKind?]
  exact .value hs

theorem atKind (kind : TokenKind) (l : List Lexeme) :
    Scans (Parse.atKind kind) l (some (firstKind? l == some kind, l)) := by
  intro c s _ hs
  have h : Parse.atKind kind c s = .ok (s.tokens.peekKind? == some kind, s) := rfl
  rw [h, hs.peekKind?]
  exact .value hs

theorem peek {f : Token → Parse β} {x : Lexeme}
    (h : ∀ location, Scans (f ⟨x.1, x.2, location⟩) (x :: l) r) :
    Scans (Parse.peek >>= f) (x :: l) r := by
  intro c s hc hs
  obtain ⟨t, rfl, heq⟩ := bind_peek c hs
  rw [heq]
  exact h t.location hc hs

theorem atEnd (l : List Lexeme) : Scans Parse.atEnd l (some (l.isEmpty, l)) := by
  intro c s _ hs
  have h : Parse.atEnd c s = .ok (s.tokens.isAtEnd, s) := rfl
  have hend : s.tokens.isAtEnd = l.isEmpty := by
    rw [TokenStream.isAtEnd, ← Option.isNone_map (f := fun t : Token => (t.kind, t.text)), hs.peek?]
    cases l <;> rfl
  rw [h, hend]
  exact .value hs

theorem lineTerminatorBefore (l : List Lexeme) :
    Scans Parse.lineTerminatorBefore l (some (false, l)) := by
  intro c s _ hs
  have h : Parse.lineTerminatorBefore c s = .ok (s.tokens.lineTerminatorBefore, s) := rfl
  have hno : s.tokens.lineTerminatorBefore = false := by
    rw [TokenStream.lineTerminatorBefore]
    split
    · next t rest hrest =>
      have hsig := hs.significant t (by rw [hrest]; simp)
      simpa [Token.isSignificant] using hsig
    · rfl
  rw [h, hno]
  exact .value hs

theorem skip (x : Lexeme) (l : List Lexeme) : Scans Parse.skip (x :: l) (some ((), l)) := by
  intro c s _ hs
  obtain ⟨t, tokens, hnext, -, hs'⟩ := hs.next?
  have h : Parse.skip c s = .ok ((), { s with tokens }) := by
    unfold Parse.skip
    rw [get_bind, hnext]
    rfl
  rw [h]
  exact .value hs'

theorem advance {f : Token → Parse β} {x : Lexeme}
    (h : ∀ location, Scans (f ⟨x.1, x.2, location⟩) l r) : Scans (Parse.advance >>= f) (x :: l) r := by
  intro c s hc hs
  obtain ⟨t, tokens, hnext, rfl, hs'⟩ := hs.next?
  have heq : (Parse.advance >>= f) c s = f t c { s with tokens } := by
    have : Parse.advance c s = .ok (t, { s with tokens }) := by
      unfold Parse.advance
      rw [get_bind, hnext]
      rfl
    change (Parse.advance c s).bind (fun y => f y.1 c y.2) = _
    rw [this]
    rfl
  rw [heq]
  exact h t.location hc hs'

theorem nthIs (n : Nat) (p : Punctuator) (l : List Lexeme) :
    Scans (Parse.nthIs n p) l (some ((l[n]?).any fun x => x.1 == .punctuator p, l)) := by
  intro c s _ hs
  have h : Parse.nthIs n p c s =
      .ok ((s.tokens.peekNth? n).any fun t => t.kind == .punctuator p, s) := rfl
  have hany : ((s.tokens.peekNth? n).any fun t => t.kind == .punctuator p) =
      (l[n]?).any fun x => x.1 == .punctuator p := by
    rw [← hs.peekNth? n]
    cases s.tokens.peekNth? n <;> rfl
  rw [h, hany]
  exact .value hs

theorem eatKind {kind : TokenKind} (text : String) (l : List Lexeme) :
    Scans (Parse.eatKind kind) ((kind, text) :: l) (some (true, l)) := by
  refine bind (atKind _ _) ?_
  rw [if_pos (by simp)]
  exact bind (skip _ _) (pure _ _)

theorem eatKind_false {kind : TokenKind} (h : firstKind? l ≠ some kind) :
    Scans (Parse.eatKind kind) l (some (false, l)) := by
  refine bind (atKind _ _) ?_
  rw [if_neg (by simpa using h)]
  exact pure _ _

theorem atKind_false {kind : TokenKind} (h : firstKind? l ≠ some kind) :
    Scans (Parse.atKind kind) l (some (false, l)) := by
  have := atKind kind l
  rwa [beq_false_of_ne h] at this

theorem atKind_true (kind : TokenKind) (text : String) (l : List Lexeme) :
    Scans (Parse.atKind kind) ((kind, text) :: l) (some (true, (kind, text) :: l)) := by
  have := atKind kind ((kind, text) :: l)
  rwa [firstKind?_cons, beq_self_eq_true] at this

theorem expect (p : Punctuator) (text : String) (l : List Lexeme) :
    Scans (Parse.expect p) ((.punctuator p, text) :: l) (some ((), l)) :=
  bind (eatKind _ _) (pure _ _)

theorem strict (l : List Lexeme) : Scans Parse.strict l (some (false, l)) :=
  ofSurroundings fun _ hc => hc.strict ▸ pure _ _

theorem allowIn {x : Parse β} (h : Scans x l r) : Scans (Parse.allowIn x) l r :=
  fun _ _ hc hs => h ⟨hc.strict, rfl⟩ hs

/-! ### Loops -/

variable {turn : α → Parse (Turn α β)} {fuel : Nat} {a a' : α} {l' : List Lexeme}

theorem loop_again (h : Scans (turn a) l (some (.again a', l')))
    (hrest : Scans (Parse.loop turn fuel a') l' r) : Scans (Parse.loop turn (fuel + 1) a) l r :=
  bind h hrest

theorem loop_done {b : β} (h : Scans (turn a) l (some (.done b, l'))) :
    Scans (Parse.loop turn (fuel + 1) a) l (some (b, l')) :=
  bind h (pure _ _)

end Scans

end Parse

end Ecma
