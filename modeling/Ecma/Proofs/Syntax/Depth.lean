import Ecma.Proofs.Syntax.Parallel

/-! How many levels of productions and how many turns of loops are enough. A level that is deeper is
only entered once a token has been taken, and so is the next turn of a loop: where fewer tokens are
to come than there are levels, none of them runs out, and one level more makes no difference. -/

namespace Ecma

namespace Parse

variable {α β : Type} {p q : Parse α} {f k : α → Parse β} {c : Surroundings} {s : ParseState}
  {bound slack m n : Nat}

theorem bind_of_error {e : ParseFailure} (h : p c s = .error e) : (p >>= f) c s = .error e := by
  change (p c s >>= fun r => f r.1 c r.2) = _
  rw [h]
  rfl

/-! ### Productions that need no levels -/

/-- A production that never runs out. -/
class Sure (p : Parse α) : Prop where
  ends : ∀ c s, p c s ≠ .error .exhausted

theorem Sure.ne [hp : p.Sure] {e : ParseFailure} (h : p c s = .error e) : e ≠ .exhausted :=
  fun he => hp.ends c s (he ▸ h)

theorem Sure.bind [p.Sure] (hf : ∀ a, (f a).Sure) : (p >>= f).Sure := by
  refine ⟨fun c s => ?_⟩
  cases h : p c s with
  | error e =>
    rw [bind_of_error h]
    exact fun heq => Sure.ne h (Except.error.inj heq)
  | ok r =>
    rw [bind_of_ok h]
    exact (hf r.1).ends c r.2

instance [p.Sure] [hf : ∀ a, (f a).Sure] : (p >>= f).Sure :=
  .bind hf

instance (e : SyntaxError) : (throw (.rejected e) : Parse α).Sure :=
  ⟨fun _ _ h => by cases h⟩

instance (a : α) : (pure a : Parse α).Sure :=
  ⟨fun _ _ h => by cases h⟩

instance : (read : Parse Surroundings).Sure :=
  ⟨fun _ _ h => by cases h⟩

instance : (get : Parse ParseState).Sure :=
  ⟨fun _ _ h => by cases h⟩

instance (change : ParseState → ParseState) : (modify change : Parse PUnit).Sure :=
  ⟨fun _ _ h => by cases h⟩

instance {b : Prop} [Decidable b] [p.Sure] [q.Sure] : (if b then p else q).Sure := by
  split <;> infer_instance

instance {f : α → β} [p.Sure] : (f <$> p).Sure := by
  rw [map_eq_pure_bind]
  infer_instance

instance {φ : Surroundings → Surroundings} [h : p.Sure] : (withReader φ p : Parse α).Sure :=
  ⟨fun c s => h.ends (φ c) s⟩

instance {xs : List α} {step : α → PUnit → Parse (ForInStep PUnit)} [h : ∀ a u, (step a u).Sure] :
    (forIn xs PUnit.unit step : Parse PUnit).Sure := by
  induction xs with
  | nil => exact inferInstanceAs (pure PUnit.unit : Parse PUnit).Sure
  | cons x xs ih =>
    rw [List.forIn_cons]
    refine .bind fun r => ?_
    cases r with
    | done u => exact inferInstanceAs (pure u : Parse PUnit).Sure
    | yield u => exact ih

instance (kind : SyntaxErrorKind) (l : Location) : (failAt kind l : Parse α).Sure :=
  inferInstanceAs (throw _ : Parse α).Sure

instance : location.Sure := by unfold location; infer_instance

instance (kind : SyntaxErrorKind) : (fail kind : Parse α).Sure := by unfold fail; infer_instance

instance (construct : String) : (unsupported construct : Parse α).Sure := by
  unfold unsupported; infer_instance

instance (t : Token) : (unexpectedToken t : Parse α).Sure := by
  unfold unexpectedToken; infer_instance

instance : peek?.Sure := by unfold peek?; infer_instance

instance : peekKind?.Sure := by unfold peekKind?; infer_instance

instance : (unexpected : Parse α).Sure := by
  refine .bind fun t => ?_
  cases t <;> infer_instance

instance : peek.Sure := by
  refine .bind fun t => ?_
  cases t <;> infer_instance

instance : atEnd.Sure := by unfold atEnd; infer_instance

instance : lineTerminatorBefore.Sure := by unfold lineTerminatorBefore; infer_instance

instance (kind : TokenKind) : (atKind kind).Sure := by unfold atKind; infer_instance

instance (x : Punctuator) : (atPunct x).Sure := by unfold atPunct; infer_instance

instance (x : Keyword) : (atKeyword x).Sure := by unfold atKeyword; infer_instance

instance (word : String) : (atWord word).Sure := by
  refine .bind fun t => ?_
  cases t <;> infer_instance

instance (n : Nat) : (peekNth? n).Sure := by unfold peekNth?; infer_instance

instance (n : Nat) (x : Punctuator) : (nthIs n x).Sure := by unfold nthIs; infer_instance

instance : advance.Sure := by
  refine .bind fun s => ?_
  split <;> infer_instance

instance : skip.Sure := by
  refine .bind fun s => ?_
  split <;> infer_instance

instance (kind : TokenKind) : (eatKind kind).Sure := by unfold eatKind; infer_instance

instance (x : Punctuator) : (eat x).Sure := by unfold eat; infer_instance

instance (x : Keyword) : (eatKeyword x).Sure := by unfold eatKeyword; infer_instance

instance (x : Punctuator) : (expect x).Sure := by unfold expect; infer_instance

instance (x : Keyword) : (expectKeyword x).Sure := by unfold expectKeyword; infer_instance

instance : omitSemicolon.Sure := by unfold omitSemicolon; infer_instance

instance : semicolon.Sure := by unfold semicolon; infer_instance

instance (start : Nat) : (sourceSince start).Sure := by unfold sourceSince; infer_instance

instance : strict.Sure := by unfold strict; infer_instance

instance (t : Token) : (checkReference t).Sure := by unfold checkReference; infer_instance

instance (name : String) (l : Location) : (checkBinding name l).Sure := by
  unfold checkBinding; infer_instance

instance : bindingIdentifier.Sure := by
  refine .bind fun t => ?_
  split <;> infer_instance

instance (t : Token) : (stringValue t).Sure := by
  refine .bind fun b => ?_
  split <;> infer_instance

instance (t : Token) : (numericValue t).Sure := by unfold numericValue; infer_instance

instance (topLevel : Bool) (taken : List String) (body : List Stmt) :
    (checkDeclarations topLevel taken body).Sure := by
  unfold checkDeclarations
  split <;> infer_instance

instance (e : Expr) (l : Location) : (checkTarget e l).Sure := by
  unfold checkTarget
  split <;> infer_instance

instance (first : Bool) (e : Expr) (l : Location) : (checkUpdateTarget first e l).Sure := by
  unfold checkUpdateTarget
  split <;> infer_instance

instance (name : String) (l : Location) : (referPrivate name l).Sure := by
  unfold referPrivate; infer_instance

instance : varNames.Sure := by unfold varNames; infer_instance

instance (name : String) : (declareVar name).Sure := by unfold declareVar; infer_instance

/-! ### Enough levels -/

/-- From a state, neither of two productions runs out, and they do the same. -/
def Settle (p q : Parse α) (c : Surroundings) (s : ParseState) : Prop :=
  q c s = p c s ∧ p c s ≠ .error .exhausted

/-- Wherever fewer than `bound - slack` tokens are to come, neither of two productions runs out, and
they do the same. -/
class Suffices (bound slack : Nat) (p q : Parse α) : Prop where
  settle : ∀ c s, s.tokens.remaining + slack < bound → p.Settle q c s

theorem Settle.bind (h : p.Settle q c s)
    (hf : ∀ a s', p c s = .ok (a, s') → (f a).Settle (k a) c s') :
    (p >>= f).Settle (q >>= k) c s := by
  obtain ⟨hsame, hends⟩ := h
  cases hp : p c s with
  | error e =>
    rw [hp] at hsame hends
    rw [Settle, bind_of_error hp, bind_of_error hsame]
    exact ⟨rfl, fun h => hends (congrArg _ (Except.error.inj h))⟩
  | ok r =>
    rw [hp] at hsame
    rw [Settle, bind_of_ok hp, bind_of_ok hsame]
    exact hf r.1 r.2 hp

theorem Suffices.weaken (h : Suffices bound slack p q) {slack' : Nat} (hs : slack ≤ slack') :
    Suffices bound slack' p q :=
  ⟨fun c s hlt => h.settle c s (by omega)⟩

instance (priority := low) [h : Suffices bound 0 p q] : Suffices bound 1 p q :=
  h.weaken (Nat.zero_le _)

instance (priority := high) [h : p.Sure] : Suffices bound slack p p :=
  ⟨fun c s _ => ⟨rfl, h.ends c s⟩⟩

theorem Suffices.bind {slack' : Nat} (hp : Suffices bound slack p q) (hm : p.Moves m n)
    (hf : ∀ a, Suffices bound slack' (f a) (k a)) (hs : slack' ≤ slack + m) :
    Suffices bound slack (p >>= f) (q >>= k) := by
  refine ⟨fun c s hlt => (hp.settle c s hlt).bind fun a s' heq => ?_⟩
  have htaken := (hm.yields c s a s' heq).remaining
  exact (hf a).settle c s' (by omega)

/-- Productions that are used once the first step has taken a token. -/
theorem Suffices.first [hp : Suffices bound slack p q] [hm : p.Moves 1 1]
    (hf : ∀ a, Suffices bound 1 (f a) (k a)) : Suffices bound slack (p >>= f) (q >>= k) :=
  hp.bind hm hf (by omega)

theorem Suffices.step [hp : Suffices bound slack p q] [hm : p.Moves 0 0]
    (hf : ∀ a, Suffices bound slack (f a) (k a)) : Suffices bound slack (p >>= f) (q >>= k) :=
  hp.bind hm hf (by omega)

instance [Suffices bound slack p q] [p.Moves 0 0] [hf : ∀ a, Suffices bound slack (f a) (k a)] :
    Suffices bound slack (p >>= f) (q >>= k) :=
  .step hf

instance [Suffices bound slack p q] [p.Moves 1 1] [hf : ∀ a, Suffices bound 1 (f a) (k a)] :
    Suffices bound slack (p >>= f) (q >>= k) :=
  .first hf

instance {b : Prop} [Decidable b] {p' q' : Parse α} [Suffices bound slack p q]
    [Suffices bound slack p' q'] :
    Suffices bound slack (if b then p else p') (if b then q else q') := by
  split <;> infer_instance

instance {f : α → β} [hp : Suffices bound slack p q] :
    Suffices bound slack (f <$> p) (f <$> q) := by
  rw [map_eq_pure_bind, map_eq_pure_bind]
  refine ⟨fun c s hlt => (hp.settle c s hlt).bind fun a s' _ => ?_⟩
  exact ⟨rfl, Sure.ends c s'⟩

instance {φ : Surroundings → Surroundings} [h : Suffices bound slack p q] :
    Suffices bound slack (withReader φ p) (withReader φ q) :=
  ⟨fun c s hlt => h.settle (φ c) s hlt⟩

instance [Suffices bound slack p q] : Suffices bound slack p.allowIn q.allowIn :=
  inferInstanceAs (Suffices bound slack (withReader _ p) (withReader _ q))

/-- A check that rejects the text, or passes. -/
theorem Suffices.guard {b : Prop} [Decidable b] [p.Fails] [hp : p.Sure] {y y' : Parse β}
    (hy : Suffices bound slack y y') :
    Suffices bound slack (if b then p >>= f else y) (if b then p >>= k else y') := by
  split
  · refine ⟨fun c s _ => Settle.bind ⟨rfl, hp.ends c s⟩ fun a s' heq => ?_⟩
    exact (Fails.yields c s a s' heq).elim
  · exact hy

/-- A step that is left out in some cases. -/
theorem Suffices.optional {b : Prop} [Decidable b] {p q : Parse Unit} {f k : Unit → Parse β}
    [Suffices bound slack p q] [p.Moves 0 0] (hf : ∀ u, Suffices bound slack (f u) (k u)) :
    Suffices bound slack (if b then p >>= f else f ()) (if b then q >>= k else k ()) := by
  split
  · exact .step hf
  · exact hf ()

/-- A token is taken if it is there. -/
theorem Suffices.eat {kind : TokenKind} {x x' y y' : Parse β} (hx : Suffices bound 1 x x')
    (hy : Suffices bound slack y y') :
    Suffices bound slack (eatKind kind >>= fun b => if b = true then x else y)
      (eatKind kind >>= fun b => if b = true then x' else y') := by
  refine ⟨fun c s hlt => Settle.bind ⟨rfl, Sure.ends c s⟩ fun b s' heq => ?_⟩
  obtain ⟨htaken, hsame⟩ := yields_eatKind_moves 0 b s' heq
  split
  · next hb =>
    have := (htaken hb).remaining
    exact hx.settle c s' (by omega)
  · next hb =>
    obtain rfl := hsame (by simpa using hb)
    exact hy.settle c s' hlt

/-- A token is taken unless it is not there. -/
theorem Suffices.eatNot {kind : TokenKind} {x x' y y' : Parse β} (hx : Suffices bound 1 x x')
    (hy : Suffices bound slack y y') :
    Suffices bound slack (eatKind kind >>= fun b => if (!b) = true then y else x)
      (eatKind kind >>= fun b => if (!b) = true then y' else x') := by
  simp only [Bool.not_eq_true', ← Bool.not_eq_true, ite_not]
  exact .eat hx hy

/-- What is made of the next token, where there is one. -/
theorem Suffices.peek {f k : Token → Parse β}
    (h : ∀ t c s rest, s.tokens.significant = t :: rest → s.tokens.remaining + slack < bound →
      (f t).Settle (k t) c s) :
    Suffices bound slack (Parse.peek >>= f) (Parse.peek >>= k) := by
  refine ⟨fun c s hlt => Settle.bind ⟨rfl, Sure.ends c s⟩ fun t s' heq => ?_⟩
  obtain ⟨rfl, ht⟩ := yields_peek t s' heq
  obtain ⟨rest, hrest⟩ := List.head?_eq_some_iff.mp (TokenStream.peek?_eq s'.tokens ▸ ht)
  exact h t c s' rest hrest hlt

/-- Passing over a token before other steps. -/
theorem Settle.skip {f k : Unit → Parse β} (hf : ∀ u, Suffices bound 1 (f u) (k u)) {t : Token}
    {rest : List Token} (hnext : s.tokens.significant = t :: rest)
    (hlt : s.tokens.remaining < bound) :
    (Parse.skip >>= f).Settle (Parse.skip >>= k) c s := by
  refine Settle.bind ⟨rfl, Sure.ends c s⟩ fun u s' heq => ?_
  have := (Yields.skip_moves (n := 0) hnext u s' heq).remaining
  exact (hf u).settle c s' (by omega)

/-! ### Loops -/

/-- A turn that takes a token if there is to be another one. -/
class Advances (turn : Parse (Turn α β)) : Prop where
  yields : ∀ c s, turn.Yields c s fun t s' =>
    isDone t = false → s'.tokens.remaining < s.tokens.remaining

theorem Advances.ofFirst {turn : Parse (Turn α β)} (h : turn.Moves 1 1) : turn.Advances :=
  ⟨fun c s => (h.yields c s).mono fun _ _ h _ => h.remaining⟩

instance (priority := low) {turn : Parse (Turn α β)} [h : turn.Moves 1 1] : turn.Advances :=
  .ofFirst h

instance (b : β) : (pure (.done b) : Parse (Turn α β)).Advances :=
  ⟨fun _ _ => .pure fun h => by cases h⟩

theorem Advances.step {γ : Type} {f : γ → Parse (Turn α β)} {p : Parse γ} [hm : p.Moves 0 0]
    (hf : ∀ a, (f a).Advances) : (p >>= f).Advances :=
  ⟨fun c s => .bind (hm.yields c s) fun a s' h => ((hf a).yields c s').mono fun _ _ h' hgoes =>
    Nat.lt_of_lt_of_le (h' hgoes) h.remaining⟩

instance {γ : Type} {f : γ → Parse (Turn α β)} {p : Parse γ} [p.Moves 0 0]
    [hf : ∀ a, (f a).Advances] : (p >>= f).Advances :=
  .step hf

instance {b : Prop} [Decidable b] {p q : Parse (Turn α β)} [p.Advances] [q.Advances] :
    (if b then p else q).Advances := by
  split <;> infer_instance

/-- A check that rejects the text, or passes. -/
theorem Advances.guard {γ : Type} {b : Prop} [Decidable b] {f : γ → Parse (Turn α β)} {p : Parse γ}
    [p.Fails] {y : Parse (Turn α β)} (hy : y.Advances) : (if b then p >>= f else y).Advances := by
  split
  · exact ⟨fun _ _ => .fail⟩
  · exact hy

/-- A token is taken if it is there. -/
theorem Advances.eat {kind : TokenKind} {x y : Parse (Turn α β)} (hx : x.Moves 0 0)
    (hy : y.Advances) : (eatKind kind >>= fun b => if b = true then x else y).Advances := by
  refine ⟨fun c s => .bind (yields_eatKind_moves 0) fun b s' h => ?_⟩
  split
  · next hb =>
    refine (hx.yields c s').mono fun t s'' h' _ => ?_
    exact Nat.lt_of_le_of_lt h'.remaining (h.1 hb).remaining
  · next hb =>
    obtain rfl := h.2 (by simpa using hb)
    exact hy.yields c s'

/-- By induction on the turns of the first run: each of them takes a token before the next one. -/
theorem Suffices.loop {turn turn' : α → Parse (Turn α β)}
    (h : ∀ a, Suffices bound slack (turn a) (turn' a)) (hadvances : ∀ a, (turn a).Advances)
    {fuel fuel' : Nat} (hfuel : bound ≤ fuel) (hfuel' : bound ≤ fuel') {a : α} :
    Suffices bound slack (Parse.loop turn fuel a) (Parse.loop turn' fuel' a) := by
  refine ⟨fun c s hlt => ?_⟩
  have hturns : s.tokens.remaining < fuel := by omega
  have hturns' : s.tokens.remaining < fuel' := by omega
  clear hfuel hfuel'
  induction fuel generalizing fuel' a s with
  | zero => exact absurd hturns (Nat.not_lt_zero _)
  | succ fuel ih =>
    obtain ⟨fuel', rfl⟩ := Nat.exists_eq_add_one_of_ne_zero (Nat.ne_zero_of_lt hturns')
    refine ((h a).settle c s hlt).bind fun t s' heq => ?_
    cases t with
    | done b => exact ⟨rfl, Sure.ends c s'⟩
    | again a =>
      have := (hadvances _).yields c s _ s' heq rfl
      exact ih s' (by omega) (by omega) (by omega)

/-- A loop before other steps. -/
theorem Suffices.loopThen {γ : Type} {turn turn' : α → Parse (Turn α β)} {f k : β → Parse γ}
    (h : ∀ a, Suffices bound slack (turn a) (turn' a)) (hadvances : ∀ a, (turn a).Advances)
    (hmoves : ∀ a, (turn a).Moves 0 0) {fuel fuel' : Nat} (hfuel : bound ≤ fuel)
    (hfuel' : bound ≤ fuel') {a : α} (hf : ∀ b, Suffices bound slack (f b) (k b)) :
    Suffices bound slack (Parse.loop turn fuel a >>= f) (Parse.loop turn' fuel' a >>= k) :=
  (Suffices.loop h hadvances hfuel hfuel').bind (.loop hmoves) hf (Nat.le_refl _)

end Parse

end Ecma
