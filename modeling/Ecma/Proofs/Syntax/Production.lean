import Ecma.Proofs.Syntax.Legal
import Ecma.Proofs.Token.Ahead

/-! What a production gives. A tree that uses private names is judged when the class around it has
been read, so a production is described by `Gives`: the private names in use only grow, and the
tree is right for every list of names that covers those in use when the production ends. -/

namespace Ecma

namespace Surroundings

/-- The rights of an expression here, given the private names around it. -/
def rights (c : Surroundings) (names : List String) : Rights :=
  ⟨c.strict, c.superProperty, c.superCall, names⟩

/-- The exits of a statement here. -/
def exits (c : Surroundings) : Exits :=
  ⟨c.labels, c.inFunction, c.inIteration, c.inSwitch⟩

end Surroundings

namespace ParseState

/-- The private names in use are among `names`. -/
def Within (s : ParseState) (names : List String) : Prop :=
  ∀ r ∈ s.references, r.1 ∈ names

/-- More private names come into use, and none outside a class. -/
structure Grows (c : Surroundings) (before after : ParseState) : Prop where
  subset : before.references ⊆ after.references
  outside : c.inClass = false → after.references = before.references

theorem Grows.of_eq {c : Surroundings} {s s' : ParseState} (h : s'.references = s.references) :
    s.Grows c s' :=
  ⟨fun _ hr => h ▸ hr, fun _ => h⟩

theorem Grows.refl (c : Surroundings) (s : ParseState) : s.Grows c s := .of_eq rfl

theorem Grows.trans {c : Surroundings} {s₁ s₂ s₃ : ParseState} (h₁ : s₁.Grows c s₂)
    (h₂ : s₂.Grows c s₃) : s₁.Grows c s₃ :=
  ⟨fun _ hr => h₂.subset (h₁.subset hr), fun hc => (h₂.outside hc).trans (h₁.outside hc)⟩

theorem Within.before {c : Surroundings} {s s' : ParseState} {names : List String}
    (h : s'.Within names) (hg : s.Grows c s') : s.Within names :=
  fun r hr => h r (hg.subset hr)

/-- A later state that differs in the tokens only, some of which were taken. -/
structure Passes (before after : ParseState) : Prop where
  stream : after.tokens.rest <:+ before.tokens.rest
  rest : after = { before with tokens := after.tokens }

variable {s s' s'' : ParseState}

theorem Passes.tokens (h : s.Passes s') : s'.tokens.significant <:+ s.tokens.significant :=
  h.stream.filter _

theorem Passes.refl (s : ParseState) : s.Passes s :=
  ⟨List.suffix_refl _, rfl⟩

theorem Passes.trans (h : s.Passes s') (h' : s'.Passes s'') : s.Passes s'' := by
  refine ⟨h'.stream.trans h.stream, h'.rest.trans ?_⟩
  rw [h.rest]

theorem Passes.references (h : s.Passes s') : s'.references = s.references := by
  rw [h.rest]

theorem Passes.next? {t : Token} {tokens : TokenStream}
    (h : s.tokens.next? = some (t, tokens)) : s.Passes { s with tokens } :=
  ⟨TokenStream.suffix_of_next? h, rfl⟩

end ParseState

namespace Parse

variable {α β : Type} {p : Parse α} {c : Surroundings} {s : ParseState}

/-! ### Descriptions of productions -/

/-- Every result of a production has a property. -/
def Yields (p : Parse α) (c : Surroundings) (s : ParseState) (Q : α → ParseState → Prop) : Prop :=
  ∀ a s', p c s = .ok (a, s') → Q a s'

/-- A production lets the private names in use grow, and its result has a property for all names
that cover those in use at its end. -/
def Gives (p : Parse α) (c : Surroundings) (s : ParseState) (Q : List String → α → Prop) : Prop :=
  p.Yields c s fun a s' => s.Grows c s' ∧ ∀ names, s'.Within names → Q names a

/-- A production that takes tokens from the front and changes nothing else. -/
class Plain (p : Parse α) : Prop where
  yields : ∀ c s, p.Yields c s fun _ s' => s.Passes s'

/-- A production that uses no private name. -/
class Keeps (p : Parse α) : Prop where
  yields : ∀ c s, p.Yields c s fun _ s' => s'.references = s.references

/-- A production that has no result. -/
class Fails (p : Parse α) : Prop where
  yields : ∀ c s, p.Yields c s fun _ _ => False

theorem Yields.mono {Q Q' : α → ParseState → Prop} (h : p.Yields c s Q)
    (hQ : ∀ a s', Q a s' → Q' a s') : p.Yields c s Q' :=
  fun a s' hp => hQ a s' (h a s' hp)

theorem Yields.pure {a : α} {Q : α → ParseState → Prop} (h : Q a s) :
    (pure a : Parse α).Yields c s Q := by
  intro _ _ heq
  cases heq
  exact h

theorem Yields.bind {f : α → Parse β} {P : α → ParseState → Prop} {Q : β → ParseState → Prop}
    (hp : p.Yields c s P) (hf : ∀ a s', P a s' → (f a).Yields c s' Q) :
    (p >>= f).Yields c s Q := by
  intro b s₂ heq
  change (p c s >>= fun r => f r.1 c r.2) = _ at heq
  cases hps : p c s with
  | error e => rw [hps] at heq; cases heq
  | ok r =>
    rw [hps] at heq
    exact hf r.1 r.2 (hp r.1 r.2 hps) b s₂ heq

theorem bind_of_ok {f : α → Parse β} {s' : ParseState} {a : α} (h : p c s = .ok (a, s')) :
    (p >>= f) c s = f a c s' := by
  change (p c s >>= fun r => f r.1 c r.2) = _
  rw [h]
  rfl

/-- What a production gives is what it has given. -/
theorem Yields.self : p.Yields c s fun a s' => p c s = .ok (a, s') :=
  fun _ _ heq => heq

theorem Yields.any : p.Yields c s fun _ _ => True :=
  fun _ _ _ => trivial

/-- The steps before the last one do not matter to what it yields. -/
theorem Yields.after {f : α → Parse β} {Q : β → ParseState → Prop}
    (hf : ∀ a s', (f a).Yields c s' Q) : (p >>= f).Yields c s Q :=
  .bind .any fun a s' _ => hf a s'

theorem Yields.map {f : α → β} {Q : β → ParseState → Prop}
    (h : p.Yields c s fun a => Q (f a)) : (f <$> p).Yields c s Q := by
  intro b s' heq
  change (p c s >>= fun r => Except.ok (f r.1, r.2)) = _ at heq
  cases hps : p c s with
  | error e => rw [hps] at heq; cases heq
  | ok r =>
    rw [hps] at heq
    cases heq
    exact h r.1 r.2 hps

theorem Yields.withReader {f : Surroundings → Surroundings} {Q : α → ParseState → Prop}
    (h : p.Yields (f c) s Q) : (withReader f p : Parse α).Yields c s Q :=
  h

theorem Yields.read {f : Surroundings → Parse β} {Q : β → ParseState → Prop}
    (h : (f c).Yields c s Q) : (read >>= f).Yields c s Q :=
  h

theorem Yields.get : (get : Parse ParseState).Yields c s fun a s' => a = s ∧ s' = s :=
  fun _ _ heq => by cases heq; exact ⟨rfl, rfl⟩

theorem Yields.modify {f : ParseState → ParseState} :
    (modify f : Parse PUnit).Yields c s fun _ s' => s' = f s :=
  fun _ _ heq => by cases heq; rfl

/-! ### Productions that have no result -/

theorem Fails.after {f : α → Parse β} (h : ∀ a, (f a).Fails) : (p >>= f).Fails :=
  ⟨fun c _ => .after fun a s' => (h a).yields c s'⟩

instance (e : ParseFailure) : (throw e : Parse α).Fails :=
  ⟨fun _ _ _ _ heq => by cases heq⟩

instance {f : α → Parse β} [p.Fails] : (p >>= f).Fails :=
  ⟨fun c s => .bind (Fails.yields c s) fun _ _ h => h.elim⟩

instance (kind : SyntaxErrorKind) (l : Location) : (failAt kind l : Parse α).Fails :=
  inferInstanceAs (throw _ : Parse α).Fails

instance (kind : SyntaxErrorKind) : (fail kind : Parse α).Fails :=
  .after fun _ => inferInstance

instance (construct : String) : (unsupported construct : Parse α).Fails :=
  inferInstanceAs (fail _ : Parse α).Fails

instance (t : Token) : (unexpectedToken t : Parse α).Fails :=
  inferInstanceAs (failAt _ _ : Parse α).Fails

instance : (unexpected : Parse α).Fails := by
  refine .after fun t => ?_
  cases t <;> infer_instance

theorem Yields.fail [p.Fails] {Q : α → ParseState → Prop} : p.Yields c s Q :=
  fun a s' heq => (Fails.yields c s a s' heq).elim

/-! ### Productions that only take tokens -/

instance (priority := low) [p.Fails] : p.Plain :=
  ⟨fun c s a s' heq => (Fails.yields c s a s' heq).elim⟩

instance (a : α) : (pure a : Parse α).Plain :=
  ⟨fun _ s => .pure (.refl s)⟩

theorem Plain.bind {f : α → Parse β} [p.Plain] (hf : ∀ a, (f a).Plain) : (p >>= f).Plain :=
  ⟨fun c s => .bind (Plain.yields c s) fun a s' h =>
    ((hf a).yields c s').mono fun _ _ h' => h.trans h'⟩

instance {f : α → Parse β} [p.Plain] [hf : ∀ a, (f a).Plain] : (p >>= f).Plain :=
  .bind hf

instance {f : α → β} [p.Plain] : (f <$> p).Plain :=
  ⟨fun c s => .map (Plain.yields c s)⟩

instance {b : Prop} [Decidable b] {q : Parse α} [p.Plain] [q.Plain] :
    (if b then p else q).Plain := by
  split <;> infer_instance

/-- A check that rejects the text, or passes. -/
theorem Plain.guard {b : Prop} [Decidable b] {f : α → Parse β} {q : Parse β} [p.Fails]
    (hq : q.Plain) : (if b then p >>= f else q).Plain := by
  split <;> infer_instance

/-- A step that is left out in some cases. -/
theorem Plain.optional {b : Prop} [Decidable b] {p : Parse Unit} {f : Unit → Parse β} [p.Plain]
    (hf : ∀ u, (f u).Plain) : (if b then p >>= f else f ()).Plain := by
  split
  · exact .bind hf
  · exact hf ()

instance : (read : Parse Surroundings).Plain :=
  ⟨fun _ s _ _ heq => by cases heq; exact .refl s⟩

instance : (get : Parse ParseState).Plain :=
  ⟨fun _ s _ _ heq => by cases heq; exact .refl s⟩

instance {f : Surroundings → Surroundings} [p.Plain] : (withReader f p : Parse α).Plain :=
  ⟨fun c s => Plain.yields (p := p) (f c) s⟩

instance {xs : List α} {step : α → PUnit → Parse (ForInStep PUnit)} [h : ∀ a u, (step a u).Plain] :
    (forIn xs PUnit.unit step : Parse PUnit).Plain := by
  induction xs with
  | nil => exact inferInstanceAs (pure PUnit.unit : Parse PUnit).Plain
  | cons x xs ih =>
    rw [List.forIn_cons]
    refine .bind fun r => ?_
    cases r with
    | done u => exact inferInstanceAs (pure u : Parse PUnit).Plain
    | yield u => exact ih

theorem Plain.loop {turn : α → Parse (Turn α β)} (h : ∀ a, (turn a).Plain) {fuel : Nat} {a : α} :
    (loop turn fuel a).Plain := by
  induction fuel generalizing a with
  | zero => exact inferInstanceAs (throw _ : Parse β).Plain
  | succ fuel ih =>
    refine .bind fun t => ?_
    cases t with
    | again a => exact ih
    | done b => exact inferInstanceAs (pure b : Parse β).Plain

/-! ### Tokens -/

instance : location.Plain := by unfold location; infer_instance

instance : peek?.Plain := by unfold peek?; infer_instance

instance : peekKind?.Plain := by unfold peekKind?; infer_instance

instance : peek.Plain := by
  refine .bind fun t => ?_
  cases t <;> infer_instance

instance : atEnd.Plain := by unfold atEnd; infer_instance

instance : lineTerminatorBefore.Plain := by unfold lineTerminatorBefore; infer_instance

instance (kind : TokenKind) : (atKind kind).Plain := by unfold atKind; infer_instance

instance (q : Punctuator) : (atPunct q).Plain := by unfold atPunct; infer_instance

instance (k : Keyword) : (atKeyword k).Plain := by unfold atKeyword; infer_instance

instance (word : String) : (atWord word).Plain := by
  refine .bind fun t => ?_
  cases t <;> infer_instance

instance (n : Nat) : (peekNth? n).Plain := by unfold peekNth?; infer_instance

instance (n : Nat) (q : Punctuator) : (nthIs n q).Plain := by unfold nthIs; infer_instance

instance : advance.Plain := by
  refine ⟨fun c s => .bind .get fun _ _ ⟨ha, hs⟩ => ?_⟩
  subst ha hs
  split
  · next hnext =>
    refine .bind .modify fun _ s' hs' => .pure ?_
    exact hs' ▸ .next? hnext
  · exact .fail

instance : skip.Plain := by
  refine ⟨fun c s => .bind .get fun _ _ ⟨ha, hs⟩ => ?_⟩
  subst ha hs
  split
  · next hnext => exact Yields.modify.mono fun _ s' hs' => hs' ▸ .next? hnext
  · exact .pure (.refl _)

instance (kind : TokenKind) : (eatKind kind).Plain := by unfold eatKind; infer_instance

instance (q : Punctuator) : (eat q).Plain := by unfold eat; infer_instance

instance (k : Keyword) : (eatKeyword k).Plain := by unfold eatKeyword; infer_instance

instance (q : Punctuator) : (expect q).Plain := by unfold expect; infer_instance

instance (k : Keyword) : (expectKeyword k).Plain := by unfold expectKeyword; infer_instance

instance : varNames.Plain := by unfold varNames; infer_instance

instance (start : Nat) : (sourceSince start).Plain := by unfold sourceSince; infer_instance

/-! ### Checks -/

instance : strict.Plain := by unfold strict; infer_instance

instance (t : Token) : (checkReference t).Plain := by unfold checkReference; infer_instance

instance (name : String) (l : Location) : (checkBinding name l).Plain := by
  unfold checkBinding; infer_instance

instance : bindingIdentifier.Plain := by
  refine .bind fun t => ?_
  split <;> infer_instance

instance (t : Token) : (stringValue t).Plain := by
  refine .bind fun b => ?_
  split <;> infer_instance

instance (t : Token) : (numericValue t).Plain := by unfold numericValue; infer_instance

instance (topLevel : Bool) (taken : List String) (body : List Stmt) :
    (checkDeclarations topLevel taken body).Plain := by
  unfold checkDeclarations
  split <;> infer_instance

instance (e : Expr) (l : Location) : (checkTarget e l).Plain := by
  unfold checkTarget
  split <;> infer_instance

instance (first : Bool) (e : Expr) (l : Location) : (checkUpdateTarget first e l).Plain := by
  unfold checkUpdateTarget
  split <;> infer_instance

/-! ### Productions that use no private name -/

instance (priority := low) [p.Plain] : p.Keeps :=
  ⟨fun c s => (Plain.yields c s).mono fun _ _ h => h.references⟩

theorem Keeps.bind {f : α → Parse β} [p.Keeps] (hf : ∀ a, (f a).Keeps) : (p >>= f).Keeps :=
  ⟨fun c s => .bind (Keeps.yields c s) fun a s' h =>
    ((hf a).yields c s').mono fun _ _ h' => h'.trans h⟩

instance {f : α → Parse β} [p.Keeps] [hf : ∀ a, (f a).Keeps] : (p >>= f).Keeps :=
  .bind hf

instance {b : Prop} [Decidable b] {q : Parse α} [p.Keeps] [q.Keeps] :
    (if b then p else q).Keeps := by
  split <;> infer_instance

instance (names : List String) :
    (modify fun s => { s with declared := names } : Parse PUnit).Keeps :=
  ⟨fun _ _ _ _ heq => by cases heq; rfl⟩

instance (name : String) : (declareVar name).Keeps :=
  ⟨fun _ _ _ _ heq => by cases heq; rfl⟩

instance : omitSemicolon.Keeps :=
  ⟨fun _ _ _ _ heq => by cases heq; rfl⟩

instance : semicolon.Keeps := by unfold semicolon; infer_instance

/-! ### Rules for what a production gives -/

variable {P : List String → α → Prop} {Q : List String → β → Prop}

theorem Gives.conseq {P' : List String → α → Prop} (h : p.Gives c s P)
    (hP : ∀ names a, P names a → P' names a) : p.Gives c s P' :=
  h.mono fun a _ h' => ⟨h'.1, fun names hw => hP names a (h'.2 names hw)⟩

/-- A property that every result has goes with what the production gives. -/
theorem Gives.and {R : α → Prop} (h : p.Gives c s P) (hR : p.Yields c s fun a _ => R a) :
    p.Gives c s fun names a => P names a ∧ R a :=
  fun a s' heq => ⟨(h a s' heq).1, fun names hw => ⟨(h a s' heq).2 names hw, hR a s' heq⟩⟩

theorem Gives.pure {a : α} (h : ∀ names, P names a) : (pure a : Parse α).Gives c s P :=
  Yields.pure ⟨.refl c s, fun names _ => h names⟩

theorem Gives.fail [p.Fails] : p.Gives c s P :=
  Yields.fail

/-- What is known of the first result becomes a premise of what is to be shown of the second. -/
theorem Gives.bind {f : α → Parse β} (hp : p.Gives c s P)
    (hf : ∀ a s', (f a).Gives c s' fun names b => P names a → Q names b) :
    (p >>= f).Gives c s Q :=
  Yields.bind hp fun a s' h => (hf a s').mono fun _ _ h' =>
    ⟨h.1.trans h'.1, fun names hw => h'.2 names hw (h.2 names (hw.before h'.1))⟩

/-- A step of which nothing but its result is used. -/
theorem Gives.skip {f : α → Parse β} [p.Keeps] (hf : ∀ a s', (f a).Gives c s' Q) :
    (p >>= f).Gives c s Q :=
  Yields.bind (Keeps.yields c s) fun a s' h =>
    (hf a s').mono fun _ _ h' => ⟨.trans (.of_eq h) h'.1, h'.2⟩

/-- A check that rejects the text, or passes. -/
theorem Gives.guard {b : Prop} [Decidable b] {f : α → Parse β} {q : Parse β} [p.Fails]
    (hq : ¬b → q.Gives c s Q) : (if b then p >>= f else q).Gives c s Q := by
  split
  · exact .fail
  · next h => exact hq h

/-- A step that is left out in some cases. -/
theorem Gives.optional {b : Prop} [Decidable b] {p : Parse Unit} [p.Keeps] {f : Unit → Parse β}
    (hf : ∀ u s', (f u).Gives c s' Q) : (if b then p >>= f else f ()).Gives c s Q := by
  split
  · exact .skip hf
  · exact hf () s

/-- A first step that is one of two. -/
theorem Gives.bindIte {b : Prop} [Decidable b] {q : Parse α} {f : α → Parse β}
    (hp : b → p.Gives c s P) (hq : ¬b → q.Gives c s P)
    (hf : ∀ a s', (f a).Gives c s' fun names b => P names a → Q names b) :
    (if b then p >>= f else q >>= f).Gives c s Q := by
  split
  · next h => exact .bind (hp h) hf
  · next h => exact .bind (hq h) hf

/-- A first step that is one of two, of which nothing but the result is used. -/
theorem Gives.skipIte {b : Prop} [Decidable b] {q : Parse α} [p.Keeps] [q.Keeps]
    {f : α → Parse β} (hf : ∀ a s', (f a).Gives c s' Q) :
    (if b then p >>= f else q >>= f).Gives c s Q := by
  split
  · exact .skip hf
  · exact .skip hf

theorem Gives.read {f : Surroundings → Parse β} (h : (f c).Gives c s Q) :
    (read >>= f).Gives c s Q :=
  h

theorem Gives.map {f : α → β} (h : p.Gives c s fun names a => Q names (f a)) :
    (f <$> p).Gives c s Q :=
  Yields.map h

theorem Gives.withReader {f : Surroundings → Surroundings} (hf : (f c).inClass = c.inClass)
    (h : p.Gives (f c) s P) : (withReader f p : Parse α).Gives c s P :=
  fun a s' heq =>
    let ⟨hg, hP⟩ := h a s' heq
    ⟨⟨hg.subset, fun hc => hg.outside (hf.trans hc)⟩, hP⟩

theorem Gives.allowIn (h : p.Gives { c with noIn := false } s P) : p.allowIn.Gives c s P :=
  .withReader rfl h

/-- An invariant of the turns of a loop holds of its result. -/
theorem Gives.loop {turn : α → Parse (Turn α β)} (I : List String → α → Prop)
    (h : ∀ a s, (turn a).Gives c s fun names t => I names a →
      match t with
      | .again a' => I names a'
      | .done b => Q names b)
    (fuel : Nat) (a : α) (s : ParseState) :
    (loop turn fuel a).Gives c s fun names b => I names a → Q names b := by
  induction fuel generalizing a s with
  | zero => exact Gives.fail (p := throw _)
  | succ fuel ih =>
    refine .bind (h a s) fun t s' => ?_
    cases t with
    | again a' => exact (ih a' s').conseq fun names b hb ht ha => hb (ht ha)
    | done b => exact .pure fun names ht ha => ht ha

/-- A private name that is used is in use from then on. -/
theorem gives_referPrivate (name : String) (l : Location) :
    (referPrivate name l).Gives c s fun names _ => name ∈ names := by
  refine .read ?_
  split
  · next hc =>
    intro a s' heq
    cases heq
    refine ⟨⟨fun r hr => List.mem_append_left _ hr, fun h => by simp_all⟩, fun names hw => ?_⟩
    exact hw (name, l) (by simp)
  · exact .fail

theorem nodup_of_firstClash {taken seen names : List String}
    (h : firstClash taken seen names = none) :
    names.Nodup ∧ ∀ name ∈ names, name ∉ seen ∧ name ∉ taken := by
  induction names generalizing seen with
  | nil => simp
  | cons name rest ih =>
    simp only [firstClash, Bool.or_eq_true, List.contains_iff_mem] at h
    split at h
    · cases h
    · next hname =>
      obtain ⟨hnodup, hseen⟩ := ih h
      refine ⟨List.nodup_cons.mpr ⟨fun hmem => (hseen name hmem).1 (by simp), hnodup⟩, ?_⟩
      rintro other (_ | ⟨_, hother⟩)
      · exact not_or.mp hname
      · obtain ⟨hother, htaken⟩ := hseen other hother
        exact ⟨fun hmem => hother (List.mem_cons_of_mem _ hmem), htaken⟩

theorem gives_checkDeclarations (topLevel : Bool) (taken : List String) (body : List Stmt) :
    (checkDeclarations topLevel taken body).Gives c s fun _ _ =>
      clash? topLevel taken body = none := by
  unfold checkDeclarations
  split
  · exact .fail
  · next hnone => exact .pure fun _ => hnone

/-- What the check of a statement list finds out. -/
theorem of_clash?_eq_none {l : StatementList} {taken : List String}
    (h : clash? l.topLevel taken l.body = none) :
    l.names.Nodup ∧ (∀ name ∈ l.names, name ∉ taken) ∧
      (l.topLevel = true → ∀ f ∈ Stmt.functionsOf l.body, ∀ name ∈ f.name, name ∉ l.names) := by
  obtain ⟨topLevel, params, body⟩ := l
  cases topLevel with
  | false =>
    obtain ⟨hnodup, htaken⟩ := nodup_of_firstClash h
    exact ⟨hnodup, fun name hname => (htaken name hname).2, nofun⟩
  | true =>
    obtain ⟨hclash, hfunctions⟩ := Option.or_eq_none_iff.mp h
    obtain ⟨hnodup, htaken⟩ := nodup_of_firstClash hclash
    refine ⟨hnodup, fun name hname => (htaken name hname).2, fun _ f hf name hname hmem => ?_⟩
    have hnone := List.find?_eq_none.mp hfunctions name
      (List.mem_filterMap.mpr ⟨f, hf, hname⟩)
    exact hnone (List.contains_iff_mem.mpr hmem)

theorem unambiguous_of_clash? {l : StatementList} {taken : List String}
    (h : clash? l.topLevel taken l.body = none) (hparams : l.params ⊆ taken)
    (hvars : Stmt.varNamesOf l.body ⊆ taken) : l.Unambiguous := by
  obtain ⟨hnodup, htaken, hfunctions⟩ := of_clash?_eq_none h
  exact ⟨hnodup, fun name hname hmem => htaken name hname (hparams hmem),
    fun name hname hmem => htaken name hname (hvars hmem), hfunctions⟩

/-- The parameter of a handler is checked apart from the rest. -/
theorem unambiguous_ofHandler {param : String} {body : List Stmt}
    (hbody : (StatementList.ofBlock body).Unambiguous) (h : clash? false [param] body = none) :
    (StatementList.ofHandler (some param) body).Unambiguous := by
  obtain ⟨-, htaken, -⟩ := of_clash?_eq_none (l := .ofHandler (some param) body) h
  exact ⟨hbody.distinct, htaken, hbody.vars, nofun⟩

/-- What passes the check of an assignment target denotes a place. -/
theorem yields_checkTarget (e : Expr) (l : Location) :
    (checkTarget e l).Yields c s fun _ _ => e.isReference = true := by
  unfold checkTarget
  split
  · exact fun _ _ _ => rfl
  · exact .pure rfl
  · exact .pure rfl
  · exact .fail
  · exact .fail

theorem gives_checkTarget (e : Expr) (l : Location) :
    (checkTarget e l).Gives c s fun _ _ => e.isReference = true :=
  fun a s' heq => ⟨.of_eq (Keeps.yields c s a s' heq),
    fun _ _ => yields_checkTarget e l a s' heq⟩

theorem gives_checkUpdateTarget (first : Bool) (e : Expr) (l : Location) :
    (checkUpdateTarget first e l).Gives c s fun _ _ => e.isReference = true := by
  unfold checkUpdateTarget
  split
  · exact gives_checkTarget _ l
  · exact gives_checkTarget _ l
  · exact gives_checkTarget _ l
  · exact .fail

end Parse

end Ecma
