import Ecma.Proofs.Parser.Statement
import Ecma.Proofs.Syntax.Production

/-! A parser beside the grammar. What a production makes of the surroundings that the flags tell, the
parser does in its own state, and it ends with the flags that it began with. Expressions leave the
names of variables alone, so they are compared by instances (`Mirrors`); statements add to these
names, which `Collects` ties to the tree. -/

namespace Ecma

namespace Parser

/-- A parser has gone on: it has collected the names, and its flags and its open class bodies are
those it had. -/
structure Keeps (m : Parser) (names : List String) (m' : Parser) : Prop where
  flags : m'.toFlags = m.toFlags
  source : m'.source = m.source
  varNames : m'.varNames = names.foldl addName m.varNames
  varDeclarations : m'.varDeclarations = m.varDeclarations ++ names
  outer : m'.privateScopes.tail = m.privateScopes.tail
  declared : m'.privateScopes.head?.map PrivateScope.declared =
    m.privateScopes.head?.map PrivateScope.declared

variable {m m' m'' : Parser} {names names' : List String}

theorem Keeps.refl (m : Parser) : m.Keeps [] m :=
  ⟨rfl, rfl, rfl, (List.append_nil _).symm, rfl, rfl⟩

theorem Keeps.trans (h : m.Keeps names m') (h' : m'.Keeps names' m'') :
    m.Keeps (names ++ names') m'' where
  flags := h'.flags.trans h.flags
  source := h'.source.trans h.source
  varNames := by rw [h'.varNames, h.varNames, List.foldl_append]
  varDeclarations := by rw [h'.varDeclarations, h.varDeclarations, List.append_assoc]
  outer := h'.outer.trans h.outer
  declared := h'.declared.trans h.declared

theorem Keeps.isEmpty_privateScopes (h : m.Keeps names m') :
    m'.privateScopes.isEmpty = m.privateScopes.isEmpty := by
  have hdeclared := h.declared
  cases hm : m.privateScopes <;> cases hm' : m'.privateScopes <;> simp [hm, hm'] at hdeclared ⊢

/-- The text that comes stands in the same surroundings. -/
theorem Keeps.surroundings (h : m.Keeps names m') : m'.surroundings = m.surroundings := by
  have hflags := h.flags
  simp only [Parser.surroundings, h.source, h.isEmpty_privateScopes, hflags]

/-- The number of open class bodies. -/
theorem Keeps.length_privateScopes (h : m.Keeps names m') :
    m'.privateScopes.length = m.privateScopes.length := by
  have hempty := h.isEmpty_privateScopes
  have houter := congrArg List.length h.outer
  cases hm : m.privateScopes <;> cases hm' : m'.privateScopes <;> simp_all

/-! ### One run beside another -/

/-- Two runs fail alike, or both have results that fit, and the parser stands where the production
ends. -/
inductive Alike {α β : Type} (R : α → β → Parser → Prop) :
    Except ParseFailure (α × ParseState) → Except ParseFailure (β × Parser) → Prop
  | ok {a : α} {b : β} {m : Parser} (h : R a b m) : Alike R (.ok (a, m.reading)) (.ok (b, m))
  | error (e : ParseFailure) : Alike R (.error e) (.error e)

variable {α β γ δ : Type}

theorem Alike.of_reading {R : α → β → Parser → Prop} {a : α} {b : β} {s : ParseState}
    (hs : s = m.reading) (h : R a b m) : Alike R (.ok (a, s)) (.ok (b, m)) := by
  subst hs
  exact .ok h

theorem Alike.bind {R : α → β → Parser → Prop} {Q : γ → δ → Parser → Prop}
    {x : Except ParseFailure (α × ParseState)} {y : Except ParseFailure (β × Parser)}
    {f : α × ParseState → Except ParseFailure (γ × ParseState)}
    {k : β × Parser → Except ParseFailure (δ × Parser)} (h : Alike R x y)
    (hf : ∀ a b m, R a b m → Alike Q (f (a, m.reading)) (k (b, m))) :
    Alike Q (x >>= f) (y >>= k) := by
  cases h with
  | ok h => exact hf _ _ _ h
  | error e => exact .error e

theorem Alike.mono {R R' : α → β → Parser → Prop} {x : Except ParseFailure (α × ParseState)}
    {y : Except ParseFailure (β × Parser)} (h : Alike R x y) (hR : ∀ a b m, R a b m → R' a b m) :
    Alike R' x y := by
  cases h with
  | ok h => exact .ok (hR _ _ _ h)
  | error e => exact .error e

/-- From its state a parser does what a production does in the surroundings. -/
def Does (m : Parser) (q : Parse α) (p : Action β) (R : α → β → Parser → Prop) : Prop :=
  Alike R (q m.surroundings m.reading) (p m)

/-- From its state a parser gets what a production gets in the surroundings, and collects names that
fit the result. -/
def Gets (m : Parser) (q : Parse α) (p : Action α) (P : α → List String → Prop) : Prop :=
  m.Does q p fun a b m' => b = a ∧ ∃ names, m.Keeps names m' ∧ P a names

/-- The next turn, or the end, of two loops at once. -/
inductive SameTurn (I : α → β → Prop) (Q : γ → δ → Prop) : Turn α γ → Turn β δ → Prop
  | again {a : α} {b : β} (h : I a b) : SameTurn I Q (.again a) (.again b)
  | done {a : γ} {b : δ} (h : Q a b) : SameTurn I Q (.done a) (.done b)

/-- By induction on the number of turns. -/
theorem Alike.loop {turn : α → Parse (Turn α γ)} {turn' : β → Action (Turn β δ)} {c : Surroundings}
    (I : α → β → Parser → Prop) {Q : γ → δ → Parser → Prop}
    (h : ∀ a b m, I a b m →
      Alike (fun t t' m' => SameTurn (I · · m') (Q · · m') t t') (turn a c m.reading) (turn' b m))
    (fuel : Nat) {a : α} {b : β} {m : Parser} (hab : I a b m) :
    Alike Q (Parse.loop turn fuel a c m.reading) (Action.loop turn' fuel b m) := by
  induction fuel generalizing a b m with
  | zero => exact .error _
  | succ fuel ih =>
    refine Alike.bind (h a b m hab) fun t t' m' ht => ?_
    cases ht with
    | again h => exact ih h
    | done h => exact .ok h

variable {q : Parse α} {p : Action α} {f : α → Parse β} {k : α → Action β}
  {P P' : α → List String → Prop} {Q : β → List String → Prop}

theorem Gets.mono (h : m.Gets q p P) (hP : ∀ a names, P a names → P' a names) : m.Gets q p P' :=
  Alike.mono h fun _ _ _ ⟨heq, names, hkeeps, ha⟩ => ⟨heq, names, hkeeps, hP _ names ha⟩

theorem Gets.pure {a : α} (h : P a []) : m.Gets (pure a) (pure a) P :=
  .ok ⟨rfl, [], .refl m, h⟩

/-- What comes behind a part that does not keep the surroundings. -/
theorem Does.follow {k : γ → Action δ} {p : Action γ} {R : α → γ → Parser → Prop}
    {R' : β → δ → Parser → Prop} (h : m.Does q p R)
    (hf : ∀ a b m', R a b m' → Alike R' (f a m.surroundings m'.reading) (k b m')) :
    m.Does (q >>= f) (p >>= k) R' :=
  Alike.bind h hf

theorem Does.get {k : Parser → Action γ} {R : α → γ → Parser → Prop} (h : m.Does q (k m) R) :
    m.Does q (MonadState.get >>= k) R :=
  h

/-- What comes behind a step of the parser that a production does not see. -/
theorem Does.unseen {p : Action γ} {c : γ} {k : γ → Action δ} {R : α → δ → Parser → Prop}
    (hrun : p m = .ok (c, m')) (hreading : m'.reading = m.reading)
    (hsurroundings : m'.surroundings = m.surroundings) (h : m'.Does q (k c) R) :
    m.Does q (p >>= k) R := by
  change Alike R (q m.surroundings m.reading) (p m >>= fun r => k r.1 r.2)
  rw [hrun, ← hreading, ← hsurroundings]
  exact h

/-- What comes behind a step. -/
theorem Gets.then {k : α → Action γ} {R : β → γ → Parser → Prop} (h : m.Gets q p P)
    (hf : ∀ a names m', m.Keeps names m' → P a names → m'.Does (f a) (k a) R) :
    m.Does (q >>= f) (p >>= k) R := by
  refine Alike.bind h fun a b m' ⟨heq, names, hkeeps, ha⟩ => ?_
  subst heq
  have hnext := hf b names m' hkeeps ha
  rwa [Does, hkeeps.surroundings] at hnext

/-- What comes behind a part has names of its own. -/
theorem Gets.behind {names : List String} (hkeeps : m.Keeps names m')
    (h : m'.Gets q p fun a names' => P a (names ++ names')) :
    Alike (fun a b m'' => b = a ∧ ∃ names, m.Keeps names m'' ∧ P a names)
      (q m.surroundings m'.reading) (p m') := by
  rw [Gets, Does, hkeeps.surroundings] at h
  exact h.mono fun _ _ _ ⟨heq, names', hkeeps', ha⟩ =>
    ⟨heq, names ++ names', hkeeps.trans hkeeps', ha⟩

theorem Gets.bind (h : m.Gets q p P)
    (hf : ∀ a names m', m.Keeps names m' → P a names →
      m'.Gets (f a) (k a) fun b names' => Q b (names ++ names')) :
    m.Gets (q >>= f) (p >>= k) Q := by
  refine Alike.bind h fun a b m' ⟨heq, names, hkeeps, ha⟩ => ?_
  subst heq
  exact Gets.behind hkeeps (hf b names m' hkeeps ha)

/-- A look at the surroundings. -/
theorem Gets.read {f : Surroundings → Parse α} (h : m.Gets (f m.surroundings) p P) :
    m.Gets (read >>= f) p P :=
  h

/-- A look at the state. -/
theorem Gets.get {k : Parser → Action α} (h : m.Gets q (k m) P) : m.Gets q (get >>= k) P :=
  h

/-- A step that sets some flags before a part and puts them back behind it. -/
theorem Gets.within {φ : Surroundings → Surroundings} (enter leave : Flags → Flags)
    (henter : ({ m with toFlags := enter m.toFlags } : Parser).surroundings = φ m.surroundings)
    (hleave : leave (enter m.toFlags) = m.toFlags)
    (h : ({ m with toFlags := enter m.toFlags } : Parser).Gets q p P)
    (hf : ∀ a names m', m.Keeps names m' → P a names →
      m'.Gets (f a) (k a) fun b names' => Q b (names ++ names')) :
    m.Gets (withReader φ q >>= f)
      (do
        modify fun m => { m with toFlags := enter m.toFlags }
        let a ← p
        modify fun m => { m with toFlags := leave m.toFlags }
        k a) Q := by
  rw [Gets, Does, henter] at h
  refine Alike.bind h fun a b m' ⟨heq, names, hkeeps, ha⟩ => ?_
  subst heq
  have hback : m.Keeps names { m' with toFlags := leave m'.toFlags } :=
    { hkeeps with flags := (congrArg leave hkeeps.flags).trans hleave }
  exact Gets.behind hback (hf b names _ hback ha)

end Parser

/-! ### Steps that only take tokens -/

namespace Parse

variable {α β : Type} {q q' : Parse α} {f : α → Parse β}

/-- A production that takes tokens, where semicolons may be left out, and changes nothing else. -/
class Modest (q : Parse α) : Prop where
  yields : ∀ c s, q.Yields c s fun _ s' =>
    s' = { s with tokens := s'.tokens, omitted := s'.omitted }

instance (priority := low) [q.Plain] : q.Modest :=
  ⟨fun c s => (Plain.yields c s).mono fun _ _ h => by rw [h.rest]⟩

theorem Modest.bind [q.Modest] (hf : ∀ a, (f a).Modest) : (q >>= f).Modest :=
  ⟨fun c s => .bind (Modest.yields c s) fun a s' h =>
    ((hf a).yields c s').mono fun _ _ h' => by rw [h', h]⟩

instance [q.Modest] [hf : ∀ a, (f a).Modest] : (q >>= f).Modest := .bind hf

/-- A check that rejects the text, or passes. -/
theorem Modest.guard {b : Prop} [Decidable b] {y : Parse β} [q.Fails] (hy : y.Modest) :
    (if b then q >>= f else y).Modest := by
  split
  · exact ⟨fun _ _ => .bind (Q := fun _ _ => _) (Fails.yields _ _) fun _ _ h => h.elim⟩
  · exact hy

instance {b : Prop} [Decidable b] [q.Modest] [q'.Modest] : (if b then q else q').Modest := by
  split <;> infer_instance

instance : omitSemicolon.Modest :=
  ⟨fun _ _ => Yields.modify.mono fun _ _ h => by rw [h]⟩

instance : semicolon.Modest := by unfold semicolon; infer_instance

/-! ### Steps that do not look at strictness -/

/-- A production that does the same in strict and in sloppy code. -/
class Lax (q : Parse α) : Prop where
  same : ∀ c isStrict s, q { c with strict := isStrict } s = q c s

theorem Lax.bind [hq : q.Lax] (hf : ∀ a, (f a).Lax) : (q >>= f).Lax := by
  refine ⟨fun c isStrict s => ?_⟩
  change (q _ s >>= fun r => f r.1 _ r.2) = (q c s >>= fun r => f r.1 c r.2)
  rw [hq.same]
  exact bind_congr fun r => (hf r.1).same c isStrict r.2

instance [q.Lax] [hf : ∀ a, (f a).Lax] : (q >>= f).Lax := .bind hf

instance {b : Prop} [Decidable b] [q.Lax] [q'.Lax] : (if b then q else q').Lax := by
  split <;> infer_instance

instance (a : α) : (pure a : Parse α).Lax := ⟨fun _ _ _ => rfl⟩

instance (e : ParseFailure) : (throw e : Parse α).Lax := ⟨fun _ _ _ => rfl⟩

instance : (get : Parse ParseState).Lax := ⟨fun _ _ _ => rfl⟩

instance (change : ParseState → ParseState) : (modify change : Parse PUnit).Lax :=
  ⟨fun _ _ _ => rfl⟩

instance (isStrict : Bool) : (withReader (fun c => { c with strict := isStrict }) q).Lax :=
  ⟨fun _ _ _ => rfl⟩

instance (kind : SyntaxErrorKind) (l : Location) : (failAt kind l : Parse α).Lax :=
  inferInstanceAs (throw _ : Parse α).Lax

instance (kind : SyntaxErrorKind) : (fail kind : Parse α).Lax := by
  unfold fail location; infer_instance

instance : (unexpected : Parse α).Lax := by
  unfold unexpected peek? unexpectedToken
  refine .bind fun t => ?_
  cases t <;> infer_instance

instance : skip.Lax := by
  refine .bind fun s => ?_
  cases s.tokens.next? <;> infer_instance

instance : atEnd.Lax := by unfold atEnd; infer_instance

instance (x : Punctuator) : (atPunct x).Lax := by unfold atPunct atKind; infer_instance

instance (x : Punctuator) : (expect x).Lax := by
  unfold expect eat eatKind atKind; infer_instance

instance : Grammar.atUseStrict.Lax := by
  unfold Grammar.atUseStrict peek?
  refine .bind fun t => ?_
  cases t <;> infer_instance

instance : varNames.Lax := by unfold varNames; infer_instance

instance (topLevel : Bool) (taken : List String) (body : List Stmt) :
    (checkDeclarations topLevel taken body).Lax := by
  unfold checkDeclarations
  cases clash? topLevel taken body <;> infer_instance

end Parse

namespace Parser

/-- A production that does the same in strict and in sloppy code is read by a parser that became
strict. -/
theorem Does.restrict {α β : Type} {q : Parse α} {p : Action β} {R : α → β → Parser → Prop}
    {c : Surroundings} {m : Parser} [hq : q.Lax]
    (hc : m.surroundings = { c with strict := m.strict }) (h : m.Does q p R) :
    Alike R (q c m.reading) (p m) := by
  rwa [Does, hc, hq.same] at h

end Parser

/-! ### Expressions -/

namespace Action

variable {α β : Type} {q q' y : Parse α} {p p' z : Action α} {f : α → Parse β} {k : α → Action β}
  {m : Parser} {P : α → List String → Prop} {Q : β → List String → Prop}

/-- Every parser does by an action what a production does in the surroundings, and collects no
name. -/
class Mirrors (q : Parse α) (p : Action α) : Prop where
  gets : ∀ m : Parser, m.Gets q p fun _ names => names = []

end Action

namespace Parser

variable {α β : Type} {q q' : Parse α} {p p' : Action α} {f : α → Parse β} {k : α → Action β}
  {m : Parser} {P P' : α → List String → Prop} {Q : β → List String → Prop}

/-- What comes behind a step that collects no name. -/
theorem Does.skip {γ : Type} {k : α → Action γ} {R : β → γ → Parser → Prop}
    [hq : Action.Mirrors q p] (hf : ∀ a m', m.Keeps [] m' → m'.Does (f a) (k a) R) :
    m.Does (q >>= f) (p >>= k) R := by
  refine (hq.gets m).then fun a names m' hkeeps hnames => ?_
  subst hnames
  exact hf a m' hkeeps

/-- A step that collects no name. -/
theorem Gets.skip [hq : Action.Mirrors q p]
    (hf : ∀ a m', m.Keeps [] m' → m'.Gets (f a) (k a) Q) : m.Gets (q >>= f) (p >>= k) Q := by
  refine (hq.gets m).bind fun a names m' hkeeps hnames => ?_
  subst hnames
  exact hf a m' hkeeps

/-- A step that rejects the text. -/
theorem Gets.fail [hq : Action.Mirrors q p] [q.Fails] : m.Gets q p P := by
  have hgets := hq.gets m
  unfold Gets Does at hgets ⊢
  generalize hrun : q m.surroundings m.reading = x at hgets ⊢
  generalize p m = x' at hgets ⊢
  cases hgets with
  | ok h => exact (Parse.Fails.yields _ _ _ _ hrun).elim
  | error e => exact .error e

/-- What comes behind a step that rejects the text. -/
theorem Does.reject {γ : Type} {k : α → Action γ} {R : β → γ → Parser → Prop}
    [hq : Action.Mirrors q p] [q.Fails] : m.Does (q >>= f) (p >>= k) R := by
  have hfails : m.Gets q p fun _ _ => False := .fail
  exact hfails.then fun _ _ _ _ hfalse => hfalse.elim

/-- A check that rejects the text, or passes. -/
theorem Does.guard {γ : Type} {b : Prop} [Decidable b] {k : α → Action γ} {y : Parse β} {z : Action γ}
    {R : β → γ → Parser → Prop} [Action.Mirrors q p] [q.Fails] (h : m.Does y z R) :
    m.Does (if b then q >>= f else y) (if b then p >>= k else z) R := by
  split
  · exact .reject
  · exact h

/-- By induction on the number of turns. -/
theorem Gets.loopFrom {turn : α → Parse (Turn α β)} {turn' : α → Action (Turn α β)}
    (I : α → List String → Prop)
    (h : ∀ a names m', m.Keeps names m' → I a names → m'.Gets (turn a) (turn' a) fun t names' =>
      match t with
      | .again a' => I a' (names ++ names')
      | .done b => Q b (names ++ names')) (fuel : Nat) (a : α) (names : List String) (m' : Parser)
    (hkeeps : m.Keeps names m') (ha : I a names) :
    m'.Gets (Parse.loop turn fuel a) (Action.loop turn' fuel a) fun b names' =>
      Q b (names ++ names') := by
  induction fuel generalizing a names m' with
  | zero => exact .error _
  | succ fuel ih =>
    refine (h a names m' hkeeps ha).bind fun t names' m'' hkeeps' ht => ?_
    cases t with
    | again a' =>
      refine (ih a' (names ++ names') m'' (hkeeps.trans hkeeps') ht).mono fun b names'' hb => ?_
      rwa [List.append_assoc] at hb
    | done b =>
      refine .pure ?_
      rwa [List.append_nil]

theorem Gets.loop {turn : α → Parse (Turn α β)} {turn' : α → Action (Turn α β)}
    (I : α → List String → Prop)
    (h : ∀ a names m', m.Keeps names m' → I a names → m'.Gets (turn a) (turn' a) fun t names' =>
      match t with
      | .again a' => I a' (names ++ names')
      | .done b => Q b (names ++ names')) {fuel : Nat} {a : α} (ha : I a []) :
    m.Gets (Parse.loop turn fuel a) (Action.loop turn' fuel a) Q :=
  loopFrom I h fuel a [] m (.refl m) ha

end Parser

namespace Action

variable {α β : Type} {q q' y : Parse α} {p p' z : Action α} {f : α → Parse β} {k : α → Action β}
  {m : Parser} {P P' : α → List String → Prop} {Q : β → List String → Prop}

/-- A production that only takes tokens is a step of the parser. -/
theorem gets_lift [hq : q.Modest] (h : q.Yields m.surroundings m.reading fun a _ => P a []) :
    m.Gets q (liftM q) P := by
  have hyields := hq.yields m.surroundings m.reading
  change Parser.Alike _ _ ((q m.surroundings m.reading).map _)
  cases hrun : q m.surroundings m.reading with
  | error e => exact .error e
  | ok r =>
    obtain ⟨a, s⟩ := r
    have hs : s = ({ m with tokens := s.tokens, omitted := s.omitted } : Parser).reading :=
      hyields a s hrun
    have hkeeps : m.Keeps [] { m with tokens := s.tokens, omitted := s.omitted } :=
      ⟨rfl, rfl, rfl, (List.append_nil _).symm, rfl, rfl⟩
    exact Parser.Alike.of_reading hs ⟨rfl, [], hkeeps, h a s hrun⟩

instance [q.Modest] : Mirrors q (liftM q) :=
  ⟨fun _ => gets_lift fun _ _ _ => rfl⟩

instance (a : α) : Mirrors (pure a) (pure a) :=
  ⟨fun _ => .pure rfl⟩

theorem Mirrors.step [Mirrors q p] (hf : ∀ a, Mirrors (f a) (k a)) :
    Mirrors (q >>= f) (p >>= k) :=
  ⟨fun _ => .skip fun a m' _ => (hf a).gets m'⟩

instance [Mirrors q p] [hf : ∀ a, Mirrors (f a) (k a)] : Mirrors (q >>= f) (p >>= k) :=
  .step hf

instance {b : Prop} [Decidable b] [Mirrors q p] [Mirrors q' p'] :
    Mirrors (if b then q else q') (if b then p else p') := by
  split <;> infer_instance

instance {f : α → β} [Mirrors q p] : Mirrors (f <$> q) (f <$> p) := by
  rw [map_eq_pure_bind, map_eq_pure_bind]
  infer_instance

/-- A check that rejects the text, or passes. -/
theorem Mirrors.guard {b : Prop} [Decidable b] {y : Parse β} {z : Action β} [Mirrors q p] [q.Fails]
    (hy : Mirrors y z) : Mirrors (if b then q >>= f else y) (if b then p >>= k else z) := by
  split
  · exact ⟨fun _ => .bind (P := fun _ _ => False) .fail fun _ _ _ _ h => h.elim⟩
  · exact hy

/-- A step that is left out in some cases. -/
theorem Mirrors.optional {b : Prop} [Decidable b] {q : Parse Unit} {p : Action Unit}
    {f : Unit → Parse β} {k : Unit → Action β} [Mirrors q p] (hf : ∀ u, Mirrors (f u) (k u)) :
    Mirrors (if b then q >>= f else f ()) (if b then p >>= k else k ()) := by
  split
  · exact .step hf
  · exact hf ()

/-- What comes behind one of two steps. -/
theorem Mirrors.either {b : Prop} [Decidable b] [Mirrors q p] [Mirrors q' p']
    (hf : ∀ a, Mirrors (f a) (k a)) :
    Mirrors (if b then q >>= f else q' >>= f) (if b then p >>= k else p' >>= k) := by
  split
  · exact .step hf
  · exact .step hf

theorem Mirrors.loop {turn : α → Parse (Turn α β)} {turn' : α → Action (Turn α β)}
    (h : ∀ a, Mirrors (turn a) (turn' a)) {fuel fuel' : Nat} (hfuel : fuel' = fuel) {a : α} :
    Mirrors (Parse.loop turn fuel a) (Action.loop turn' fuel' a) := by
  subst hfuel
  refine ⟨fun m => .loop (fun _ names => names = []) (fun a names m' _ hnames => ?_) rfl⟩
  subst hnames
  refine ((h a).gets m').mono fun t names hnames => ?_
  cases t <;> exact hnames

/-- The parser looks at its flags where the production looks at the surroundings. -/
theorem Mirrors.look {f : Surroundings → Parse β} {k : Parser → Action β}
    (h : ∀ m : Parser, Mirrors (f m.surroundings) (k m)) : Mirrors (read >>= f) (get >>= k) :=
  ⟨fun m => (h m).gets m⟩

theorem Mirrors.allowIn (hq : Mirrors q p) : Mirrors (Parse.allowIn q) (allowIn p) := by
  refine ⟨fun m => ?_⟩
  rw [Parse.allowIn, ← bind_pure (withReader _ q)]
  exact .within (fun flags => { flags with noIn := false })
    (fun flags => { flags with noIn := m.noIn }) rfl rfl (hq.gets _)
    fun a names m' _ hnames => .pure (by rw [hnames]; rfl)

instance [Mirrors q p] : Mirrors (Parse.allowIn q) (allowIn p) :=
  .allowIn inferInstance

instance {xs : List α} {step : α → PUnit → Parse (ForInStep PUnit)}
    {step' : α → PUnit → Action (ForInStep PUnit)} [h : ∀ a u, Mirrors (step a u) (step' a u)] :
    Mirrors (forIn xs PUnit.unit step) (forIn xs PUnit.unit step') := by
  induction xs with
  | nil => exact inferInstanceAs (Mirrors (pure PUnit.unit) (pure PUnit.unit))
  | cons x xs ih =>
    rw [List.forIn_cons, List.forIn_cons]
    refine .step fun r => ?_
    cases r with
    | done u => exact inferInstanceAs (Mirrors (pure u) (pure u))
    | yield u => exact ih

/-! ### Statements -/

/-- Where `in` is an operator, every parser does by an action what a production does in the
surroundings, and collects names that fit the result. -/
def Collects (q : Parse α) (p : Action α) (P : α → List String → Prop) : Prop :=
  ∀ m : Parser, m.noIn = false → m.Gets q p P

theorem Collects.fail [Mirrors q p] [q.Fails] : Collects q p P :=
  fun _ _ => .fail

theorem Collects.pure {a : α} (h : P a []) : Collects (pure a) (pure a) P :=
  fun _ _ => .pure h

theorem Collects.lift [q.Modest] (h : ∀ c s, q.Yields c s fun a _ => P a []) :
    Collects q (liftM q) P :=
  fun _ _ => gets_lift (h _ _)

theorem Collects.mono (h : Collects q p P) (hP : ∀ a names, P a names → P' a names) :
    Collects q p P' :=
  fun m hm => (h m hm).mono hP

theorem Collects.bind (h : Collects q p P)
    (hf : ∀ a names, P a names → Collects (f a) (k a) fun b names' => Q b (names ++ names')) :
    Collects (q >>= f) (p >>= k) Q :=
  fun m hm => (h m hm).bind fun a names m' hkeeps ha =>
    hf a names ha m' ((congrArg Flags.noIn hkeeps.flags).trans hm)

/-- A step that collects no name. -/
theorem Collects.skip [hq : Mirrors q p] (hf : ∀ a, Collects (f a) (k a) Q) :
    Collects (q >>= f) (p >>= k) Q :=
  .bind (fun m _ => hq.gets m) fun a names hnames => by subst hnames; exact hf a

/-- A check that rejects the text, or passes. -/
theorem Collects.guard {b : Prop} [Decidable b] {y : Parse β} {z : Action β} [Mirrors q p]
    [q.Fails] (hy : Collects y z Q) :
    Collects (if b then q >>= f else y) (if b then p >>= k else z) Q := by
  split
  · exact .bind (P := fun _ _ => False) .fail fun _ _ h => h.elim
  · exact hy

theorem Collects.loop {turn : α → Parse (Turn α β)} {turn' : α → Action (Turn α β)}
    (I : α → List String → Prop)
    (h : ∀ a names, I a names → Collects (turn a) (turn' a) fun t names' =>
      match t with
      | .again a' => I a' (names ++ names')
      | .done b => Q b (names ++ names')) {fuel fuel' : Nat} (hfuel : fuel' = fuel) {a : α}
    (ha : I a []) : Collects (Parse.loop turn fuel a) (Action.loop turn' fuel' a) Q := by
  subst hfuel
  exact fun m hm => .loop I (fun a names m' hkeeps ha =>
    h a names ha m' ((congrArg Flags.noIn hkeeps.flags).trans hm)) ha

end Action

end Ecma
