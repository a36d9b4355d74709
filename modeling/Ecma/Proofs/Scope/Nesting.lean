import Ecma.Proofs.Scope.Call

/-! Scopes inside each other. Evaluations change what names hold, but not which names a scope binds
once it has been filled, nor of which kind and whether with a value, nor what it stands in. So a name
that means a binding goes on to mean it. -/

namespace Ecma

/-- A binding is of the same kind as before, and has a value if it had one. -/
structure Binding.Keeps (b b' : Binding) : Prop where
  kind : b'.kind = b.kind
  initialised : b.value.isSome = true → b'.value.isSome = true

theorem Binding.Keeps.refl (b : Binding) : b.Keeps b :=
  ⟨rfl, id⟩

theorem Binding.Keeps.trans {b₁ b₂ b₃ : Binding} (h₁ : b₁.Keeps b₂) (h₂ : b₂.Keeps b₃) :
    b₁.Keeps b₃ :=
  ⟨h₂.kind.trans h₁.kind, h₂.initialised ∘ h₁.initialised⟩

namespace Environment

/-- A scope stands in the same scope as before, and keeps its bindings but for some names. -/
structure KeepsBut (but : Set String) (e e' : Environment) : Prop where
  parent : e'.parent = e.parent
  has : ∀ name, name ∉ but → e'.has name = e.has name
  bindings : ∀ name b, name ∉ but → e.bindings.lookup name = some b →
    ∃ b', e'.bindings.lookup name = some b' ∧ b.Keeps b'

variable {e e' e₁ e₂ e₃ : Environment} {but : Set String} {name : String}

theorem KeepsBut.of_lookup (hparent : e'.parent = e.parent)
    (h : ∀ name, name ∉ but → e'.bindings.lookup name = e.bindings.lookup name) :
    e.KeepsBut but e' :=
  ⟨hparent, fun name hname => has_eq_of_lookup (h name hname),
    fun name b hname hb => ⟨b, (h name hname).trans hb, .refl b⟩⟩

theorem KeepsBut.of_eq (hparent : e'.parent = e.parent) (h : e'.bindings = e.bindings) :
    e.KeepsBut but e' :=
  .of_lookup hparent fun _ _ => h ▸ rfl

theorem KeepsBut.refl (but : Set String) (e : Environment) : e.KeepsBut but e :=
  .of_eq rfl rfl

theorem KeepsBut.trans (h₁ : e₁.KeepsBut but e₂) (h₂ : e₂.KeepsBut but e₃) :
    e₁.KeepsBut but e₃ where
  parent := h₂.parent.trans h₁.parent
  has name hname := (h₂.has name hname).trans (h₁.has name hname)
  bindings name b hname hb := by
    obtain ⟨b', hb', hkeeps⟩ := h₁.bindings name b hname hb
    obtain ⟨b'', hb'', hkeeps'⟩ := h₂.bindings name b' hname hb'
    exact ⟨b'', hb'', hkeeps.trans hkeeps'⟩

/-- The name is bound by `let` and has a value. -/
def Lets (e : Environment) (name : String) : Prop :=
  ∃ v, e.bindings.lookup name = some ⟨.letVar, some v⟩

theorem Lets.has (h : e.Lets name) : e.has name = true := by
  obtain ⟨v, hv⟩ := h
  rw [Environment.has, hv, Option.isSome_some]

theorem KeepsBut.lets (h : e.KeepsBut but e') (hname : name ∉ but) (hlets : e.Lets name) :
    e'.Lets name := by
  obtain ⟨v, hv⟩ := hlets
  obtain ⟨⟨kind, value⟩, hb, hkind, hvalue⟩ := h.bindings name _ hname hv
  obtain ⟨w, rfl⟩ := Option.isSome_iff_exists.mp (hvalue rfl)
  cases hkind
  exact ⟨w, hb⟩

/-- A binding is replaced by one of the same kind. -/
theorem keepsBut_put {b b' : Binding} (hb : e.bindings.lookup name = some b) (h : b.Keeps b') :
    e.KeepsBut but { e with bindings := put name b' e.bindings } := by
  refine ⟨rfl, fun other _ => ?_, fun other old _ hold => ?_⟩
  · by_cases heq : other = name
    · rw [heq, has, has, lookup_put_self, hb, Option.isSome_some, Option.isSome_some]
    · exact has_eq_of_lookup (lookup_put_ne heq _)
  · by_cases heq : other = name
    · subst heq
      rw [hb] at hold
      cases hold
      exact ⟨b', lookup_put_self _, h⟩
    · exact ⟨old, (lookup_put_ne heq _).trans hold, .refl old⟩

theorem keepsBut_initialise (e : Environment) (name : String) (v : Value) :
    e.KeepsBut but (e.initialise name v) := by
  unfold initialise
  split
  · next b hb => exact keepsBut_put hb ⟨rfl, fun _ => rfl⟩
  · exact .refl but e

theorem keepsBut_declare (hname : name ∈ but) (kind : BindingKind) :
    e.KeepsBut but (e.declare name kind) := by
  refine .of_lookup rfl fun other hother => ?_
  have hne : other ≠ name := fun heq => hother (heq ▸ hname)
  exact lookup_declare_ne hne kind

theorem keepsBut_declareNew (e : Environment) (hname : name ∈ but) (kind : BindingKind) :
    e.KeepsBut but (e.declareNew name kind) := by
  unfold declareNew
  split
  · exact .refl but e
  · exact keepsBut_declare hname kind

theorem keepsBut_declareLexical {bindings : List (String × VarKind)}
    (h : ∀ name ∈ bindings.map Prod.fst, name ∈ but) :
    e.KeepsBut but (e.declareLexical bindings) := by
  induction bindings generalizing e with
  | nil => exact .refl but e
  | cons b rest ih =>
    have hfirst : e.KeepsBut but (e.declare b.1 b.2.bindingKind) :=
      keepsBut_declare (h b.1 (by simp)) b.2.bindingKind
    exact hfirst.trans (ih fun name hname => h name (List.mem_cons_of_mem _ hname))

theorem keepsBut_bindParameters {params : List String} (h : ∀ param ∈ params, param ∈ but)
    (args : List Value) : e.KeepsBut but (e.bindParameters params args) := by
  induction params generalizing e args with
  | nil => exact .refl but e
  | cons param rest ih =>
    have hfirst := e.keepsBut_declareNew (h param (by simp)) .var
    refine (hfirst.trans (keepsBut_initialise _ param (args.headD .undefined))).trans ?_
    exact ih (fun other hother => h other (List.mem_cons_of_mem _ hother)) args.tail

theorem keepsBut_declareVars {names : List String} (h : ∀ name ∈ names, name ∈ but) :
    e.KeepsBut but (e.declareVars names) := by
  induction names generalizing e with
  | nil => exact .refl but e
  | cons name rest ih =>
    have hfirst := e.keepsBut_declareNew (h name (by simp)) .var
    exact hfirst.trans (ih fun other hother => h other (List.mem_cons_of_mem _ hother))

theorem keepsBut_set {e' : Environment} {v : Value} {strict : Bool}
    (h : e.set name v strict = .ok e') : e.KeepsBut but e' := by
  unfold set at h
  split at h
  · cases h
  · cases h
  · cases h
  · split at h
    · cases h
    · cases h
      exact .refl but e
  · next kind old _ _ hb =>
    cases h
    exact keepsBut_put hb ⟨rfl, fun _ => rfl⟩

end Environment

namespace Scopes

/-- Scopes are only added; those that are there stand in the same scopes as before, and keep their
bindings but for some names. -/
structure KeepsBut (but : Set (ScopeRef × String)) (s s' : Scopes) : Prop where
  size : s.environments.size ≤ s'.environments.size
  environments : ∀ q : ScopeRef, q.index < s.environments.size →
    (s.get q).KeepsBut {name | (q, name) ∈ but} (s'.get q)

/-- Scopes are only added; those that are there stand in the same scopes as before, and keep their
bindings. -/
abbrev Keeps : Scopes → Scopes → Prop :=
  KeepsBut ∅

variable {s s' s₁ s₂ s₃ : Scopes} {but but' : Set (ScopeRef × String)} {p q r : ScopeRef}

theorem KeepsBut.refl (but : Set (ScopeRef × String)) (s : Scopes) : s.KeepsBut but s :=
  ⟨Nat.le_refl _, fun q _ => .refl _ (s.get q)⟩

theorem KeepsBut.trans (h₁ : s₁.KeepsBut but s₂) (h₂ : s₂.KeepsBut but s₃) : s₁.KeepsBut but s₃ :=
  ⟨Nat.le_trans h₁.size h₂.size, fun q hq =>
    (h₁.environments q hq).trans (h₂.environments q (Nat.lt_of_lt_of_le hq h₁.size))⟩

/-- What is done to scopes that were not there does not count. -/
theorem KeepsBut.forget (h : s.KeepsBut but' s')
    (hnew : ∀ p ∈ but', p ∈ but ∨ s.environments.size ≤ p.1.index) : s.KeepsBut but s' :=
  have hnot {q : ScopeRef} (hq : q.index < s.environments.size) {name : String}
      (hname : (q, name) ∉ but) : (q, name) ∉ but' :=
    fun hmem => (hnew _ hmem).elim hname (Nat.not_le.mpr hq)
  ⟨h.size, fun q hq => ⟨(h.environments q hq).parent,
    fun name hname => (h.environments q hq).has name (hnot hq hname),
    fun name b hname => (h.environments q hq).bindings name b (hnot hq hname)⟩⟩

theorem KeepsBut.mono (h : s.KeepsBut but s') (hsub : but ⊆ but') : s.KeepsBut but' s' :=
  h.forget fun _ hp => .inl (hsub hp)

theorem keepsBut_push (s : Scopes) (e : Environment) : s.KeepsBut but (s.push e) where
  size := by simp [push]
  environments q hq := by
    rw [get_push_of_lt hq]
    exact .refl _ _

theorem keepsBut_modify {f : Environment → Environment}
    (h : (s.get q).KeepsBut {name | (q, name) ∈ but} (f (s.get q))) :
    s.KeepsBut but (s.modify q f) where
  size := by simp [modify]
  environments p _ := by
    obtain heq | ⟨rfl, heq⟩ := s.get_modify_cases q f p
    · exact heq ▸ .refl _ _
    · exact heq ▸ h

/-! ### Standing inside -/

/-- A scope stands directly in one that was there before it, and binds no names but some. -/
structure Nests (s : Scopes) (p : ScopeRef) (names : List String) (q : ScopeRef) : Prop where
  lt : q.index < s.environments.size
  older : p.index < q.index
  parent : (s.get q).parent = some p
  binds : ∀ name, (s.get q).has name = true → name ∈ names

/-- From a scope outwards one comes to the scope `r`, which has values for the names `held`, bound
by `let`, through scopes that bind no names but some. -/
inductive Leads (s : Scopes) (r : ScopeRef) (held : List String) : List String → ScopeRef → Prop
  | here (h : r.index < s.environments.size) (hheld : ∀ name ∈ held, (s.get r).Lets name) :
    Leads s r held [] r
  | nested {names bound : List String} {p q : ScopeRef} (hp : Leads s r held names p)
    (hq : s.Nests p bound q) : Leads s r held (bound ++ names) q

variable {names held : List String} {name : String}

theorem Nests.keep (h : s.Nests p names q) (hs : s.KeepsBut but s')
    (hq : ∀ name, (q, name) ∉ but) : s'.Nests p names q where
  lt := Nat.lt_of_lt_of_le h.lt hs.size
  older := h.older
  parent := (hs.environments q h.lt).parent.trans h.parent
  binds name hname := h.binds name ((hs.environments q h.lt).has name (hq name) ▸ hname)

theorem Leads.lt (h : s.Leads r held names q) : q.index < s.environments.size := by
  cases h with
  | here h => exact h
  | nested _ hq => exact hq.lt

theorem Leads.lets (h : s.Leads r held names q) (hheld : name ∈ held) : (s.get r).Lets name := by
  induction h with
  | here _ hr => exact hr name hheld
  | nested _ _ ih => exact ih

theorem Leads.le (h : s.Leads r held names q) : r.index ≤ q.index := by
  induction h with
  | here _ _ => exact Nat.le_refl _
  | nested _ hq ih => exact Nat.le_of_lt (Nat.lt_of_le_of_lt ih hq.older)

/-- What older scopes bind makes no difference. -/
theorem Leads.keep (h : s.Leads r held names q) (hs : s.KeepsBut but s')
    (hbut : ∀ p ∈ but, p.1.index < r.index) : s'.Leads r held names q := by
  have hnot {q : ScopeRef} (hq : r.index ≤ q.index) (name : String) : (q, name) ∉ but :=
    fun hmem => Nat.not_le.mpr (hbut _ hmem) hq
  induction h with
  | here h hheld =>
    exact .here (Nat.lt_of_lt_of_le h hs.size) fun name hname =>
      (hs.environments r h).lets (hnot (Nat.le_refl _) name) (hheld name hname)
  | nested hp hq ih =>
    exact .nested ih (hq.keep hs (hnot (Leads.nested hp hq).le))

/-- In a state that keeps all scopes, a scope stands where it stood. -/
theorem Leads.kept (h : s.Leads r held names q) (hs : s.Keeps s') : s'.Leads r held names q :=
  h.keep hs fun p hp => absurd hp (Set.notMem_empty p)

/-- A scope has filled a new one inside an old one. -/
theorem nests_next {e : Environment} (hs : (s.push e).KeepsBut but s')
    (hp : p.index < s.environments.size) (hparent : e.parent = some p)
    (hbinds : ∀ name, e.has name = true → name ∈ names)
    (hbut : ∀ name, (s.next, name) ∈ but → name ∈ names) : s'.Nests p names s.next := by
  have hlt : s.next.index < (s.push e).environments.size := by simp [push, next]
  have hkept := hs.environments s.next hlt
  rw [get_push_next] at hkept
  refine ⟨Nat.lt_of_lt_of_le hlt hs.size, hp, hkept.parent.trans hparent, fun name hname => ?_⟩
  by_cases hmem : (s.next, name) ∈ but
  · exact hbut name hmem
  · exact hbinds name (hkept.has name hmem ▸ hname)

/-- A copy of a scope stands where the scope stands, and binds the same names. -/
theorem Nests.copy (h : s.Nests p names q) : (s.push (s.get q).copy).Nests p names s.next where
  lt := by simp [push, next]
  older := Nat.lt_trans h.older h.lt
  parent := by rw [get_push_next, Environment.copy, h.parent]
  binds name hname := h.binds name (by rwa [get_push_next] at hname)

/-- A name that a scope binds, and no scope on the way to it, means the binding there. -/
theorem Leads.findBinding? (h : s.Leads r held names q) (hheld : name ∈ held)
    (hname : name ∉ names) : s.findBinding? name q = some r := by
  suffices ∀ fuel, q.index < fuel → s.findFrom (·.has name) fuel q = some r from this _ h.lt
  induction h with
  | here _ hr =>
    rintro (_ | fuel) hfuel
    · cases hfuel
    · simp only [findFrom, (hr name hheld).has, if_true]
  | nested _ hq ih =>
    rw [List.mem_append, not_or] at hname
    rintro (_ | fuel) hfuel
    · cases hfuel
    · have hnot := mt (hq.binds name) hname.1
      simp only [findFrom, hnot, hq.parent]
      have := hq.older
      exact ih hname.2 fuel (by omega)

end Scopes

theorem Eval.resolve_of_leads {t : State} {q r : ScopeRef} {names held : List String}
    {name : String} (h : t.scopes.Leads r held names q) (hheld : name ∈ held)
    (hname : name ∉ names) : Eval.resolve name q t = .ok (.binding r name) t := by
  simp only [resolve, scopes_bind, h.findBinding? hheld hname]
  rfl

end Ecma
