import Ecma.Eval.State
import Ecma.Proofs.Object.Evolution
import Ecma.Proofs.Object.Privates
import Ecma.Proofs.Syntax.Place

/-! What holds of the store between any two steps of a script. Every function object fits its code:
the scopes that it sees are those of the calls and classes around the place of the code in a script,
with the private names of the classes, and a home object or a target of `new` where the code uses
`super`. -/

namespace Ecma

/-! ### Places -/

namespace Scopes

theorem get_modify_cases (s : Scopes) (q : ScopeRef) (f : Environment → Environment)
    (p : ScopeRef) :
    (s.modify q f).get p = s.get p ∨ (p = q ∧ (s.modify q f).get p = f (s.get p)) := by
  simp only [get, modify, Array.getD_eq_getD_getElem?, Array.getElem?_modify]
  by_cases heq : q.index = p.index
  · simp only [heq, if_true]
    cases hget : s.environments[p.index]? with
    | none => exact .inl rfl
    | some e =>
      have hp : p = q := by cases p; cases q; simp_all
      exact .inr ⟨hp, rfl⟩
  · exact .inl (by simp [heq])

theorem get_modify_self {s : Scopes} {q : ScopeRef} (hq : q.index < s.environments.size)
    (f : Environment → Environment) : (s.modify q f).get q = f (s.get q) := by
  simp only [get, modify, Array.getD_eq_getD_getElem?, Array.getElem?_modify, if_true]
  rw [Array.getElem?_eq_getElem hq]
  rfl

theorem get_push_of_lt {s : Scopes} {q : ScopeRef} (hq : q.index < s.environments.size)
    (e : Environment) : (s.push e).get q = s.get q := by
  simp [get, push, Array.getD_eq_getD_getElem?, Array.getElem?_push, Nat.ne_of_lt hq]

theorem get_push_cases (s : Scopes) (e : Environment) (p : ScopeRef) :
    (s.push e).get p = s.get p ∨ (p = s.next ∧ s.get p = {} ∧ (s.push e).get p = e) := by
  simp only [get, push, next, Array.getD_eq_getD_getElem?, Array.getElem?_push]
  by_cases heq : p.index = s.environments.size
  · have hp : p = ⟨s.environments.size⟩ := by cases p; simp_all
    exact .inr ⟨hp, by simp [heq]⟩
  · exact .inl (by simp [heq])

theorem get_push_next (s : Scopes) (e : Environment) : (s.push e).get s.next = e := by
  simp [get, push, next]

theorem modify_push_next (s : Scopes) (e : Environment) (f : Environment → Environment) :
    (s.push e).modify s.next f = s.push (f e) := by
  simp only [push, modify, next, mk.injEq]
  refine Array.ext_getElem? fun i => ?_
  simp only [Array.getElem?_modify, Array.getElem?_push]
  split
  · next heq => simp [← heq]
  · next hne => simp [Ne.symm hne]

/-- There is nothing outside the range. -/
theorem get_of_not_lt {s : Scopes} {q : ScopeRef} (hq : ¬q.index < s.environments.size) :
    s.get q = {} := by
  simp [get, Array.getD_eq_getD_getElem?, Nat.not_lt.mp hq]

theorem lt_of_parent {s : Scopes} {p q : ScopeRef} (h : (s.get q).parent = some p) :
    q.index < s.environments.size := by
  refine Decidable.by_contra fun hq => ?_
  rw [get_of_not_lt hq] at h
  cases h

theorem lt_of_function {s : Scopes} {q : ScopeRef} {f : FunctionScope}
    (h : (s.get q).function = some f) : q.index < s.environments.size := by
  refine Decidable.by_contra fun hq => ?_
  rw [get_of_not_lt hq] at h
  cases h

end Scopes

/-! ### What stays -/

/-- A scope may gain bindings; the call that it belongs to stays, and so do its private names. -/
structure Environment.Extends (e e' : Environment) : Prop where
  parent : e'.parent = e.parent
  callee : e'.function.map FunctionScope.function = e.function.map FunctionScope.function
  target : e'.function.map FunctionScope.newTarget = e.function.map FunctionScope.newTarget
  privateNames : e'.privateNames = e.privateNames

namespace Environment.Extends

variable {e e₁ e₂ e₃ : Environment}

theorem refl (e : Environment) : e.Extends e :=
  ⟨rfl, rfl, rfl, rfl⟩

theorem trans (h₁ : e₁.Extends e₂) (h₂ : e₂.Extends e₃) : e₁.Extends e₃ :=
  ⟨h₂.parent.trans h₁.parent, h₂.callee.trans h₁.callee, h₂.target.trans h₁.target,
    h₂.privateNames.trans h₁.privateNames⟩

theorem function_none (h : e₁.Extends e₂) (hf : e₁.function = none) : e₂.function = none := by
  have hcallee := h.callee
  rw [hf] at hcallee
  simpa using hcallee

theorem function_some (h : e₁.Extends e₂) {f : FunctionScope} (hf : e₁.function = some f) :
    ∃ f', e₂.function = some f' ∧ f'.function = f.function ∧ f'.newTarget = f.newTarget := by
  have hcallee := h.callee
  have htarget := h.target
  rw [hf] at hcallee htarget
  obtain ⟨f', hf', hfunction⟩ := Option.map_eq_some_iff.mp hcallee
  rw [hf'] at htarget
  exact ⟨f', hf', hfunction, Option.some.inj htarget⟩

end Environment.Extends

namespace ScriptFunction

/-- A function that differs at most in the private elements of what it constructs. -/
def Same (f f' : ScriptFunction) : Prop :=
  ∃ elements, f' = { f with privateMethods := elements }

theorem Same.refl (f : ScriptFunction) : f.Same f :=
  ⟨f.privateMethods, rfl⟩

theorem Same.trans {f g h : ScriptFunction} (hfg : f.Same g) (hgh : g.Same h) : f.Same h := by
  obtain ⟨_, rfl⟩ := hfg
  obtain ⟨elements, rfl⟩ := hgh
  exact ⟨elements, rfl⟩

end ScriptFunction

namespace ObjectData

/-- What every step does to an object, whatever the descriptions that it is given: stored keys stay
well-formed, and the object stays the function that it is. -/
structure Remains (o o' : ObjectData) : Prop where
  wellFormed : o.WellFormed → o'.WellFormed
  kind : o'.kind = o.kind ∨
    ∃ f f', o.kind = .function f ∧ o'.kind = .function f' ∧ f.Same f'

/-- What a step does that gives nothing private elements. -/
structure Stays (o o' : ObjectData) : Prop extends Remains o o' where
  privates : o.KeepsPrivates o'

variable {o o' : ObjectData} {key : PropertyKey} {d : Descriptor}

theorem stays_define (h : o.define key d = some o') : o.Stays o' :=
  ⟨⟨fun hwf => hwf.define h, .inl (kind_define h)⟩,
    .of_kind (privateElements_define h) (kind_define h)⟩

theorem stays_delete (h : o.delete key = some o') : o.Stays o' :=
  ⟨⟨fun hwf => hwf.delete h, .inl (kind_delete h)⟩,
    .of_kind (privateElements_delete h) (kind_delete h)⟩

/-- Only the properties and the kind matter. -/
theorem Remains.of_eq (hproperties : o'.properties = o.properties) (hkind : o'.kind = o.kind) :
    o.Remains o' :=
  ⟨fun hwf => hwf.of_eq (by rw [keys, hproperties, keys]) (exoticProperty?_of_kind hkind),
    .inl hkind⟩

theorem Stays.of_eq (hproperties : o'.properties = o.properties) (hkind : o'.kind = o.kind)
    (hprivates : o'.privateElements = o.privateElements) : o.Stays o' :=
  ⟨.of_eq hproperties hkind, .of_kind hprivates hkind⟩

end ObjectData

namespace Store

/-- Nothing that code relies on is lost: scopes stay where they are, and functions what they
are. -/
structure Grows (st st' : Store) : Prop where
  size : st.scopes.environments.size ≤ st'.scopes.environments.size
  environments : ∀ q : ScopeRef, q.index < st.scopes.environments.size →
    (st.scopes.get q).Extends (st'.scopes.get q)
  functions : ∀ o f, st.heap.scriptFunction? o = some f →
    ∃ f', st'.heap.scriptFunction? o = some f' ∧ f.Same f'

/-- A later store, in which every object is one that it may become. -/
structure Follows (st st' : Store) : Prop extends Grows st st' where
  evolves : ∀ o, (st.heap.get o).Evolves (st'.heap.get o)

variable {st st' st₁ st₂ st₃ : Store} {p q : ScopeRef}

theorem Grows.refl (st : Store) : st.Grows st :=
  ⟨Nat.le_refl _, fun _ _ => .refl _, fun _ f hf => ⟨f, hf, .refl f⟩⟩

theorem Grows.trans (h₁ : st₁.Grows st₂) (h₂ : st₂.Grows st₃) : st₁.Grows st₃ where
  size := Nat.le_trans h₁.size h₂.size
  environments q hq := (h₁.environments q hq).trans
    (h₂.environments q (Nat.lt_of_lt_of_le hq h₁.size))
  functions o f hf := by
    obtain ⟨g, hg, hfg⟩ := h₁.functions o f hf
    obtain ⟨k, hk, hgk⟩ := h₂.functions o g hg
    exact ⟨k, hk, hfg.trans hgk⟩

theorem Follows.refl (st : Store) : st.Follows st :=
  ⟨.refl st, fun _ => .refl _⟩

theorem Follows.trans (h₁ : st₁.Follows st₂) (h₂ : st₂.Follows st₃) : st₁.Follows st₃ :=
  ⟨h₁.toGrows.trans h₂.toGrows, fun o => (h₁.evolves o).trans (h₂.evolves o)⟩

/-- A scope with a parent keeps it. -/
theorem Grows.parent (h : st.Grows st') (hp : (st.scopes.get q).parent = some p) :
    (st'.scopes.get q).parent = some p :=
  (h.environments q (Scopes.lt_of_parent hp)).parent.trans hp

end Store

/-! ### The places that scopes are for -/

namespace Site

def place (l : Site) : Place :=
  ⟨l.program, (l.frames.map Frame.around).filter Around.isCode⟩

/-- A statement does not change the place of the code in it. -/
theorem place_enter {l : Site} {a : Around} (ha : a.isCode = false) (q : ScopeRef) :
    (l.enter a q).place = l.place := by
  simp [place, enter, ha]

end Site

namespace Store

/-- A scope stands directly inside another one, in the same call, and declares private names. -/
structure Inside (st : Store) (p q : ScopeRef) (names : List String) : Prop where
  parent : (st.scopes.get q).parent = some p
  lt : p.index < q.index
  function : (st.scopes.get q).function = none
  names : (st.scopes.get q).privateNames.map Prod.fst = names

/-- The scope `q` is that of a call of code, in the scope `p` that its function sees. The code may
use `super` as it does: the callee has a home object, and the call a target of `new`. -/
structure Calls (st : Store) (p q : ScopeRef) (code : FunctionCode)
    (superProperty superCall : Bool) : Prop where
  parent : (st.scopes.get q).parent = some p
  lt : p.index < q.index
  names : (st.scopes.get q).privateNames = []
  function : ∃ f callee, (st.scopes.get q).function = some f ∧
    st.heap.scriptFunction? f.function = some callee ∧ callee.code = code ∧
    (superProperty = true → callee.homeObject.isSome = true) ∧
    (superCall = true → f.newTarget.isSome = true)

/-- A scope and those around it are the ones that code at a site runs in. -/
inductive Hosts (st : Store) : ScopeRef → Site → Prop
  | global {program : Program} : Hosts st Intrinsic.globalScope ⟨program, []⟩
  | inner {p q : ScopeRef} {l : Site} (inside : st.Inside p q []) (h : Hosts st p l) : Hosts st q l
  | statement {q : ScopeRef} {l : Site} {a : Around} (ha : a.isCode = false) (h : Hosts st q l) :
    Hosts st q (l.enter a q)
  | classScope {p q : ScopeRef} {l : Site} {a : Around} {c : ClassDef} (hc : a.classDef? = some c)
    (inside : st.Inside p q (distinctNames c.privateNames)) (h : Hosts st p l) :
    Hosts st q (l.enter a q)
  | call {p q : ScopeRef} {l : Site} {d : FunctionDef} {superProperty superCall : Bool}
    (calls : st.Calls p q (.script d) superProperty superCall) (h : Hosts st p l) :
    Hosts st q (l.enter (.function d superProperty superCall) q)

variable {st st' : Store} {p q : ScopeRef} {l : Site} {names : List String}

theorem Inside.mono (hq : st.Inside p q names) (h : st.Grows st') : st'.Inside p q names :=
  have hext := h.environments q (Scopes.lt_of_parent hq.parent)
  ⟨h.parent hq.parent, hq.lt, hext.function_none hq.function, hext.privateNames ▸ hq.names⟩

theorem Calls.mono {code : FunctionCode} {superProperty superCall : Bool}
    (hq : st.Calls p q code superProperty superCall) (h : st.Grows st') :
    st'.Calls p q code superProperty superCall := by
  have hext := h.environments q (Scopes.lt_of_parent hq.parent)
  refine ⟨h.parent hq.parent, hq.lt, hext.privateNames.trans hq.names, ?_⟩
  obtain ⟨f, callee, hf, hcallee, hcode, hhome, htarget⟩ := hq.function
  obtain ⟨f', hf', hfunction, hnew⟩ := hext.function_some hf
  obtain ⟨callee', hcallee', elements, rfl⟩ := h.functions _ callee hcallee
  rw [← hfunction] at hcallee'
  exact ⟨f', _, hf', hcallee', hcode, hhome, hnew ▸ htarget⟩

theorem Hosts.mono (hq : st.Hosts q l) (h : st.Grows st') : st'.Hosts q l := by
  induction hq with
  | global => exact .global
  | inner inside _ ih => exact .inner (inside.mono h) ih
  | statement ha _ ih => exact .statement ha ih
  | classScope hc inside _ ih => exact .classScope hc (inside.mono h) ih
  | call calls _ ih => exact .call (calls.mono h) ih

theorem Hosts.lt (hq : st.Hosts q l) (hpos : 0 < st.scopes.environments.size) :
    q.index < st.scopes.environments.size := by
  induction hq with
  | global => exact hpos
  | inner inside => exact Scopes.lt_of_parent inside.parent
  | statement _ _ ih => exact ih
  | classScope _ inside => exact Scopes.lt_of_parent inside.parent
  | call calls => exact Scopes.lt_of_parent calls.parent

end Store

/-! ### Searching outwards -/

namespace Scopes

theorem findFrom_sound {s : Scopes} {p : Environment → Bool} {fuel : Nat} {start found : ScopeRef}
    (h : s.findFrom p fuel start = some found) : p (s.get found) = true := by
  induction fuel generalizing start with
  | zero => cases h
  | succ fuel ih =>
    simp only [findFrom] at h
    split at h
    · next hp =>
      cases h
      exact hp
    · split at h
      · exact ih h
      · cases h

/-- One step of the search. Parents have smaller references, so the fuel lasts. -/
theorem findFrom_outer {s : Scopes} {p : Environment → Bool} {start outer found : ScopeRef}
    (hparent : (s.get start).parent = some outer) (hlt : outer.index < start.index)
    (hp : p (s.get start) = false)
    (h : ∀ {fuel}, outer.index < fuel → s.findFrom p fuel outer = some found) {fuel : Nat}
    (hfuel : start.index < fuel) : s.findFrom p fuel start = some found := by
  obtain ⟨rest, rfl⟩ := Nat.exists_eq_add_one_of_ne_zero (Nat.ne_zero_of_lt hfuel)
  simp only [findFrom, hp, Bool.false_eq_true, if_false, hparent]
  exact h (Nat.lt_of_lt_of_le hlt (Nat.le_of_lt_succ hfuel))

theorem findFrom_here {s : Scopes} {p : Environment → Bool} {fuel : Nat} {start : ScopeRef}
    (hfuel : start.index < fuel) (hp : p (s.get start) = true) :
    s.findFrom p fuel start = some start := by
  obtain ⟨rest, rfl⟩ := Nat.exists_eq_add_one_of_ne_zero (Nat.ne_zero_of_lt hfuel)
  simp [findFrom, hp]

end Scopes

namespace Store

variable {st st' : Store} {p q : ScopeRef} {l : Site}

/-- A scope that declares names has those, and no others. -/
theorem Inside.isSome_lookup_iff {names : List String} (hq : st.Inside p q names) {name : String} :
    ((st.scopes.get q).privateNames.lookup name).isSome = true ↔ name ∈ names := by
  simp only [← hq.names, List.lookup_isSome_iff, List.mem_map, beq_iff_eq]
  exact ⟨fun ⟨n, hn, heq⟩ => ⟨n, hn, heq.symm⟩, fun ⟨n, hn, heq⟩ => ⟨n, hn, heq.symm⟩⟩

/-- The search for a private name ends at the innermost class around the code that declares it,
whether the code is in its body or in its `extends` clause. -/
theorem Hosts.findFrom_privateName (hq : st.Hosts q l) {name : String} {frame : Frame}
    (hframe : l.frames.find? (·.around.declares name) = some frame) {fuel : Nat}
    (hfuel : q.index < fuel) :
    st.scopes.findFrom (fun e => (e.privateNames.lookup name).isSome) fuel q =
      some frame.scope := by
  induction hq generalizing fuel with
  | global => cases hframe
  | inner inside _ ih =>
    refine Scopes.findFrom_outer inside.parent inside.lt ?_ (ih hframe) hfuel
    rw [List.map_eq_nil_iff.mp inside.names]
    rfl
  | @statement q l a ha _ ih =>
    have hnot : a.declares name = false := by
      rw [Around.declares, Around.classDef?_of_not_isCode ha]
      rfl
    rw [Site.enter, List.find?_cons_of_neg (by simp [hnot])] at hframe
    exact ih hframe hfuel
  | @classScope p q l a c hc inside _ ih =>
    have hdeclares : a.declares name = true ↔
        ((st.scopes.get q).privateNames.lookup name).isSome = true := by
      rw [inside.isSome_lookup_iff, mem_distinctNames]
      simp [Around.declares, hc]
    rw [Site.enter, List.find?_cons] at hframe
    cases hhere : a.declares name with
    | true =>
      rw [hhere] at hframe
      cases hframe
      exact Scopes.findFrom_here hfuel (hdeclares.mp hhere)
    | false =>
      rw [hhere] at hframe
      refine Scopes.findFrom_outer inside.parent inside.lt ?_ (ih hframe) hfuel
      rw [Bool.eq_false_iff, Ne, ← hdeclares, hhere]
      exact Bool.false_ne_true
  | call calls _ ih =>
    refine Scopes.findFrom_outer calls.parent calls.lt ?_ (ih hframe) hfuel
    rw [calls.names]
    rfl

/-- A private name that the code at a site uses stands for the one in the scope of the innermost
class around it that declares the name. -/
theorem Hosts.findPrivateName? (hq : st.Hosts q l) (hpos : 0 < st.scopes.environments.size)
    {name : String} (hname : l.place.Has (.key (.privateName name))) :
    ∃ frame n, l.frames.find? (·.around.declares name) = some frame ∧
      (st.scopes.get frame.scope).privateNames.lookup name = some n ∧
      st.scopes.findPrivateName? name q = some n := by
  obtain ⟨a, ha, hgrants⟩ := hname.granted
  obtain ⟨inner, hmem, rfl⟩ := List.mem_map.mp (List.mem_of_mem_filter ha)
  have hsome : (l.frames.find? (·.around.declares name)).isSome = true :=
    List.find?_isSome.mpr ⟨inner, hmem, Around.declares_of_grants hgrants⟩
  obtain ⟨frame, hframe⟩ := Option.isSome_iff_exists.mp hsome
  have hfound := hq.findFrom_privateName hframe (hq.lt hpos)
  obtain ⟨n, hn⟩ := Option.isSome_iff_exists.mp (Scopes.findFrom_sound hfound)
  refine ⟨frame, n, hframe, hn, ?_⟩
  rw [Scopes.findPrivateName?, Scopes.find?, hfound, Option.bind_some, hn]

/-! ### Calls around a scope -/

/-- The scope `q` is inside the scope `found` of a call, and in no call inside that. -/
inductive InCall (st : Store) (found : ScopeRef) : ScopeRef → Prop
  | here (function : (st.scopes.get found).function.isSome = true) : InCall st found found
  | inside {p q : ScopeRef} {names : List String} (inside : st.Inside p q names)
    (h : InCall st found p) : InCall st found q

theorem InCall.findFrom {found : ScopeRef} (hq : st.InCall found q) {fuel : Nat}
    (hfuel : q.index < fuel) :
    st.scopes.findFrom (·.function.isSome) fuel q = some found := by
  induction hq generalizing fuel with
  | here function => exact Scopes.findFrom_here hfuel function
  | inside inside _ ih =>
    exact Scopes.findFrom_outer inside.parent inside.lt (by simp [inside.function]) ih hfuel

theorem InCall.lt {found : ScopeRef} (hq : st.InCall found q) :
    q.index < st.scopes.environments.size := by
  cases hq with
  | here function =>
    obtain ⟨f, hf⟩ := Option.isSome_iff_exists.mp function
    exact Scopes.lt_of_function hf
  | inside inside => exact Scopes.lt_of_parent inside.parent

theorem InCall.findFunction? {found : ScopeRef} (hq : st.InCall found q) :
    st.scopes.findFunction? q = some found :=
  hq.findFrom hq.lt

theorem InCall.mono {found : ScopeRef} (hq : st.InCall found q) (h : st.Grows st') :
    st'.InCall found q := by
  induction hq with
  | here function =>
    obtain ⟨f, hf⟩ := Option.isSome_iff_exists.mp function
    obtain ⟨f', hf', -⟩ := (h.environments _ (Scopes.lt_of_function hf)).function_some hf
    exact .here (by simp [hf'])
  | inside inside _ ih => exact .inside (inside.mono h) ih

/-- Code that may use `super` is in the scope of a call that serves it. -/
theorem Hosts.inCall (hq : st.Hosts q l)
    (hsuper : l.place.rights.superProperty = true ∨ l.place.rights.superCall = true) :
    ∃ p found code, st.InCall found q ∧ st.Calls p found code l.place.rights.superProperty
      l.place.rights.superCall := by
  induction hq with
  | global => rcases hsuper with h | h <;> cases h
  | inner inside _ ih =>
    obtain ⟨p, found, code, hfound, hcalls⟩ := ih hsuper
    exact ⟨p, found, code, .inside inside hfound, hcalls⟩
  | @statement q l a ha _ ih =>
    rw [Site.place_enter ha] at hsuper ⊢
    exact ih hsuper
  | @classScope _ _ _ a _ hc inside _ ih =>
    cases a with
    | heritage | classBody =>
      obtain ⟨p, found, code, hfound, hcalls⟩ := ih hsuper
      exact ⟨p, found, code, .inside inside hfound, hcalls⟩
    | _ => cases hc
  | @call p q _ _ _ _ calls _ _ =>
    obtain ⟨f, _, hf, -⟩ := calls.function
    exact ⟨p, q, _, .here (by simp [hf]), calls⟩

end Store

/-! ### Sound stores -/

/-- The function sees the scopes of the site at which its code stands. Only the constructor of a
class may have a parent to call. -/
structure ScriptFunction.Fits (f : ScriptFunction) (st : Store) : Prop where
  hosts : st.Hosts f.scope f.site
  stands : ∀ d, f.code = .script d → f.site.place.Has
    (.function d f.homeObject.isSome (f.constructorKind == some .derived))
  derived : f.constructorKind = some .derived → f.classSource.isSome = true

namespace Store

/-- Every private name has been made for one spelling in one scope. -/
structure Names (st : Store) : Prop where
  made : ∀ q name n, (name, n) ∈ (st.scopes.get q).privateNames → n.id < st.nextPrivateName
  unique : ∀ q q' name name' n, (name, n) ∈ (st.scopes.get q).privateNames →
    (name', n) ∈ (st.scopes.get q').privateNames → q' = q ∧ name' = name

theorem Names.mono {st st' : Store} (hst : st.Names)
    (hscopes : ∀ q, (st'.scopes.get q).privateNames ⊆ (st.scopes.get q).privateNames)
    (hnext : st.nextPrivateName ≤ st'.nextPrivateName) : st'.Names where
  made q name n h := Nat.lt_of_lt_of_le (hst.made q name n (hscopes q h)) hnext
  unique q q' name name' n h h' := hst.unique q q' name name' n (hscopes q h) (hscopes q' h')

/-- What every script finds and leaves. -/
structure Sound (st : Store) : Prop where
  scopes : 0 < st.scopes.environments.size
  functions : ∀ o f, st.heap.scriptFunction? o = some f → f.Fits st
  objects : ∀ o, (st.heap.get o).WellFormed
  incidents : st.incidents = []
  names : st.Names
  privates : st.heap.Whole
  used : ∀ n, st.heap.Uses n → n.id < st.nextPrivateName

end Store

namespace ScriptFunction

variable {f f' : ScriptFunction} {st st' : Store}

theorem Fits.mono (hf : f.Fits st) (h : st.Grows st') : f.Fits st' :=
  ⟨hf.hosts.mono h, hf.stands, hf.derived⟩

theorem Fits.of_same (hf : f.Fits st) (h : f.Same f') : f'.Fits st := by
  obtain ⟨_, rfl⟩ := h
  exact ⟨hf.hosts, hf.stands, hf.derived⟩

end ScriptFunction

namespace Store

variable {st st' : Store}

theorem scriptFunction?_eq_some_iff {h : Heap} {o : ObjectRef} {f : ScriptFunction} :
    h.scriptFunction? o = some f ↔ (h.get o).kind = .function f := by
  unfold Heap.scriptFunction?
  split
  · next hkind =>
    rw [hkind]
    exact ⟨fun heq => congrArg _ (Option.some.inj heq), fun heq => by cases heq; rfl⟩
  · next hkind => exact ⟨fun heq => (nomatch heq), fun heq => absurd heq (hkind f)⟩

/-! ### Changing the store -/

/-- An object that stays what it is leaves the store as code relies on it. -/
theorem Grows.modifyObject {o : ObjectRef} {f : ObjectData → ObjectData}
    (hf : (st.heap.get o).Remains (f (st.heap.get o))) :
    st.Grows { st with heap := st.heap.modify o f } where
  size := Nat.le_refl _
  environments _ _ := .refl _
  functions p g hg := by
    simp only [scriptFunction?_eq_some_iff] at hg ⊢
    obtain heq | ⟨rfl, heq⟩ := st.heap.get_modify_cases o f p
    · exact ⟨g, heq ▸ hg, .refl g⟩
    · rw [heq]
      obtain hkind | ⟨g', g'', hg', hg'', hsame⟩ := hf.kind
      · exact ⟨g, hkind.trans hg, .refl g⟩
      · cases hg'.symm.trans hg
        exact ⟨g'', hg'', hsame⟩

/-- An object may change if the heap stays whole and uses no private name that is still to come. -/
theorem Sound.changeObject (hst : st.Sound) {o : ObjectRef} {f : ObjectData → ObjectData}
    (hf : (st.heap.get o).Remains (f (st.heap.get o))) (hwhole : (st.heap.modify o f).Whole)
    (hused : ∀ n, (st.heap.modify o f).Uses n → n.id < st.nextPrivateName) :
    Sound { st with heap := st.heap.modify o f } where
  scopes := hst.scopes
  functions p g hg := by
    refine ScriptFunction.Fits.mono ?_ (Grows.modifyObject hf)
    simp only [scriptFunction?_eq_some_iff] at hg
    obtain heq | ⟨rfl, heq⟩ := st.heap.get_modify_cases o f p
    · exact hst.functions p g (scriptFunction?_eq_some_iff.mpr (heq ▸ hg))
    · rw [heq] at hg
      obtain hkind | ⟨g', g'', hg', hg'', hsame⟩ := hf.kind
      · exact hst.functions p g (scriptFunction?_eq_some_iff.mpr (hkind ▸ hg))
      · cases hg''.symm.trans hg
        exact (hst.functions p g' (scriptFunction?_eq_some_iff.mpr hg')).of_same hsame
  objects p := by
    obtain heq | ⟨rfl, heq⟩ := st.heap.get_modify_cases o f p
    · exact heq ▸ hst.objects p
    · exact heq ▸ hf.wellFormed (hst.objects p)
  incidents := hst.incidents
  names := hst.names.mono (fun _ => List.Subset.refl _) (Nat.le_refl _)
  privates := hwhole
  used := hused

theorem Sound.modifyObject (hst : st.Sound) {o : ObjectRef} {f : ObjectData → ObjectData}
    (hf : (st.heap.get o).Stays (f (st.heap.get o))) :
    Sound { st with heap := st.heap.modify o f } := by
  have hkeeps := Heap.keepsPrivates_modify hf.privates
  exact hst.changeObject hf.toRemains (hst.privates.of_keeps hkeeps) fun n hn =>
    hst.used n ((Heap.uses_of_keeps hkeeps).mp hn)

theorem Follows.modifyObject {o : ObjectRef} {f : ObjectData → ObjectData}
    (hf : (st.heap.get o).Remains (f (st.heap.get o)))
    (hevolves : (st.heap.get o).Evolves (f (st.heap.get o))) :
    st.Follows { st with heap := st.heap.modify o f } where
  toGrows := .modifyObject hf
  evolves p := by
    obtain heq | ⟨rfl, heq⟩ := st.heap.get_modify_cases o f p
    · exact heq ▸ .refl _
    · exact heq ▸ hevolves

/-- A new object takes a place where nothing was. -/
theorem Follows.pushObject (st : Store) (data : ObjectData) :
    st.Follows { st with heap := st.heap.push data } where
  size := Nat.le_refl _
  environments _ _ := .refl _
  functions p g hg := by
    simp only [scriptFunction?_eq_some_iff] at hg ⊢
    obtain heq | ⟨hempty, -⟩ := st.heap.get_push_cases data p
    · exact ⟨g, heq ▸ hg, .refl g⟩
    · rw [hempty] at hg
      cases hg
  evolves p := by
    obtain heq | ⟨hempty, -⟩ := st.heap.get_push_cases data p
    · exact heq ▸ .refl _
    · exact hempty ▸ .of_empty (fun _ => rfl) rfl

theorem Sound.pushObject (hst : st.Sound) {data : ObjectData} (hempty : data.properties = [])
    (hprivates : data.privateElements = [])
    (hkind : ∀ f, data.kind = .function f → f.privateMethods = [] ∧ f.Fits st) :
    Sound { st with heap := st.heap.push data } where
  scopes := hst.scopes
  functions p g hg := by
    refine ScriptFunction.Fits.mono ?_ (Follows.pushObject st data).toGrows
    obtain heq | ⟨-, heq⟩ := st.heap.get_push_cases data p
    · exact hst.functions p g (scriptFunction?_eq_some_iff.mpr
        (heq ▸ scriptFunction?_eq_some_iff.mp hg))
    · exact (hkind g (heq ▸ scriptFunction?_eq_some_iff.mp hg)).2
  objects p := by
    obtain heq | ⟨-, heq⟩ := st.heap.get_push_cases data p
    · exact heq ▸ hst.objects p
    · exact .of_empty ((congrArg ObjectData.properties heq).trans hempty)
  incidents := hst.incidents
  names := hst.names.mono (fun _ => List.Subset.refl _) (Nat.le_refl _)
  privates := hst.privates.of_keeps (Heap.keepsPrivates_push hprivates
    (ObjectData.instanceNames_eq_nil fun f hf => (hkind f hf).1))
  used n hn := hst.used n <| (Heap.uses_of_keeps (Heap.keepsPrivates_push hprivates
    (ObjectData.instanceNames_eq_nil fun f hf => (hkind f hf).1))).mp hn

theorem Follows.pushScope (st : Store) (e : Environment) :
    st.Follows { st with scopes := st.scopes.push e } where
  size := by simp [Scopes.push]
  environments q hq := by rw [Scopes.get_push_of_lt hq]; exact .refl _
  functions _ f hf := ⟨f, hf, .refl f⟩
  evolves _ := .refl _

theorem Follows.modifyScope {q : ScopeRef} {f : Environment → Environment}
    (hf : (st.scopes.get q).Extends (f (st.scopes.get q))) :
    st.Follows { st with scopes := st.scopes.modify q f } where
  size := by simp [Scopes.modify]
  environments p _ := by
    obtain heq | ⟨rfl, heq⟩ := st.scopes.get_modify_cases q f p
    · exact heq ▸ .refl _
    · exact heq ▸ hf
  functions _ g hg := ⟨g, hg, .refl g⟩
  evolves _ := .refl _

/-- A store with the same heap and scopes is as good. -/
theorem Follows.of_eq (hheap : st'.heap = st.heap) (hscopes : st'.scopes = st.scopes) :
    st.Follows st' where
  size := Nat.le_of_eq (congrArg (·.environments.size) hscopes.symm)
  environments _ _ := by rw [hscopes]; exact .refl _
  functions _ f hf := ⟨f, hheap ▸ hf, .refl f⟩
  evolves _ := by rw [hheap]; exact .refl _

/-- Soundness is about the heap and what the scopes are for. -/
theorem Sound.of_heap (hst : st.Sound) (h : st.Follows st') (hnames : st'.Names)
    (hheap : st'.heap = st.heap) (hincidents : st'.incidents = st.incidents)
    (hnext : st.nextPrivateName ≤ st'.nextPrivateName) : st'.Sound where
  scopes := Nat.lt_of_lt_of_le hst.scopes h.size
  functions o f hf := (hst.functions o f (hheap ▸ hf)).mono h.toGrows
  objects o := hheap ▸ hst.objects o
  incidents := hincidents.trans hst.incidents
  names := hnames
  privates := hheap ▸ hst.privates
  used n hn := Nat.lt_of_lt_of_le (hst.used n (hheap ▸ hn)) hnext

theorem Sound.of_eq (hst : st.Sound) (hheap : st'.heap = st.heap) (hscopes : st'.scopes = st.scopes)
    (hincidents : st'.incidents = st.incidents)
    (hnext : st.nextPrivateName ≤ st'.nextPrivateName) : st'.Sound :=
  hst.of_heap (.of_eq hheap hscopes)
    (hst.names.mono (fun _ => by rw [hscopes]; exact List.Subset.refl _) hnext) hheap hincidents
    hnext

theorem Sound.modifyScope (hst : st.Sound) {q : ScopeRef} {f : Environment → Environment}
    (hf : (st.scopes.get q).Extends (f (st.scopes.get q))) :
    Sound { st with scopes := st.scopes.modify q f } := by
  refine hst.of_heap (.modifyScope hf) (hst.names.mono (fun p => ?_) (Nat.le_refl _)) rfl rfl
    (Nat.le_refl _)
  obtain heq | ⟨rfl, heq⟩ := st.scopes.get_modify_cases q f p
  · rw [heq]
    exact List.Subset.refl _
  · rw [heq, hf.privateNames]
    exact List.Subset.refl _

/-- A new scope may have private names, if they are new and no two of them are the same. -/
theorem Sound.pushScope (hst : st.Sound) {e : Environment} {next : Nat}
    (hnext : st.nextPrivateName ≤ next)
    (hnew : ∀ name n, (name, n) ∈ e.privateNames → st.nextPrivateName ≤ n.id ∧ n.id < next)
    (hunique : ∀ name name' n, (name, n) ∈ e.privateNames → (name', n) ∈ e.privateNames →
      name' = name) :
    Sound { st with scopes := st.scopes.push e, nextPrivateName := next } := by
  have hpush : st.Follows { st with scopes := st.scopes.push e, nextPrivateName := next } :=
    (Follows.pushScope st e).trans (.of_eq rfl rfl)
  -- An entry of a scope is one that was there, or one of the new scope.
  have hentry {p : ScopeRef} {entry : String × PrivateName}
      (h : entry ∈ ((st.scopes.push e).get p).privateNames) :
      entry ∈ (st.scopes.get p).privateNames ∨
        p = st.scopes.next ∧ entry ∈ e.privateNames := by
    obtain heq | ⟨rfl, -, heq⟩ := st.scopes.get_push_cases e p
    · exact .inl (heq ▸ h)
    · exact .inr ⟨rfl, heq ▸ h⟩
  refine hst.of_heap hpush ⟨fun p name n h => ?_, fun p p' name name' n h h' => ?_⟩ rfl rfl hnext
  · rcases hentry h with hold | ⟨-, hmem⟩
    · exact Nat.lt_of_lt_of_le (hst.names.made p name n hold) hnext
    · exact (hnew name n hmem).2
  · rcases hentry h with hold | ⟨rfl, hmem⟩ <;> rcases hentry h' with hold' | ⟨rfl, hmem'⟩
    · exact hst.names.unique p p' name name' n hold hold'
    · exact absurd (hst.names.made p name n hold) (Nat.not_lt.mpr (hnew name' n hmem').1)
    · exact absurd (hst.names.made p' name' n hold') (Nat.not_lt.mpr (hnew name n hmem).1)
    · exact ⟨rfl, hunique name name' n hmem hmem'⟩

/-! ### Private names that are still to be given -/

/-- A later store makes new private names only, and of those that were made it uses no other ones than
before, but those of some scopes. -/
structure Reserves (but : Set (ScopeRef × String)) (st st' : Store) : Prop where
  next : st.nextPrivateName ≤ st'.nextPrivateName
  made : ∀ q name n, st.scopes.environments.size ≤ q.index →
    (name, n) ∈ (st'.scopes.get q).privateNames → st.nextPrivateName ≤ n.id
  used : ∀ n, st'.heap.Uses n → n.id < st.nextPrivateName → st.heap.Uses n ∨
    ∃ p ∈ but, ∃ name, (name, n) ∈ (st.scopes.get p.1).privateNames

variable {but but' : Set (ScopeRef × String)} {st₁ st₂ st₃ : Store}

/-- New private names come with new scopes. -/
theorem Reserves.of_scopes (hheap : st'.heap = st.heap)
    (hnext : st.nextPrivateName ≤ st'.nextPrivateName)
    (hmade : ∀ q name n, st.scopes.environments.size ≤ q.index →
      (name, n) ∈ (st'.scopes.get q).privateNames → st.nextPrivateName ≤ n.id) :
    Reserves but st st' :=
  ⟨hnext, hmade, fun _ hn _ => .inl (hheap ▸ hn)⟩

/-- There is no name outside the range of the scopes. -/
theorem not_mem_privateNames {q : ScopeRef} (hq : st.scopes.environments.size ≤ q.index)
    (entry : String × PrivateName) : entry ∉ (st.scopes.get q).privateNames := by
  rw [Scopes.get_of_not_lt (Nat.not_lt.mpr hq)]
  exact List.not_mem_nil

theorem Reserves.of_heap (hscopes : st'.scopes = st.scopes)
    (hnext : st.nextPrivateName ≤ st'.nextPrivateName)
    (hused : ∀ n, st'.heap.Uses n → n.id < st.nextPrivateName → st.heap.Uses n ∨
      ∃ p ∈ but, ∃ name, (name, n) ∈ (st.scopes.get p.1).privateNames) : Reserves but st st' :=
  ⟨hnext, fun _ _ _ hq hmem => absurd (hscopes ▸ hmem) (not_mem_privateNames hq _), hused⟩

/-- The heap uses no other private names than before. -/
theorem Reserves.of_uses (hscopes : st'.scopes = st.scopes)
    (hnext : st.nextPrivateName ≤ st'.nextPrivateName)
    (hused : ∀ n, st'.heap.Uses n → st.heap.Uses n) : Reserves but st st' :=
  .of_heap hscopes hnext fun n hn _ => .inl (hused n hn)

theorem Reserves.of_eq (hheap : st'.heap = st.heap) (hscopes : st'.scopes = st.scopes)
    (hnext : st.nextPrivateName ≤ st'.nextPrivateName) : Reserves but st st' :=
  .of_uses hscopes hnext fun _ hn => hheap ▸ hn

theorem Reserves.refl (but : Set (ScopeRef × String)) (st : Store) : Reserves but st st :=
  .of_eq rfl rfl (Nat.le_refl _)

theorem Reserves.of_keeps (hscopes : st'.scopes = st.scopes)
    (hnext : st.nextPrivateName ≤ st'.nextPrivateName)
    (hkeeps : ∀ p, (st.heap.get p).KeepsPrivates (st'.heap.get p)) : Reserves but st st' :=
  .of_uses hscopes hnext fun _ hn => (Heap.uses_of_keeps hkeeps).mp hn

theorem Reserves.modifyScope {q : ScopeRef} {f : Environment → Environment}
    (hf : (st.scopes.get q).Extends (f (st.scopes.get q))) :
    Reserves but st { st with scopes := st.scopes.modify q f } := by
  refine .of_scopes rfl (Nat.le_refl _) fun p name n hp hmem => ?_
  refine absurd (?_ : (name, n) ∈ (st.scopes.get p).privateNames) (not_mem_privateNames hp _)
  obtain heq | ⟨rfl, heq⟩ := st.scopes.get_modify_cases q f p
  · exact heq ▸ hmem
  · rwa [heq, hf.privateNames] at hmem

theorem Reserves.pushScope {e : Environment} {next : Nat} (hnext : st.nextPrivateName ≤ next)
    (hnew : ∀ name n, (name, n) ∈ e.privateNames → st.nextPrivateName ≤ n.id) :
    Reserves but st { st with scopes := st.scopes.push e, nextPrivateName := next } := by
  refine .of_scopes rfl hnext fun p name n hp hmem => ?_
  obtain heq | ⟨-, -, heq⟩ := st.scopes.get_push_cases e p
  · exact absurd (heq ▸ hmem) (not_mem_privateNames hp _)
  · exact hnew name n (heq ▸ hmem)

theorem Reserves.mono (h : Reserves but st st') (hsub : but ⊆ but') : Reserves but' st st' :=
  ⟨h.next, h.made, fun n hn hlt => (h.used n hn hlt).imp_right fun ⟨p, hp, hname⟩ =>
    ⟨p, hsub hp, hname⟩⟩

theorem Reserves.trans (hgrows : st₁.Grows st₂) (h₁ : Reserves but st₁ st₂)
    (hgrows' : st₂.Grows st₃) (h₂ : Reserves but st₂ st₃) : Reserves but st₁ st₃ := by
  refine ⟨Nat.le_trans h₁.next h₂.next, fun q name n hq hmem => ?_, fun n hn hlt => ?_⟩
  · by_cases hlt : q.index < st₂.scopes.environments.size
    · exact h₁.made q name n hq ((hgrows'.environments q hlt).privateNames ▸ hmem)
    · exact Nat.le_trans h₁.next (h₂.made q name n (Nat.not_lt.mp hlt) hmem)
  · rcases h₂.used n hn (Nat.lt_of_lt_of_le hlt h₁.next) with hn | ⟨p, hp, name, hmem⟩
    · exact h₁.used n hn hlt
    · by_cases hold : p.1.index < st₁.scopes.environments.size
      · exact .inr ⟨p, hp, name, (hgrows.environments p.1 hold).privateNames ▸ hmem⟩
      · exact absurd (h₁.made p.1 name n (Nat.not_lt.mp hold) hmem) (Nat.not_le.mpr hlt)

/-- Nothing uses the private names of a scope yet. -/
def Unused (st : Store) (q : ScopeRef) : Prop :=
  ∀ name n, (name, n) ∈ (st.scopes.get q).privateNames →
    n.id < st.nextPrivateName ∧ ¬st.heap.Uses n

theorem Unused.mono {q : ScopeRef} (hq : st.Unused q) (hlt : q.index < st.scopes.environments.size)
    (hgrows : st.Grows st') (h : Reserves ∅ st st') : st'.Unused q := by
  intro name n hmem
  rw [(hgrows.environments q hlt).privateNames] at hmem
  obtain ⟨hmade, hunused⟩ := hq name n hmem
  refine ⟨Nat.lt_of_lt_of_le hmade h.next, fun hn => ?_⟩
  rcases h.used n hn hmade with hold | ⟨p, hp, -⟩
  · exact hunused hold
  · exact absurd hp (Set.notMem_empty p)

/-- What is done with the names of scopes that are new does not count. -/
theorem Reserves.forget (h : Reserves but' st st')
    (hnew : ∀ p ∈ but', p ∈ but ∨ st.scopes.environments.size ≤ p.1.index) :
    Reserves but st st' := by
  refine ⟨h.next, h.made, fun n hn hlt => (h.used n hn hlt).imp_right ?_⟩
  rintro ⟨p, hp, name, hmem⟩
  exact ⟨p, (hnew p hp).resolve_right fun hq => not_mem_privateNames hq _ hmem, name, hmem⟩

end Store

end Ecma
