import Ecma.Proofs.Syntax.Variables

/-! The names that the head of a loop binds. They are distinct, but unlike those of a statement list
they are not held against the variables that the body of the loop declares: such a variable belongs
to the function or script around the loop, and no statement list in between binds its name. -/

namespace Ecma

/-- The names that the head of a loop binds for the loop alone. -/
def ForInit.boundNames : ForInit → List String
  | .variables kind declarators => if kind = .var then [] else Stmt.declaratorNames declarators
  | _ => []

theorem ForInit.Legal.nodup_boundNames {r : Rights} {i : ForInit} (h : i.Legal r) :
    i.boundNames.Nodup := by
  cases h with
  | @«variables» _ kind declarators _ hd =>
    rw [boundNames]
    split
    · exact List.nodup_nil
    · next hkind => exact hd hkind
  | _ => exact List.nodup_nil

/-! ### Variables at a place -/

theorem Hoists.varNames_subset {tokens : List Token} {body : List Stmt} {names : List String}
    {t : Stmt} (h : Hoists tokens body names) (ht : t ∈ body) : t.varNames ⊆ names := by
  obtain ⟨marks, -, hmarks, rfl⟩ := h
  intro name hname
  rw [mem_distinctNames, hmarks, Stmt.varNamesOf_eq]
  exact List.mem_flatMap.mpr ⟨t, ht, hname⟩

namespace Place

/-- The variables of the function or script that the place is in. -/
def varNames (l : Place) : List String :=
  match l.around.find? fun a => a.classDef?.isNone with
  | some (.function f _ _) => f.varNames
  | _ => l.program.varNames

variable {l : Place}

theorem Has.accepted {part : Part} (h : l.Has part) :
    ∃ source, Program.parse source = .ok l.program := by
  induction h with
  | script haccepted => exact haccepted
  | _ => assumption

/-- The variables of an accepted script and of the functions in it are those that are declared
there. -/
theorem Has.varNames_subset {part : Part} (h : l.Has part) : part.varNames ⊆ l.varNames := by
  induction h with
  | script haccepted ht =>
    obtain ⟨source, hparse⟩ := haccepted
    exact (Program.known_of_parse hparse).1.varNames_subset ht
  | part _ hp ih => exact List.Subset.trans (Part.varNames_subset hp) ih
  | @body l f superProperty superCall t hf ht =>
    obtain ⟨source, hparse⟩ := hf.accepted
    obtain ⟨here, -⟩ := hf.each (Program.known_of_parse hparse).2
    exact (here f rfl).hoists.varNames_subset ht
  | heritage | code | element => exact List.nil_subset _

end Place

/-! ### Heads of loops -/

/-- The names in the head of a loop are distinct. Where the body of the loop declares one of them as
a variable, outside the functions in it, the variable is one of the function or script around the
loop, and no statement list around its declaration binds its name. -/
theorem Program.loop_head_names {source : String} {l : Place} (hparse : parse source = .ok l.program)
    {init : ForInit} {test update : Option Expr} {body : Stmt}
    (h : l.Has (.statement (.forLoop init test update body))) :
    init.boundNames.Nodup ∧ ∀ name ∈ init.boundNames,
      ∀ part, (Part.statement body).Inside part → name ∈ part.ownVarNames →
        name ∈ l.varNames ∧ ∀ scope, l.program.HasScope scope →
          (∃ t ∈ scope.body, (Part.statement t).Inside part) → name ∉ scope.names := by
  have hbody : l.Has (.statement body) := .part h (by simp)
  have hinit : (Part.forInit init).Legal l.rights := (Place.Has.part h (by simp)).legal
  refine ⟨hinit.nodup_boundNames, fun name _ part hinside hname => ⟨?_, ?_⟩⟩
  · exact hbody.varNames_subset (hinside.ownVarNames_subset hname)
  · rintro scope hscope ⟨t, ht, hpart⟩ hbound
    refine (hscope.unambiguous hparse).vars name hbound ?_
    exact Stmt.mem_varNamesOf.mpr ⟨t, ht, part, hpart, hname⟩

/-- A script that is a loop with a head and a block of one statement. -/
def Program.loop? (p : Program) : Option (ForInit × Stmt) :=
  match p.body with
  | [.forLoop init none none (.block [t])] => some (init, t)
  | _ => none

theorem Program.has_of_loop? {source : String} {p : Program} (hparse : parse source = .ok p)
    {init : ForInit} {t : Stmt} (h : p.loop? = some (init, t)) :
    (Place.mk p []).Has (.statement (.forLoop init none none (.block [t]))) := by
  refine .script ⟨source, hparse⟩ ?_
  unfold loop? at h
  split at h
  · next hbody =>
    cases h
    rw [hbody]
    exact List.mem_singleton_self _
  · cases h

/-- A variable that goes through the head of a loop, past a name that it shares with the head. -/
theorem Program.loop_head_names_shared : ∃ p, parse "for (let i, j;;) { var i; }" = .ok p ∧
    ∃ init t, p.loop? = some (init, t) ∧ init.boundNames = ["i", "j"] ∧
      (Part.statement t).ownVarNames = ["i"] ∧ init.boundNames.Nodup ∧
      ∀ name ∈ init.boundNames, ∀ part, (Part.statement (.block [t])).Inside part →
        name ∈ part.ownVarNames → name ∈ p.varNames ∧ ∀ scope, p.HasScope scope →
          (∃ t ∈ scope.body, (Part.statement t).Inside part) → name ∉ scope.names := by
  have hnames : ((parse "for (let i, j;;) { var i; }").toOption.bind fun p =>
      p.loop?.map fun r => (r.1.boundNames, (Part.statement r.2).ownVarNames)) =
        some (["i", "j"], ["i"]) := by
    decide +kernel
  cases hparse : parse "for (let i, j;;) { var i; }" with
  | error e =>
    rw [hparse] at hnames
    cases hnames
  | ok p =>
    rw [hparse] at hnames
    obtain ⟨⟨init, t⟩, hloop, hnames⟩ := Option.map_eq_some_iff.mp hnames
    obtain ⟨hbound, hvar⟩ := Prod.mk.inj hnames
    exact ⟨p, rfl, init, t, hloop, hbound, hvar,
      loop_head_names (l := ⟨p, []⟩) hparse (has_of_loop? hparse hloop)⟩

/-- A script in which the body of a loop declares a name of the head as a variable. -/
theorem Program.loop_head_names_clash : ∃ p, parse "for (let i; ; ) { var i; }" = .ok p ∧
    ∃ (l : Place) (init : ForInit) (test update : Option Expr) (body : Stmt), l.program = p ∧
      l.Has (.statement (.forLoop init test update body)) ∧
      ∃ part, (Part.statement body).Inside part ∧
        "i" ∈ init.boundNames ∧ "i" ∈ part.ownVarNames := by
  have hnames : ((parse "for (let i; ; ) { var i; }").toOption.bind fun p =>
      p.loop?.map fun r => (r.1.boundNames, (Part.statement r.2).ownVarNames)) =
        some (["i"], ["i"]) := by
    decide +kernel
  cases hparse : parse "for (let i; ; ) { var i; }" with
  | error e =>
    rw [hparse] at hnames
    cases hnames
  | ok p =>
    rw [hparse] at hnames
    obtain ⟨⟨init, t⟩, hloop, hnames⟩ := Option.map_eq_some_iff.mp hnames
    obtain ⟨hbound, hvar⟩ := Prod.mk.inj hnames
    refine ⟨p, rfl, ⟨p, []⟩, init, none, none, .block [t], rfl, has_of_loop? hparse hloop,
      .statement t, .part .refl (by simp), ?_, ?_⟩
    · rw [hbound]
      exact List.mem_singleton_self _
    · rw [hvar]
      exact List.mem_singleton_self _

end Ecma
