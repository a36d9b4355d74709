import Mathlib
import Ecma.Eval.Function

/-! What a scope says of a name after its bindings are made, initialised or assigned. -/

namespace Ecma

namespace Environment

variable {e : Environment} {name other : String} {b : Binding}

theorem lookup_put_self (bindings : List (String × Binding)) :
    (put name b bindings).lookup name = some b := by
  induction bindings with
  | nil => simp [put]
  | cons entry rest ih =>
    unfold put
    split
    · simp
    · next hne =>
      have hkey : (name == entry.1) = false := by simpa using Ne.symm hne
      rw [List.lookup_cons, hkey]
      exact ih

theorem lookup_put_ne (hne : other ≠ name) (bindings : List (String × Binding)) :
    (put name b bindings).lookup other = bindings.lookup other := by
  have hkey : (other == name) = false := by simpa using hne
  induction bindings with
  | nil => simp [put, hne]
  | cons entry rest ih =>
    unfold put
    split
    · next heq => rw [List.lookup_cons, List.lookup_cons, heq, hkey]
    · rw [List.lookup_cons, List.lookup_cons, ih]

theorem lookup_declare_self (kind : BindingKind) :
    (e.declare name kind).bindings.lookup name =
      some ⟨kind, if kind = .var then some .undefined else none⟩ :=
  lookup_put_self _

theorem lookup_declare_ne (hne : other ≠ name) (kind : BindingKind) :
    (e.declare name kind).bindings.lookup other = e.bindings.lookup other :=
  lookup_put_ne hne _

theorem lookup_declareLexical_ne {bindings : List (String × VarKind)}
    (h : name ∉ bindings.map Prod.fst) :
    (e.declareLexical bindings).bindings.lookup name = e.bindings.lookup name := by
  induction bindings generalizing e with
  | nil => rfl
  | cons entry rest ih =>
    simp only [List.map_cons, List.mem_cons, not_or] at h
    have hrest := ih (e := e.declare entry.1 entry.2.bindingKind) h.2
    exact hrest.trans (lookup_declare_ne h.1 _)

/-- Of lexical declarations with different names, each leaves its name without a value. -/
theorem lookup_declareLexical {bindings : List (String × VarKind)} {kind : VarKind}
    (hnodup : (bindings.map Prod.fst).Nodup) (hmem : (name, kind) ∈ bindings)
    (hkind : kind ≠ .var) :
    (e.declareLexical bindings).bindings.lookup name = some ⟨kind.bindingKind, none⟩ := by
  induction bindings generalizing e with
  | nil => cases hmem
  | cons entry rest ih =>
    rw [List.map_cons, List.nodup_cons] at hnodup
    rcases List.mem_cons.mp hmem with rfl | hrest
    · have hself : (e.declare name kind.bindingKind).bindings.lookup name = _ :=
        lookup_declare_self _
      have hlexical : kind.bindingKind ≠ .var := by
        cases kind <;> simp_all [VarKind.bindingKind]
      rw [if_neg hlexical] at hself
      exact (lookup_declareLexical_ne hnodup.1).trans hself
    · exact ih hnodup.2 hrest

end Environment

namespace Stmt

/-- No lexical declaration is one of `var`. -/
theorem ne_var_of_mem_lexicalBindingsOf {body : List Stmt} {name : String} {kind : VarKind}
    (h : (name, kind) ∈ lexicalBindingsOf body) : kind ≠ .var := by
  obtain ⟨t, -, ht⟩ := List.mem_flatMap.mp h
  cases t with
  | «variables» k declarators =>
    cases k with
    | var => cases ht
    | letVar | const =>
      obtain ⟨d, -, heq⟩ := List.mem_map.mp ht
      cases heq
      exact VarKind.noConfusion
  | classDecl c =>
    obtain ⟨n, -, heq⟩ := List.mem_map.mp ht
    cases heq
    exact VarKind.noConfusion
  | _ => cases ht

theorem map_fst_lexicalBindings (t : Stmt) : t.lexicalBindings.map Prod.fst = t.lexicalNames := by
  cases t with
  | «variables» kind declarators =>
    cases kind <;> simp [lexicalBindings, lexicalNames, boundNames, declaratorNames]
  | classDecl c => simp [lexicalBindings, lexicalNames, boundNames, Function.comp_def]
  | _ => rfl

theorem map_fst_lexicalBindingsOf (body : List Stmt) :
    (lexicalBindingsOf body).map Prod.fst = lexicalNamesOf body := by
  rw [lexicalBindingsOf, List.map_flatMap, lexicalNamesOf]
  exact congrArg (fun f => body.flatMap f) (funext map_fst_lexicalBindings)

end Stmt

end Ecma
