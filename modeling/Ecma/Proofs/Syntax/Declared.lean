import Ecma.Proofs.Syntax.Place

/-! The scopes of a script. In every list of statements that forms a scope, at any depth of a script
that is accepted, each name that is bound there has one declaration: no other declaration of the
list binds it, no `var` inside the list declares it, and it is no parameter. -/

namespace Ecma

/-! ### Scopes -/

/-- The statement lists directly in a statement that form scopes. -/
def Stmt.scopes : Stmt → List StatementList
  | .block body => [.ofBlock body]
  | .tryCatch body param handler => [.ofBlock body, .ofHandler param handler]
  | .tryFinally body finalizer => [.ofBlock body, .ofBlock finalizer]
  | .tryCatchFinally body param handler finalizer =>
    [.ofBlock body, .ofHandler param handler, .ofBlock finalizer]
  | .switch _ cases => [.ofClauses cases]
  | _ => []

/-- The statement lists directly in a part of a script that form scopes. Every function, method and
constructor is a part. -/
def Part.scopes : Part → List StatementList
  | .statement t => t.scopes
  | .function f _ _ => [.ofFunction f]
  | _ => []

/-- A statement list of a script that forms a scope: the script itself, or one in a part of it. -/
inductive Program.HasScope (p : Program) : StatementList → Prop
  | script : HasScope p (.ofScript p)
  | part {l : Place} {part : Part} {list : StatementList} (hl : l.program = p) (hp : l.Has part)
    (h : list ∈ part.scopes) : HasScope p list

theorem Stmt.Legal.unambiguous {r : Rights} {x : Exits} {t : Stmt} (ht : t.Legal r x)
    {list : StatementList} (h : list ∈ t.scopes) : list.Unambiguous := by
  cases ht with
  | block _ hd | switch _ _ hd =>
    cases List.mem_singleton.mp h
    exact hd
  | tryCatch _ _ hd hd' | tryFinally _ _ hd hd' =>
    simp only [Stmt.scopes, List.mem_cons, List.not_mem_nil, or_false] at h
    rcases h with rfl | rfl
    · exact hd
    · exact hd'
  | tryCatchFinally _ _ _ hd hd' hd'' =>
    simp only [Stmt.scopes, List.mem_cons, List.not_mem_nil, or_false] at h
    rcases h with rfl | rfl | rfl
    · exact hd
    · exact hd'
    · exact hd''
  | _ => cases h

theorem Part.Legal.unambiguous {r : Rights} {p : Part} (hp : p.Legal r) {list : StatementList}
    (h : list ∈ p.scopes) : list.Unambiguous := by
  cases p with
  | statement t => exact hp.choose_spec.unambiguous h
  | function f superProperty superCall =>
    obtain ⟨-, -, hd⟩ := hp
    cases List.mem_singleton.mp h
    exact hd
  | _ => cases h

theorem Program.HasScope.unambiguous {source : String} {p : Program}
    (hparse : Program.parse source = .ok p) {list : StatementList} (h : p.HasScope list) :
    list.Unambiguous := by
  cases h with
  | script => exact (Program.legal_of_parse hparse).names
  | part _ hp hlist => exact hp.legal.unambiguous hlist

/-! ### Variables -/

namespace Part

/-- The names that a part is itself a `var` declaration of. -/
def ownVarNames : Part → List String
  | .statement (.variables .var declarators) | .forInit (.variables .var declarators) =>
    Stmt.declaratorNames declarators
  | _ => []

/-- The names that are declared with `var` in a part, outside the functions in it. -/
def varNames : Part → List String
  | .statement t => t.varNames
  | .forInit i => i.varNames
  | .clause k => k.varNames
  | _ => []

/-- A part is another one or stands in it, outside the functions in it. -/
inductive Inside (whole : Part) : Part → Prop
  | refl : Inside whole whole
  | part {inner part : Part} (h : Inside whole inner) (hp : part ∈ inner.parts) : Inside whole part

theorem ownVarNames_subset (p : Part) : p.ownVarNames ⊆ p.varNames := by
  unfold ownVarNames
  split
  · rw [varNames, Stmt.varNames, if_pos rfl]
    exact List.Subset.refl _
  · exact List.Subset.refl _
  · exact List.nil_subset _

/-- The names in a statement of a list are among those in the list. -/
theorem varNames_of_mem {p : Part} {body : List Stmt} (h : p ∈ body.map Part.statement) :
    p.varNames ⊆ Stmt.varNamesOf body := by
  obtain ⟨t, ht, rfl⟩ := List.mem_map.mp h
  rw [Stmt.varNamesOf_eq]
  exact fun name hname => List.mem_flatMap.mpr ⟨t, ht, hname⟩

/-- No expression has variables outside the functions in it. -/
theorem varNames_of_expr {p : Part} {e : Expr} (h : p ∈ e.parts) : p.varNames = [] := by
  cases e with
  | literal | identifier | thisValue => cases h
  | object properties | superCall args =>
    obtain ⟨_, -, rfl⟩ := List.mem_map.mp h
    rfl
  | call callee args | construct callee args =>
    rcases List.mem_cons.mp h with rfl | h
    · rfl
    · obtain ⟨_, -, rfl⟩ := List.mem_map.mp h
      rfl
  | _ =>
    simp only [Expr.parts, List.mem_cons, List.not_mem_nil, or_false] at h
    rcases h with rfl | rfl | rfl <;> rfl

/-- What is declared in a part of a statement is declared in the statement. -/
theorem varNames_of_statement {p : Part} {t : Stmt} (h : p ∈ t.parts) :
    p.varNames ⊆ t.varNames := by
  have hnone {e : List Expr} (hp : p ∈ e.map Part.expr) {names : List String} :
      p.varNames ⊆ names := by
    obtain ⟨_, -, rfl⟩ := List.mem_map.mp hp
    exact List.nil_subset names
  cases t with
  | empty | breaks | continues | debugger => cases h
  | block body => exact varNames_of_mem h
  | «variables» kind declarators =>
    obtain ⟨_, -, rfl⟩ := List.mem_map.mp h
    exact List.nil_subset _
  | returns e => exact hnone h
  | expression e | throws e | function f | classDecl c =>
    cases List.mem_singleton.mp h
    exact List.nil_subset _
  | labeled label body =>
    cases List.mem_singleton.mp h
    exact List.Subset.refl _
  | tryCatch body param handler | tryFinally body handler =>
    simp only [Stmt.parts, List.map_append, List.mem_append] at h
    rw [Stmt.varNames]
    rcases h with h | h
    · exact List.subset_append_of_subset_left _ (varNames_of_mem h)
    · exact List.subset_append_of_subset_right _ (varNames_of_mem h)
  | tryCatchFinally body param handler finalizer =>
    simp only [Stmt.parts, List.map_append, List.mem_append] at h
    rw [Stmt.varNames, List.append_assoc]
    rcases h with (h | h) | h
    · exact List.subset_append_of_subset_left _ (varNames_of_mem h)
    · exact List.subset_append_of_subset_right _
        (List.subset_append_of_subset_left _ (varNames_of_mem h))
    · exact List.subset_append_of_subset_right _
        (List.subset_append_of_subset_right _ (varNames_of_mem h))
  | switch subject cases =>
    rw [Stmt.varNames]
    rcases List.mem_cons.mp h with rfl | h
    · exact List.nil_subset _
    · obtain ⟨k, hk, rfl⟩ := List.mem_map.mp h
      obtain ⟨test, body⟩ := k
      rw [Stmt.varNamesOfCases_eq, varNames, SwitchCase.varNames, Stmt.varNamesOf_eq,
        Stmt.varNamesOf_eq]
      refine fun name hname => ?_
      obtain ⟨t, ht, hname⟩ := List.mem_flatMap.mp hname
      exact List.mem_flatMap.mpr ⟨t, List.mem_flatMap.mpr ⟨_, hk, ht⟩, hname⟩
  | forLoop init test update body =>
    rw [Stmt.varNames]
    simp only [Stmt.parts, List.mem_cons] at h
    rcases h with rfl | rfl | h
    · exact List.subset_append_left _ _
    · exact List.subset_append_right _ _
    · exact hnone h
  | ifElse test yes no =>
    rw [Stmt.varNames]
    simp only [Stmt.parts, List.mem_cons, List.not_mem_nil, or_false] at h
    rcases h with rfl | rfl | rfl
    · exact List.nil_subset _
    · exact List.subset_append_left _ _
    · exact List.subset_append_right _ _
  | ifThen test body | whileLoop test body | doLoop body test =>
    rw [Stmt.varNames]
    simp only [Stmt.parts, List.mem_cons, List.not_mem_nil, or_false] at h
    rcases h with rfl | rfl
    · first | exact List.nil_subset _ | exact List.Subset.refl _
    · first | exact List.nil_subset _ | exact List.Subset.refl _

/-- One step inwards. -/
theorem varNames_subset {whole p : Part} (h : p ∈ whole.parts) : p.varNames ⊆ whole.varNames := by
  cases whole with
  | statement t => exact varNames_of_statement h
  | expr e =>
    rw [varNames_of_expr h]
    exact List.nil_subset _
  | clause k =>
    obtain ⟨test, body⟩ := k
    rw [varNames, SwitchCase.varNames]
    rcases List.mem_append.mp h with h | h
    · obtain ⟨_, -, rfl⟩ := List.mem_map.mp h
      exact List.nil_subset _
    · exact varNames_of_mem h
  | function f superProperty superCall => cases h
  | classDef c => cases h
  | declarator d =>
    obtain ⟨_, -, rfl⟩ := List.mem_map.mp h
    exact List.nil_subset _
  | forInit i =>
    cases i with
    | absent => cases h
    | «variables» kind declarators =>
      obtain ⟨_, -, rfl⟩ := List.mem_map.mp h
      exact List.nil_subset _
    | expression e =>
      cases List.mem_singleton.mp h
      exact List.nil_subset _
  | key x | name x | property x | element x =>
    cases x <;> simp only [parts, List.mem_cons, List.not_mem_nil, or_false] at h
    all_goals rcases h with rfl | rfl <;> exact List.nil_subset _

/-- A `var` at any depth is found. -/
theorem Inside.ownVarNames_subset {whole p : Part} (h : whole.Inside p) :
    p.ownVarNames ⊆ whole.varNames := by
  suffices hall : p.varNames ⊆ whole.varNames from
    List.Subset.trans p.ownVarNames_subset hall
  induction h with
  | refl => exact List.Subset.refl _
  | part _ hp ih => exact List.Subset.trans (varNames_subset hp) ih

end Part

/-! ### Early errors -/

/-- In every scope of a script that is accepted, the names bound by its `let`, `const` and `class`
declarations, and by its functions unless it is the body of a function or a script, are distinct. No
`var` inside the list declares one of them, and none is a parameter of the function or the `catch`
clause. In the body of a function or a script no function is called as one of them. -/
theorem Program.scope_names_unambiguous {source : String} {p : Program}
    (hparse : Program.parse source = .ok p) {l : StatementList} (hl : p.HasScope l) :
    l.names.Nodup ∧ ∀ name ∈ l.names,
      (∀ t ∈ l.body, ∀ part, (Part.statement t).Inside part → name ∉ part.ownVarNames) ∧
      name ∉ l.params ∧
      (l.topLevel = true → ∀ f ∈ Stmt.functionsOf l.body, f.name ≠ some name) := by
  have h := hl.unambiguous hparse
  refine ⟨h.distinct, fun name hname => ⟨fun t ht part hpart hvar => ?_, h.params name hname,
    fun htop f hf heq => h.functions htop f hf name heq hname⟩⟩
  refine h.vars name hname ?_
  rw [Stmt.varNamesOf_eq]
  exact List.mem_flatMap.mpr ⟨t, ht, hpart.ownVarNames_subset hvar⟩

/-- The script, a function and a block in it bind names of each other. -/
theorem Program.scope_names_unambiguous_nested :
    ∃ p, Program.parse
        "let a; function f(b) \x7b \x7b let f, b; \x7d var a \x7d class b \x7b \x7d" = .ok p ∧
      (StatementList.ofScript p).names = ["a", "b"] ∧
      (StatementList.ofScript p).names.Nodup ∧ ∀ name ∈ (StatementList.ofScript p).names,
        (∀ t ∈ p.body, ∀ part, (Part.statement t).Inside part → name ∉ part.ownVarNames) ∧
        name ∉ ([] : List String) ∧
        (true = true → ∀ f ∈ Stmt.functionsOf p.body, f.name ≠ some name) := by
  have hnames : ((Program.parse
      "let a; function f(b) \x7b \x7b let f, b; \x7d var a \x7d class b \x7b \x7d").toOption.map
        fun p => (StatementList.ofScript p).names) = some ["a", "b"] := by
    decide +kernel
  cases hparse : Program.parse
      "let a; function f(b) \x7b \x7b let f, b; \x7d var a \x7d class b \x7b \x7d" with
  | error e =>
    rw [hparse] at hnames
    cases hnames
  | ok p =>
    rw [hparse] at hnames
    exact ⟨p, rfl, Option.some.inj hnames, scope_names_unambiguous hparse .script⟩

end Ecma
