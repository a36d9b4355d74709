import Ecma.Proofs.Parser.FollowStatement

/-! A parser is back in the context in which it began a statement or an expression, and no statement
begins in the head of a `for` statement. -/

namespace Ecma

open Ecma.Action

namespace Actions

/-! ### All depths -/

/-- By induction on the depth. -/
theorem follows_within {admits : Parser → Bool}
    (hadmits : ∀ m : Parser, m.noIn = false → admits m = true) (depth : Nat) :
    Follows (Grammar.ofFuel depth) (within admits depth) := by
  induction depth with
  | zero =>
    exact ⟨hadmits, rfl, ⟨fun _ => .error _⟩, ⟨fun _ => .error _⟩, ⟨fun _ => .error _⟩,
      ⟨fun _ => .error _⟩, ⟨fun _ => .error _⟩, fun _ _ => .error _, fun _ _ => .error _⟩
  | succ depth ih =>
    exact ⟨hadmits, rfl,
      inferInstanceAs (Mirrors (Grammar.ofFuel depth).assignmentExpression
        (within admits depth).assignmentExpression),
      inferInstanceAs (Mirrors (Grammar.ofFuel depth).exponentiationExpression
        (within admits depth).exponentiationExpression),
      inferInstanceAs (Mirrors (Grammar.ofFuel depth).unaryExpression
        (within admits depth).unaryExpression),
      inferInstanceAs (Mirrors (Grammar.ofFuel depth).memberExpression
        (within admits depth).memberExpression),
      inferInstanceAs (Mirrors (Grammar.ofFuel depth).leftHandSideExpression
        (within admits depth).leftHandSideExpression),
      collects_statementListItem, collects_singleStatement⟩

/-! ### Scripts -/

variable {g : Grammar} {h : Actions} [hgh : Follows g h] {m m' : Parser}

theorem does_script (hm : m.noIn = false) (hnames : m.varNames = []) :
    m.Does g.script h.script fun program program' _ => program' = program := by
  refine (does_body collects_statementListItem hm).follow fun r statements m₁ hr => ?_
  obtain ⟨_, isStrict⟩ := r
  obtain ⟨rfl, hread⟩ := hr
  dsimp only at hread ⊢
  refine Parser.Does.restrict hread.surroundings ?_
  refine .skip fun ended m₂ hm₂ => ?_
  replace hread := hread.skip hm₂
  split
  · exact .reject
  · have hclash := clash?_congr (mem_append_varNames [] hnames hread)
    simp only [List.nil_append] at hclash
    refine .get ?_
    have hsame : Parse.checkDeclarations true (Stmt.varNamesOf statements) statements =
        Parse.checkDeclarations true m₂.varNames statements := by
      rw [Parse.checkDeclarations, Parse.checkDeclarations, hclash]
    rw [hsame]
    refine .skip fun _ m₃ hm₃ => ?_
    replace hread := hread.skip hm₃
    rw [← hread.strict]
    exact .ok rfl

end Actions

/-- The names that are added to others stand behind them, each once, and are new. -/
theorem foldl_addName (names seen : List String) : ∃ added,
    names.foldl addName seen = seen ++ added ∧ added.Nodup ∧ ∀ name ∈ added, name ∉ seen := by
  induction names generalizing seen with
  | nil => exact ⟨[], (List.append_nil _).symm, List.nodup_nil, fun _ h => (List.not_mem_nil h).elim⟩
  | cons name rest ih =>
    obtain ⟨added, hadded, hnodup, hnew⟩ := ih (addName seen name)
    rw [List.foldl_cons, hadded]
    by_cases hseen : name ∈ seen
    · have hsame : addName seen name = seen := if_pos (List.contains_iff_mem.mpr hseen)
      rw [hsame] at hnew ⊢
      exact ⟨added, rfl, hnodup, hnew⟩
    · have hnext : addName seen name = seen ++ [name] :=
        if_neg fun h => hseen (List.contains_iff_mem.mp h)
      rw [hnext] at hnew ⊢
      refine ⟨name :: added, List.append_assoc .., ?_, ?_⟩
      · refine List.nodup_cons.mpr ⟨fun h => hnew name h ?_, hnodup⟩
        exact List.mem_append_right _ (List.mem_singleton_self name)
      · intro other hother
        rcases List.mem_cons.mp hother with rfl | h
        · exact hseen
        · exact fun hmem => hnew other h (List.mem_append_left _ hmem)

namespace Parser

variable {m m' : Parser}

/-! ### What a parser leaves behind -/

/-- A parser is back in the context in which it began: all its flags are as they were, as many class
bodies are open, and the names of variables are those that it had and new ones behind them. -/
structure Restored (m m' : Parser) : Prop where
  flags : m'.toFlags = m.toFlags
  privateScopes : m'.privateScopes.length = m.privateScopes.length
  varDeclarations : m.varDeclarations <+: m'.varDeclarations
  varNames : ∃ added, m'.varNames = m.varNames ++ added ∧ added.Nodup ∧
    ∀ name ∈ added, name ∉ m.varNames

theorem Keeps.restored {names : List String} (h : m.Keeps names m') : m.Restored m' where
  flags := h.flags
  privateScopes := h.length_privateScopes
  varDeclarations := ⟨names, h.varDeclarations.symm⟩
  varNames := h.varNames ▸ foldl_addName names m.varNames

/-- What a parser gets beside a production leaves its context as it was. -/
theorem Gets.restored {α : Type} {q : Parse α} {p : Action α} {P : α → List String → Prop} {a : α}
    (h : m.Gets q p P) (hrun : p m = .ok (a, m')) : m.Restored m' := by
  unfold Gets Does at h
  rw [hrun] at h
  generalize q m.surroundings m.reading = x at h
  cases h with
  | ok hr =>
    obtain ⟨_, names, hkeeps, _⟩ := hr
    exact hkeeps.restored

/-- A parser that reads a statement only in states that are admitted, among them all those where
`in` is an operator, reads what the grammar says. -/
theorem parse_eq {admits : Parser → Bool}
    (hadmits : ∀ m : Parser, m.noIn = false → admits m = true) (source : String) :
    parse admits source = Program.parse source := by
  rw [parse, Program.parse]
  cases TokenStream.ofString source with
  | error e => rfl
  | ok tokens =>
    have := Actions.follows_within hadmits (tokens.remaining + 1)
    have hscript : Alike (fun program program' _ => program' = program)
        (Program.read source tokens)
        ((Actions.within admits (tokens.remaining + 1)).script (initial source tokens)) :=
      Actions.does_script (g := .ofFuel _) (m := initial source tokens) rfl rfl
    dsimp only
    rw [Program.ofTokens]
    generalize Program.read source tokens = x at hscript
    generalize (Actions.within admits (tokens.remaining + 1)).script (initial source tokens) = x' at hscript
    cases hscript with
    | ok h => exact congrArg Except.ok h
    | error e => cases e <;> rfl

/-- A parser that gets through a statement, where `in` is an operator, or through an assignment
expression, anywhere, is back in its context. It reads the programs of the grammar, and would read
them too if it did not go on at a statement where `in` is no operator, so it meets none there. -/
theorem context_restored :
    (∀ (depth : Nat) (m m' : Parser) (t : Stmt), m.noIn = false →
      (Actions.ofFuel depth).statementListItem m = .ok (t, m') → m.Restored m') ∧
    (∀ (depth : Nat) (m m' : Parser) (e : Expr),
      (Actions.ofFuel depth).assignmentExpression m = .ok (e, m') → m.Restored m') ∧
    (∀ source, parse (fun _ => true) source = Program.parse source) ∧
    ∀ source program, Program.parse source = .ok program →
      parse (fun m => !m.noIn) source = .ok program := by
  have hfollows (depth : Nat) : Actions.Follows (.ofFuel depth) (.ofFuel depth) :=
    Actions.follows_within (fun _ _ => rfl) depth
  refine ⟨fun depth m m' t hm hrun => ?_, fun depth m m' e hrun => ?_, parse_eq fun _ _ => rfl,
    fun source program hprogram => ?_⟩
  · have := hfollows depth
    exact (Actions.collects_statementListItem (g := .ofFuel depth) m hm).restored hrun
  · have := hfollows depth
    exact (Mirrors.gets (q := (Grammar.ofFuel depth).assignmentExpression) m).restored hrun
  · rw [parse_eq fun m hm => by rw [hm]; rfl]
    exact hprogram

/-- A loop in whose head a function has a loop of its own. -/
theorem context_restored_loop :
    let source := "for (var i = function() \x7b for (var k;;) break; \x7d, j; i; i) ;"
    let head := "function() \x7b for (var k;;) break; \x7d"
    let inLoop (tokens : TokenStream) : Parser := { initial source tokens with
      inIteration := 1, labels := [("a", true)], varNames := ["j"], varDeclarations := ["j"] }
    let inHead (tokens : TokenStream) : Parser := { initial head tokens with noIn := true }
    (∃ tokens m' t, TokenStream.ofString source = .ok tokens ∧ (inLoop tokens).noIn = false ∧
      (Actions.ofFuel 40).statementListItem (inLoop tokens) = .ok (t, m') ∧
      m'.varNames = ["j", "i"] ∧ (inLoop tokens).Restored m') ∧
    (∃ tokens m' e, TokenStream.ofString head = .ok tokens ∧
      (Actions.ofFuel 40).assignmentExpression (inHead tokens) = .ok (e, m') ∧
      (inHead tokens).Restored m') ∧
    ∃ program, Program.parse source = .ok program ∧
      parse (fun m => !m.noIn) source = .ok program := by
  intro source head inLoop inHead
  obtain ⟨hstatement, hexpression, -, hprogram⟩ := context_restored
  refine ⟨?_, ?_, ?_⟩
  · have hnames : ((TokenStream.ofString source).toOption.bind fun tokens =>
        ((Actions.ofFuel 40).statementListItem (inLoop tokens)).toOption.map fun r =>
          r.2.varNames) = some ["j", "i"] := by
      decide +kernel
    cases htokens : TokenStream.ofString source with
    | error e =>
      rw [htokens] at hnames
      cases hnames
    | ok tokens =>
      rw [htokens] at hnames
      cases hrun : (Actions.ofFuel 40).statementListItem (inLoop tokens) with
      | error e => simp [Except.toOption, hrun] at hnames
      | ok r =>
        refine ⟨tokens, r.2, r.1, rfl, rfl, hrun, ?_, hstatement 40 _ _ r.1 rfl hrun⟩
        simpa [Except.toOption, hrun] using hnames
  · have hends : ((TokenStream.ofString head).toOption.bind fun tokens =>
        ((Actions.ofFuel 40).assignmentExpression (inHead tokens)).toOption).isSome = true := by
      decide +kernel
    cases htokens : TokenStream.ofString head with
    | error e =>
      rw [htokens] at hends
      cases hends
    | ok tokens =>
      rw [htokens] at hends
      cases hrun : (Actions.ofFuel 40).assignmentExpression (inHead tokens) with
      | error e => simp [Except.toOption, hrun] at hends
      | ok r => exact ⟨tokens, r.2, r.1, rfl, hrun, hexpression 40 _ _ r.1 hrun⟩
  · have hends : (Program.parse source).toOption.isSome = true := by
      decide +kernel
    cases hparse : Program.parse source with
    | error e =>
      rw [hparse] at hends
      cases hends
    | ok program => exact ⟨program, rfl, hprogram source program hparse⟩

end Parser

end Ecma
