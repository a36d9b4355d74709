import Ecma.Proofs.Syntax.Levels
import Ecma.Proofs.Token.Tiling

/-! Reading source text ends, with a result or an error, whatever the text is. Each step of a scan
passes a character, and each construct takes a token, so no loop goes round without end; how many
steps and levels are allowed for makes no difference. -/

namespace Ecma

/-! ### Scans -/

namespace Lexed

/-- The steps of a scan to the end of the text or the first error. Each of them but the last one
passes a character at least. -/
inductive Scans : Cursor → List Token → Lexed → Prop
  | atEnd {c c' : Cursor} {tokens : List Token} (h : Scan.step c = .ok .atEnd c')
    (hrest : c.rest = []) : Scans c tokens ⟨tokens.reverse, c'.location, none⟩
  | dropped {c c' : Cursor} {tokens : List Token} {l : Lexed} (h : Scan.step c = .ok .dropped c')
    (hpassed : c'.rest.length < c.rest.length) (hl : Scans c' tokens l) : Scans c tokens l
  | found {c c' : Cursor} {tokens : List Token} {t : Token} {l : Lexed}
    (h : Scan.step c = .ok (.found t) c') (hpassed : c'.rest.length < c.rest.length)
    (hl : Scans c' (t :: tokens) l) : Scans c tokens l
  | failed {c c' : Cursor} {tokens : List Token} {e : LexError} (h : Scan.step c = .error e c') :
    Scans c tokens ⟨tokens.reverse, c'.location, some e⟩

/-- Every step but the last one passes a character. -/
theorem passed_of_step {c c' : Cursor} (hexact : c.IsExact) {r : Scan.Step}
    (h : Scan.step c = .ok r c') : (r = .atEnd ∧ c.rest = []) ∨
      (r ≠ .atEnd ∧ c'.rest.length < c.rest.length ∧ c'.IsExact) := by
  obtain ⟨rfl, hrest, -⟩ | ⟨s, after, hc, hfits, rfl, rfl⟩ := Scan.passes_step hexact h
  · exact .inl ⟨rfl, hrest⟩
  · have hpos := List.length_pos_iff.2 hfits.text_ne_nil
    refine .inr ⟨?_, ?_, hexact.advanceBy _⟩
    · cases s.token? c <;> exact nofun
    · rw [Cursor.advanceBy_rest, hc, List.drop_left, List.length_append]
      omega

/-- By induction on the steps that are allowed for, of which there are more than characters. -/
theorem scans_scan {c : Cursor} (hexact : c.IsExact) (tokens : List Token) {fuel : Nat}
    (hfuel : c.rest.length < fuel) : Scans c tokens (scan c tokens fuel) := by
  induction fuel generalizing c tokens with
  | zero => omega
  | succ fuel ih =>
    cases hstep : Scan.step c with
    | error e c' =>
      rw [scan, hstep]
      exact .failed hstep
    | ok r c' =>
      rw [scan, hstep]
      obtain ⟨rfl, hrest⟩ | ⟨hr, hpassed, hexact'⟩ := passed_of_step hexact hstep
      · exact .atEnd hstep hrest
      cases r with
      | atEnd => exact absurd rfl hr
      | dropped => exact .dropped hstep hpassed (ih hexact' tokens (by omega))
      | found t => exact .found hstep hpassed (ih hexact' (t :: tokens) (by omega))

end Lexed

/-! ### Productions -/

open Parse

namespace Grammar

/-- From a depth on a production never runs out, and it always does the same. -/
def EndsFrom {α : Type} (p : Grammar → Parse α) (depth : Nat) (c : Surroundings) (s : ParseState) :
    Prop :=
  ∀ n, depth ≤ n →
    p (ofFuel n) c s = p (ofFuel depth) c s ∧ p (ofFuel n) c s ≠ .error .exhausted

/-- The productions of statements, declarations and expressions, and of their parts. -/
inductive Construct : {α : Type} → (Grammar → Parse α) → Prop
  | statement : Construct statementListItem
  | subStatement : Construct singleStatement
  | declaration (first : TokenKind) : Construct fun g => g.declaration first
  | functionDeclaration : Construct functionDeclaration
  | classDefinition (isDeclaration : Bool) : Construct fun g => g.classDefinition isDeclaration
  | lexicalDeclaration : Construct lexicalDeclaration
  | variableStatement : Construct variableStatement
  | declarator (kind : VarKind) (needsInit : Bool) : Construct fun g => g.declarator kind needsInit
  | expression : Construct expression
  | assignment : Construct assignmentExpression
  | conditional : Construct conditionalExpression
  | disjunction : Construct logicalOr
  | conjunction : Construct logicalAnd
  | binary (levels : List BinaryLevel) : Construct fun g => g.binaryExpression levels
  | power : Construct exponentiationExpression
  | unary : Construct unaryExpression
  | update : Construct updateExpression
  | leftHandSide : Construct leftHandSideExpression
  | member : Construct memberExpression
  | primary : Construct primary
  | functionExpression : Construct functionExpression
  | property : Construct objectProperty
  | propertyName : Construct propertyName
  | classElement (derived : Bool) (b : ClassBody) : Construct fun g => g.classElement derived b
  | parameter : Construct fun _ => bindingIdentifier
  | caseTest (seenDefault : Bool) : Construct fun g => g.caseTest seenDefault

/-- The productions that go on until a closing token or some other end comes. -/
inductive Repetition : {α : Type} → (Grammar → Parse α) → Prop
  | scriptBody : Repetition fun g => g.body g.statementListItem
  | functionBody : Repetition fun g => g.body g.item
  | block : Repetition block
  | switchCases : Repetition switchCases
  | caseBody : Repetition caseBody
  | declarators (kind : VarKind) (needsInit : Bool) :
    Repetition fun g => g.declarators kind needsInit
  | parameters : Repetition formalParameters
  | arguments : Repetition arguments
  | objectLiteral : Repetition objectLiteral
  | classElements (derived : Bool) : Repetition fun g => g.classElements derived
  | memberChain (e : Expr) : Repetition fun g => g.memberChain e
  | callChain (e : Expr) : Repetition fun g => g.callChain e
  | binary (levels : List BinaryLevel) : Repetition fun g => g.binaryExpression levels
  | conjunction : Repetition logicalAnd
  | disjunction : Repetition logicalOr
  | labels : Repetition fun g => labelsLoop 0 g.fuel

section

variable {α : Type} {p : Grammar → Parse α}

/-- What is enough for every depth settles what a production does. -/
theorem endsFrom_of_suffices (slack : Nat) (c : Surroundings) (s : ParseState)
    (h : ∀ n, s.tokens.remaining + slack + 1 ≤ n → Suffices (s.tokens.remaining + slack + 1) slack
      (p (ofFuel (s.tokens.remaining + slack + 1))) (p (ofFuel n))) :
    EndsFrom p (s.tokens.remaining + slack + 1) c s := by
  intro n hn
  have settle := (h n hn).settle c s (Nat.lt_succ_self _)
  rw [settle.1]
  exact ⟨rfl, settle.2⟩

theorem Construct.suffices (h : Construct p) {bound n : Nat} (hn : bound ≤ n) :
    Suffices bound 0 (p (ofFuel bound)) (p (ofFuel n)) := by
  have := moves_ofFuel bound
  have := deep_ofFuel (Nat.le_refl bound) hn
  cases h <;> infer_instance

theorem Repetition.suffices (h : Repetition p) {bound n : Nat} (hn : bound ≤ n) :
    Suffices bound 1 (p (ofFuel bound)) (p (ofFuel n)) := by
  have := moves_ofFuel bound
  have := deep_ofFuel (Nat.le_refl bound) hn
  cases h with
  | scriptBody => exact suffices_body inferInstance inferInstance
  | _ => infer_instance

/-- The word in front of a clause is taken. -/
instance {g : Grammar} [g.Moves] (seenDefault : Bool) : (g.caseTest seenDefault).Moves 1 1 := by
  refine .later fun start => ⟨fun c s => .bind (yields_eatKind_moves 1) fun isCase s₁ h₁ => ?_⟩
  have taken {q : Parse (Option Expr)} {s₀ s₂ : ParseState} [hq : q.Moves 0 0]
      (h : s₀.Moves 1 1 s₂) : q.Yields c s₂ fun _ s' => s₀.Moves 1 1 s' :=
    (hq.yields c s₂).mono fun _ _ h' => h.trans h'
  split
  · next hcase => exact taken (h₁.1 hcase)
  next hcase =>
  obtain rfl := h₁.2 (by simpa using hcase)
  refine .bind (yields_eatKind_moves 1) fun isDefault s₂ h₂ => ?_
  split
  · next hdefault =>
    have : (if seenDefault = true then
        failAt .multipleDefaults start >>= fun (_ : Unit) => pure none
      else pure none : Parse (Option Expr)).Moves 0 0 := .guard inferInstance
    exact taken (h₂.1 hdefault)
  · exact .fail

theorem Construct.moves (h : Construct p) (n : Nat) : (p (ofFuel n)).Moves 1 1 := by
  have := moves_ofFuel n
  cases h <;> infer_instance

theorem endsFrom_script (c : Surroundings) (s : ParseState) :
    EndsFrom script (s.tokens.remaining + 1) c s :=
  endsFrom_of_suffices 0 c s fun n hn => by
    have := moves_ofFuel (s.tokens.remaining + 1)
    have := deep_ofFuel (Nat.le_refl _) hn
    exact inferInstanceAs (Suffices (s.tokens.remaining + 1) 0 _ _)

end

end Grammar

/-- There are enough levels for any tokens. -/
theorem Program.ofTokens_ne_exhausted (source : String) (tokens : TokenStream) :
    ofTokens source tokens ≠ .error .exhausted := by
  have hread : read source tokens ≠ .error .exhausted :=
    (Grammar.endsFrom_script (surroundings source) ⟨tokens, [], [], []⟩ _ (Nat.le_refl _)).2
  unfold ofTokens
  cases hresult : read source tokens with
  | ok r => exact nofun
  | error e =>
    rw [hresult] at hread
    exact fun h => hread (congrArg _ (Except.error.inj h))

open Grammar

/-- Reading ends on every source text. A scan goes on to the end of the text or the first error, and
each of its steps passes a character. From any state, well formed or not, each construct ends, and
takes a token if it has a result; each loop ends too, and so does a script. -/
theorem reading_ends (source : String) :
    Lexed.Scans (Cursor.ofString source) [] (Lexed.ofString source) ∧
    (∀ tokens, Program.ofTokens source tokens ≠ .error .exhausted ∧
      EndsFrom script (tokens.remaining + 1) (Program.surroundings source) ⟨tokens, [], [], []⟩) ∧
    (∀ (α : Type) (p : Grammar → Parse α), Construct p → ∀ c s,
      EndsFrom p (s.tokens.remaining + 1) c s ∧ ∀ n a s', p (ofFuel n) c s = .ok (a, s') →
        s'.tokens.remaining < s.tokens.remaining) ∧
    (∀ (α : Type) (p : Grammar → Parse α), Repetition p → ∀ c s,
      EndsFrom p (s.tokens.remaining + 2) c s) := by
  refine ⟨?_, fun tokens => ⟨?_, ?_⟩, fun α p h c s => ⟨?_, fun n a s' heq => ?_⟩,
    fun α p h c s => ?_⟩
  · exact Lexed.scans_scan (Cursor.isExact_ofString source) [] (Nat.lt_succ_self _)
  · exact Program.ofTokens_ne_exhausted source tokens
  · exact endsFrom_script (Program.surroundings source) ⟨tokens, [], [], []⟩
  · exact endsFrom_of_suffices 0 c s fun n hn => h.suffices hn
  · exact ((h.moves n).yields c s a s' heq).remaining
  · exact endsFrom_of_suffices 1 c s fun n hn => h.suffices hn

/-- An argument list that is cut off: no token is left for the next argument, and reading ends. -/
theorem reading_ends_truncated :
    Repetition Grammar.arguments ∧ EndsFrom Grammar.arguments 2 (Program.surroundings "f(")
      ⟨⟨[], ⟨1, 2, 2⟩, 2, 2⟩, [], [], []⟩ :=
  ⟨.arguments, (reading_ends "f(").2.2.2 _ _ .arguments _ ⟨⟨[], ⟨1, 2, 2⟩, 2, 2⟩, [], [], []⟩⟩

end Ecma
