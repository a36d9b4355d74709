import Ecma.Proofs.Syntax.Precedence

/-! Each kind of expression, printed, fits where its level is needed when its operands fit in their
places. -/

namespace Ecma

open Lexeme Parse

namespace Printout

theorem append_assoc (p q q' : Printout) : p ++ q ++ q' = p ++ (q ++ q') := by
  change Printout.mk _ _ = Printout.mk _ _
  simp [List.append_assoc, Bool.or_assoc]

@[simp] theorem lexemes_one (x : Lexeme) : (one x).lexemes = [x] := rfl

@[simp] theorem outcome_one {α : Type} (x : Lexeme) (r : Option α) : (one x).outcome r = r := rfl

end Printout

open Printout

namespace Grammar

variable {level : Nat} {e left right : Expr} {p q q' : Printout} {x : Lexeme} {l rest : List Lexeme}

theorem ends_of_bond (h : x.1.bond < level) : Ends level (x :: l) := by
  rintro kind ⟨⟩
  exact h

theorem starts_of_reach (h : level ≤ x.1.reach) : Starts level (x :: l) :=
  ⟨x.1, rfl, h⟩

theorem ne_first {kind : TokenKind} (h : x.1 ≠ kind) : firstKind? (x :: l) ≠ some kind :=
  fun heq => h (Option.some.inj heq)

/-- Where a lexeme has been taken, one production less may be nested. -/
theorem exists_fuel {n m : Nat} (h : m + 1 < n) : ∃ k, n = k + 1 ∧ m < k :=
  ⟨n - 1, by omega, by omega⟩

theorem exists_fuel_append {n : Nat} (h : (l ++ x :: rest).length < n) :
    ∃ k, n = k + 1 ∧ rest.length < k := by
  rw [List.length_append, List.length_cons] at h
  exact exists_fuel (by omega)

/-! ### Variables and parentheses -/

theorem Fits.identifier {name : String} (h : Scan.wordKind name = .identifier) :
    Fits Level.primary (word name) (.identifier name) := by
  have hword : word name = (.identifier, name) := by rw [word, h]
  rw [hword]
  refine Reads.fits (by simp [IsChain, IsBinary]) (starts_of_reach (by exact Nat.le_refl _))
    fun n rest _ _ => ?_
  refine Scans.peek fun location => .bind (.bind (.strict _) (.pure _ _)) ?_
  exact .bind (.skip _ _) (.pure _ _)

/-- An expression in brackets, up to the closing one. -/
theorem Fits.nested (h : Fits Level.assignment p e) {n : Nat} (hbond : x.1.bond = 0)
    (hcomma : x.1 ≠ .punctuator .comma) (hlen : (p.lexemes ++ x :: l).length < n) :
    Scans (ofFuel (n + 1)).nestedExpression (p.lexemes ++ x :: l)
      (p.outcome (some (e, x :: l))) := by
  refine .bind_outcome (h.reads n (x :: l) (ends_of_bond (by rw [hbond]; decide)) hlen) ?_
  exact .bind (.atKind_false (ne_first hcomma)) (.pure _ _)

theorem Fits.enclosed (h : Fits Level.assignment p e) : Fits Level.primary p.enclosed e := by
  refine Reads.fits (by simp [IsChain, IsBinary]) (starts_of_reach (by decide)) fun n rest _ hlen => ?_
  simp only [Printout.enclosed, lexemes_append, lexemes_one, List.cons_append, List.nil_append,
    List.append_assoc, outcome_append, outcome_one] at hlen ⊢
  obtain ⟨k, rfl, hk⟩ := exists_fuel hlen
  refine Scans.peek fun location => .bind (.skip _ _) ?_
  have hstarts := h.starts.append (punct .rightParen :: rest)
  refine .bind (.atKind_false (hstarts.ne (by decide))) (.bind (.nthIs _ _ _) ?_)
  refine .bind_outcome (.allowIn (h.nested (by decide) (by decide) hk)) ?_
  exact .bind (.expect _ _ _) (.pure _ _)

/-- Parentheses make any expression fit. -/
theorem Fits.fit {needed : Nat} (h : Fits level p e) (hpos : 0 < level) (hle : level ≤ Level.primary)
    (hpos' : 0 < needed) (hle' : needed ≤ Level.primary) : Fits needed (p.fit level needed) e := by
  unfold Printout.fit
  split
  · exact (h.of_le (by decide) hpos hle).enclosed.of_le hpos' hle' (by decide)
  · exact h.of_le hpos' (by omega) hle

/-! ### Operators with one operand -/

theorem Fits.prefixed {build : Expr → Expr} (h : Fits Level.unary p e)
    (hop : unaryOperator? x.1 = some build) (hreach : Level.unary ≤ x.1.reach) :
    Fits Level.unary (x ++ p) (build e) := by
  have hdelete : (x.1 == .keyword .deleteKw) = false :=
    beq_false_of_ne fun heq => absurd hreach (by rw [heq]; decide)
  refine Reads.fits (by simp [IsChain, IsBinary]) (starts_of_reach hreach) fun n rest hends hlen => ?_
  simp only [lexemes_append, lexemes_one, List.cons_append, List.nil_append, outcome_append,
    outcome_one] at hlen ⊢
  obtain ⟨k, rfl, hk⟩ := exists_fuel hlen
  refine Scans.peek fun location => ?_
  simp only [hop, hdelete]
  refine .bind (.skip _ _) (.bind_outcome (h.reads k rest hends hk) ?_)
  exact .pure _ _

theorem atUpdate?_some (op : UpdateOp) (l : List Lexeme) :
    Scans atUpdate? (op.lexeme :: l) (some (some op, op.lexeme :: l)) := by
  cases op with
  | increment => exact .bind (.atKind_true _ _ _) (.pure _ _)
  | decrement => exact .bind (.atKind_false (ne_first (by decide))) (.bind (.atKind_true _ _ _) (.pure _ _))

theorem checkTarget_ok (h : e.isTarget = true) (location : Location) (l : List Lexeme) :
    Scans (checkTarget e location) l (some ((), l)) := by
  cases e with
  | identifier name => exact .bind (.strict _) (.pure _ _)
  | member owner key => exact .pure _ _
  | _ => cases h

theorem checkUpdateTarget_ok (first : Bool) (h : e.isTarget = true) (location : Location)
    (l : List Lexeme) : Scans (checkUpdateTarget first e location) l (some ((), l)) := by
  have := checkTarget_ok h location l
  cases e with
  | identifier name => exact this
  | member owner key => exact this
  | _ => cases h

theorem Fits.updateFirst (op : UpdateOp) (htarget : e.isTarget = true) (h : Fits Level.unary p e) :
    Fits Level.update (op.lexeme ++ p) (.update op true e) := by
  have hreach : Level.update ≤ op.lexeme.1.reach := by cases op <;> decide
  refine Reads.fits (by simp [IsChain, IsBinary]) (starts_of_reach hreach) fun n rest hends hlen => ?_
  simp only [lexemes_append, lexemes_one, List.cons_append, List.nil_append, outcome_append,
    outcome_one] at hlen ⊢
  obtain ⟨k, rfl, hk⟩ := exists_fuel hlen
  refine Scans.location fun location => .bind (atUpdate?_some op _) ?_
  refine .bind (.skip _ _) (.bind_outcome (h.reads k rest ?_ hk) ?_)
  · exact fun kind hkind => Nat.lt_of_le_of_ne (Nat.le_of_lt_succ (hends kind hkind)) kind.bond_ne_unary
  · exact .bind (checkUpdateTarget_ok true htarget location rest) (.pure _ _)

theorem Fits.updateLast (op : UpdateOp) (htarget : e.isTarget = true) (h : Fits Level.call p e) :
    Fits Level.update (p ++ op.lexeme) (.update op false e) := by
  have hstarts : Starts Level.update (p ++ op.lexeme).lexemes :=
    (h.starts.append _).mono (by decide)
  refine Reads.fits (by simp [IsChain, IsBinary]) hstarts fun n rest hends hlen => ?_
  simp only [lexemes_append, lexemes_one, List.cons_append, List.nil_append, outcome_append,
    outcome_one, List.append_assoc] at hlen ⊢
  have hbond : op.lexeme.1.bond < Level.call := by cases op <;> decide
  have hstarts := h.starts.append (op.lexeme :: rest)
  refine Scans.location fun location =>
    .bind (atUpdate?_none (hstarts.ne (by decide)) (hstarts.ne (by decide))) ?_
  refine .bind_outcome (h.reads n _ (ends_of_bond hbond) hlen) (.bind (.lineTerminatorBefore _) ?_)
  refine .bind (atUpdate?_some op _) ?_
  exact .bind (checkUpdateTarget_ok false htarget location _) (.bind (.skip _ _) (.pure _ _))

/-! ### Operators with two operands -/

theorem Fits.binary (op : BinaryOp) (hop : IsBinary op.level) (hp : Fits op.level p left)
    (hq : Fits (op.level + 1) q right) : Fits op.level (p ++ op.lexeme ++ q) (.binary op left right) := by
  have hchain : IsChain op.level := .inl hop
  have hbond := bond_of_operators hop (operators_lexeme op hop)
  rw [append_assoc]
  refine Passes.fits hchain (hp.starts.append _) ?_
  refine (hp.passes hchain).again (x := op.lexeme) rfl (Nat.lt_succ_of_le (Nat.le_of_eq hbond))
    fun n rest hends hlen => ?_
  simp only [lexemes_append, lexemes_one, List.cons_append, List.nil_append, outcome_append,
    outcome_one] at hlen ⊢
  rw [turn_binary hop]
  refine .bind (.peekKind? _) ?_
  rw [firstKind?_cons, Option.bind_some, operators_lexeme op hop]
  refine .bind (.skip _ _) (.bind_outcome (hq.reads n rest hends (Nat.lt_of_succ_lt hlen)) ?_)
  exact .pure _ _

theorem Fits.logical (op : LogicalOp) (hp : Fits op.level p left) (hq : Fits (op.level + 1) q right) :
    Fits op.level (p ++ op.lexeme ++ q) (.logical op left right) := by
  have hchain : IsChain op.level := by cases op <;> simp [IsChain, LogicalOp.level]
  have hbond : op.lexeme.1.bond ≤ op.level := by cases op <;> decide
  rw [append_assoc]
  refine Passes.fits hchain (hp.starts.append _) ?_
  refine (hp.passes hchain).again (x := op.lexeme) rfl (Nat.lt_succ_of_le hbond)
    fun n rest hends hlen => ?_
  simp only [lexemes_append, lexemes_one, List.cons_append, List.nil_append, outcome_append,
    outcome_one] at hlen ⊢
  have hright := hq.reads n rest hends (Nat.lt_of_succ_lt hlen)
  cases op <;> exact .bind (.eatKind _ _) (.bind_outcome hright (.pure _ _))

/-! ### Powers -/

theorem Fits.exponent (hp : Fits Level.update p left) (hq : Fits Level.exponentiation q right) :
    Fits Level.exponentiation (p ++ BinaryOp.exp.lexeme ++ q) (.binary .exp left right) := by
  rw [append_assoc]
  refine Reads.fits (by simp [IsChain, IsBinary]) ((hp.starts.append _).mono (by decide))
    fun n rest hends hlen => ?_
  simp only [lexemes_append, lexemes_one, List.cons_append, List.nil_append, outcome_append,
    outcome_one, List.append_assoc] at hlen ⊢
  have hbase := hp.reads n (BinaryOp.exp.lexeme :: (q.lexemes ++ rest))
    (ends_of_bond (by decide)) hlen
  obtain ⟨k, rfl, hk⟩ := exists_fuel_append hlen
  refine .bind (.peekKind? _) ?_
  rw [bind_unaryOperator? (hp.starts.append _)]
  refine .bind_outcome hbase (.bind (.eatKind _ _) ?_)
  exact .bind_outcome (hq.reads k rest hends hk) (.pure _ _)

/-- An operator with one operand right before the base of a power is an error. -/
theorem Fits.misplaced (hp : Fits Level.unary p left)
    (hop : ((firstKind? p.lexemes).bind unaryOperator?).isSome) :
    Fits Level.exponentiation (⟨p.lexemes, true⟩ ++ BinaryOp.exp.lexeme ++ q) e := by
  rw [append_assoc]
  refine Reads.fits (by simp [IsChain, IsBinary]) ((hp.starts.append _).mono (by decide))
    fun n rest hends hlen => ?_
  simp only [lexemes_append, lexemes_one, List.cons_append, List.nil_append,
    List.append_assoc] at hlen ⊢
  have hbase := hp.reads n (BinaryOp.exp.lexeme :: (q.lexemes ++ rest))
    (ends_of_bond (by decide)) hlen
  have hfirst : firstKind? (p.lexemes ++ BinaryOp.exp.lexeme :: (q.lexemes ++ rest)) =
      firstKind? p.lexemes := by
    cases hl : p.lexemes with
    | nil => rw [hl] at hop; cases hop
    | cons x l => rfl
  refine .bind (.peekKind? _) ?_
  rw [hfirst, if_pos hop]
  have hfail : Scans (do
      if ← atPunct .exponent then fail .unaryBeforeExponentiation
      return left) (BinaryOp.exp.lexeme :: (q.lexemes ++ rest)) (none : Option (Expr × List Lexeme)) :=
    .bind (.atKind_true _ _ _) fun _ _ _ _ => .misplaced
  have hnone : p.outcome (none : Option (Expr × List Lexeme)) = none := by
    unfold outcome
    split <;> rfl
  change Scans _ _ none
  rw [← hnone]
  exact .bind_outcome hbase hfail

/-! ### Conditional expressions and assignments -/

/-- The last operand of a conditional expression goes as far as it can, so the expression fits where
an assignment does. -/
theorem Fits.conditional {test yes no : Expr} (hp : Fits Level.logicalOr p test)
    (hq : Fits Level.assignment q yes) (hq' : Fits Level.assignment q' no) :
    Fits Level.assignment (p ++ punct .question ++ q ++ punct .colon ++ q')
      (.conditional test yes no) := by
  simp only [append_assoc]
  refine Reads.fits (by simp [IsChain, IsBinary]) ((hp.starts.append _).mono (by decide))
    fun n rest hends hlen => assignment_of_conditional ?_ hends
  simp only [lexemes_append, lexemes_one, List.cons_append, List.nil_append, outcome_append,
    outcome_one, List.append_assoc] at hlen ⊢
  have htest := hp.reads n (punct .question :: (q.lexemes ++ punct .colon :: (q'.lexemes ++ rest)))
    (ends_of_bond (by decide)) hlen
  obtain ⟨k, rfl, hk⟩ := exists_fuel_append hlen
  have hk' : (q'.lexemes ++ rest).length < k := by
    simp only [List.length_append, List.length_cons] at hk ⊢
    omega
  refine .bind_outcome htest (.bind (.eatKind _ _) ?_)
  refine .bind_outcome (.allowIn (hq.reads k _ (ends_of_bond (by decide)) hk)) ?_
  exact .bind (.expect _ _ _) (.bind_outcome (hq'.reads k rest hends hk') (.pure _ _))

theorem Fits.assign (op : AssignOp) (htarget : left.isTarget = true) (hp : Fits Level.call p left)
    (hq : Fits Level.assignment q right) :
    Fits Level.assignment (p ++ op.lexeme ++ q) (.assign op left right) := by
  have hbond : op.lexeme.1.bond = Level.assignment := by cases op <;> decide
  have hop : assignOp? op.lexeme.1 = some op := by cases op <;> rfl
  have harrow : op.lexeme.1 ≠ .punctuator .arrow := by cases op <;> decide
  have hnullish : op.lexeme.1 ≠ .punctuator .nullishAssign := by cases op <;> decide
  rw [append_assoc]
  refine Reads.fits (by simp [IsChain, IsBinary]) ((hp.starts.append _).mono (by decide))
    fun n rest hends hlen => ?_
  simp only [lexemes_append, lexemes_one, List.cons_append, List.nil_append, outcome_append,
    outcome_one, List.append_assoc] at hlen ⊢
  have hp' : Fits Level.conditional p left := hp.of_le (by decide) (by decide) (by decide)
  have hleft := hp'.reads n
    (op.lexeme :: (q.lexemes ++ rest)) (ends_of_bond (by rw [hbond]; decide)) hlen
  obtain ⟨k, rfl, hk⟩ := exists_fuel_append hlen
  refine Scans.location fun location => .bind_outcome hleft ?_
  refine .bind (.atKind_false (ne_first harrow)) (.bind (.atKind_false (ne_first hnullish)) ?_)
  refine .bind (.peekKind? _) ?_
  rw [firstKind?_cons, Option.bind_some, hop]
  refine .bind (checkTarget_ok htarget location _) (.bind (.skip _ _) ?_)
  exact .bind_outcome (hq.reads k rest hends hk) (.pure _ _)

/-! ### Property accesses -/

/-- A key of a property access, read from where it is printed. -/
def KeyReads (p : Printout) (key : MemberKey) : Prop :=
  ∀ n rest, (p.lexemes ++ rest).length < n →
    Scans (ofFuel n).memberKey? (p.lexemes ++ rest) (p.outcome (some (some key, rest)))

theorem wordKind_cases (name : String) : Scan.wordKind name = .identifier ∨
    Scan.wordKind name = .booleanLiteral ∨ Scan.wordKind name = .nullLiteral ∨
      ∃ k, Scan.wordKind name = .keyword k := by
  unfold Scan.wordKind
  split
  · exact .inr (.inl rfl)
  · split
    · exact .inr (.inr (.inl rfl))
    · split
      · exact .inr (.inr (.inr ⟨_, rfl⟩))
      · exact .inl rfl

theorem isPropertyWord_word (name : String) (location : Location) :
    (Token.mk (word name).1 (word name).2 location).isPropertyWord = true := by
  rcases wordKind_cases name with h | h | h | ⟨k, h⟩ <;> simp only [Token.isPropertyWord, word, h]

theorem keyReads_dot (name : String) : KeyReads (punct .dot ++ (word name : Printout)) (.dot name) := by
  intro n rest _
  simp only [lexemes_append, lexemes_one, List.cons_append, List.nil_append, outcome_append,
    outcome_one]
  refine .bind (.atKind_false (ne_first (by decide))) ?_
  refine .bind (.eatKind_false (ne_first (by decide))) (.bind (.eatKind _ _) ?_)
  refine Scans.advance fun location => ?_
  rw [if_pos (isPropertyWord_word name location)]
  exact .pure _ _

theorem keyReads_computed (h : Fits Level.assignment p e) :
    KeyReads (punct .leftBracket ++ p ++ punct .rightBracket) (.computed e) := by
  intro n rest hlen
  simp only [lexemes_append, lexemes_one, List.cons_append, List.nil_append, outcome_append,
    outcome_one, List.append_assoc] at hlen ⊢
  obtain ⟨k, rfl, hk⟩ := exists_fuel hlen
  refine .bind (.atKind_false (ne_first (by decide))) (.bind (.eatKind _ _) ?_)
  refine .bind_outcome (.allowIn (h.nested (by decide) (by decide) hk)) ?_
  exact .bind (.expect _ _ _) (.pure _ _)

theorem turn_member {g : Grammar} {key : MemberKey}
    (hlevel : level = Level.call ∨ level = Level.member)
    (hparen : firstKind? l ≠ some (.punctuator .leftParen))
    (h : Scans g.memberKey? l (q.outcome (some (some key, rest)))) :
    Scans (g.turn level e) l (q.outcome (some (.again (.member e key), rest))) := by
  obtain rfl | rfl := hlevel
  · exact .bind (.atKind_false hparen) (.bind_outcome h (.pure _ _))
  · exact .bind_outcome h (.pure _ _)

/-- A property access of a call is read by the production of calls, of any other expression by that
of property accesses. -/
theorem passes_member {key : MemberKey} (hlevel : level = Level.call ∨ level = Level.member)
    (hp : Passes level Level.primary p e) (hfirst : q.lexemes.head? = some x)
    (hbond : x.1.bond = Level.member) (hq : KeyReads q key) :
    Passes level Level.primary (p ++ q) (.member e key) := by
  refine hp.again hfirst (by rw [hbond]; decide) fun n rest _ hlen => ?_
  refine turn_member hlevel ?_ (hq n rest hlen)
  cases hl : q.lexemes with
  | nil => rw [hl] at hfirst; cases hfirst
  | cons y l =>
    rw [hl] at hfirst
    cases hfirst
    exact ne_first fun heq => absurd hbond (by rw [heq]; decide)

/-! ### Calls -/

/-- A turn of `Grammar.arguments`. -/
def argumentTurn (g : Grammar) (args : List Expr) : Parse (Turn (List Expr) (List Expr)) := do
  if ← eat .rightParen then return .done args.reverse
  if ← atPunct .ellipsis then unsupported "Spread arguments"
  let e ← g.assignment
  if !(← atPunct .rightParen) then expect .comma
  return .again (e :: args)

/-- Arguments up to the closing parenthesis, read from where they are printed. -/
def ArgumentsRead (p : Printout) (args : List Expr) : Prop :=
  ∀ n rest fuel done, (p.lexemes ++ rest).length < n → (p.lexemes ++ rest).length < fuel →
    Scans (loop (argumentTurn (ofFuel (n + 1))) fuel done) (p.lexemes ++ rest)
      (p.outcome (some (done.reverse ++ args, rest)))

theorem argumentsRead_nil : ArgumentsRead (punct .rightParen) [] := by
  intro n rest fuel done _ hfuel
  match fuel, hfuel with
  | fuel + 1, _ =>
    rw [List.append_nil]
    exact .loop_done (.bind (.eatKind _ _) (.pure _ _))

/-- A turn that reads an argument, and the comma after it if there is one. -/
theorem argumentTurn_again (hp : Fits Level.assignment p e) {n : Nat} {done : List Expr}
    (hlen : (p.lexemes ++ l).length < n)
    (hl : (firstKind? l = some (.punctuator .rightParen) ∧ rest = l) ∨ l = punct .comma :: rest) :
    Scans (argumentTurn (ofFuel (n + 1)) done) (p.lexemes ++ l)
      (p.outcome (some (.again (e :: done), rest))) := by
  have hstarts := hp.starts.append l
  have hends : Ends Level.assignment l := by
    rcases hl with ⟨hfirst, -⟩ | rfl
    · intro kind hkind
      cases hfirst.symm.trans hkind
      decide
    · exact ends_of_bond (by decide)
  refine .bind (.eatKind_false (hstarts.ne (by decide))) ?_
  refine .bind (.atKind_false (hstarts.ne (by decide))) (.bind_outcome (hp.reads n l hends hlen) ?_)
  rcases hl with ⟨hfirst, rfl⟩ | rfl
  · refine .bind (.atKind _ _) ?_
    rw [hfirst, beq_self_eq_true]
    exact .pure _ _
  · exact .bind (.atKind_false (ne_first (by decide))) (.bind (.expect _ _ _) (.pure _ _))

theorem argumentsRead_one (hp : Fits Level.assignment p e) :
    ArgumentsRead (p ++ punct .rightParen) [e] := by
  intro n rest fuel done hlen hfuel
  simp only [lexemes_append, lexemes_one, List.append_assoc, List.cons_append, List.nil_append,
    outcome_append, outcome_one] at hlen hfuel ⊢
  match fuel, hfuel with
  | fuel + 1, hfuel =>
    refine .bind_outcome (argumentTurn_again hp hlen (.inl ⟨rfl, rfl⟩)) ?_
    have hpos := hp.starts.length_pos
    simp only [List.length_append, List.length_cons] at hlen hfuel
    rw [← List.reverse_cons, ← List.append_nil (e :: done).reverse]
    refine argumentsRead_nil n rest fuel (e :: done) ?_ ?_ <;>
      simp only [lexemes_one, List.length_append, List.length_cons, List.length_nil] <;> omega

theorem argumentsRead_cons {args : List Expr} (hp : Fits Level.assignment p e)
    (hq : ArgumentsRead q args) : ArgumentsRead (p ++ punct .comma ++ q) (e :: args) := by
  intro n rest fuel done hlen hfuel
  simp only [lexemes_append, lexemes_one, List.append_assoc, List.cons_append, List.nil_append,
    outcome_append, outcome_one] at hlen hfuel ⊢
  match fuel, hfuel with
  | fuel + 1, hfuel =>
    refine .bind_outcome (argumentTurn_again hp hlen (.inr rfl)) ?_
    have heq : done.reverse ++ e :: args = (e :: done).reverse ++ args := by simp
    simp only [List.length_append, List.length_cons] at hlen hfuel
    rw [heq]
    refine hq n rest fuel (e :: done) ?_ ?_ <;> rw [List.length_append] <;> omega

theorem arguments_of_read {args : List Expr} (h : ArgumentsRead p args) {n : Nat}
    (hlen : (punct .leftParen :: (p.lexemes ++ rest)).length < n) :
    Scans (ofFuel n).arguments (punct .leftParen :: (p.lexemes ++ rest))
      (p.outcome (some (args, rest))) := by
  obtain ⟨k, rfl, hk⟩ := exists_fuel hlen
  refine .bind (.expect _ _ _) (.allowIn ?_)
  exact h k rest (k + 1) [] hk (Nat.lt_succ_of_lt hk)

theorem passes_call {bound : Nat} {args : List Expr} (hbound : Level.call < bound)
    (hp : Passes Level.call bound p e) (hq : ArgumentsRead q args) :
    Passes Level.call Level.primary (p ++ punct .leftParen ++ q) (.call e args) := by
  rw [append_assoc]
  refine hp.again (x := punct .leftParen) rfl hbound fun n rest _ hlen => ?_
  simp only [lexemes_append, lexemes_one, List.cons_append, List.nil_append, outcome_append,
    outcome_one] at hlen ⊢
  exact .bind (.atKind_true _ _ _) (.bind_outcome (arguments_of_read hq hlen) (.pure _ _))

theorem passes_construct {args : List Expr} (hp : Fits Level.member p e)
    (hq : ArgumentsRead q args) :
    Passes Level.member Level.primary (word "new" ++ p ++ punct .leftParen ++ q)
      (.construct e args) := by
  have hnew : word "new" = (.keyword .newKw, "new") := by decide
  intro n rest r _ hlen hrest
  simp only [lexemes_append, lexemes_one, List.cons_append, List.nil_append, outcome_append,
    outcome_one, List.append_assoc, hnew] at hlen ⊢
  have hlen' : (punct .leftParen :: (q.lexemes ++ rest)).length < n := by
    simp only [List.length_append, List.length_cons] at hlen ⊢
    omega
  have hargs := arguments_of_read hq hlen'
  have hfuel : rest.length < (ofFuel n).fuel := by
    refine fuel_ofFuel ?_
    simp only [List.length_append, List.length_cons] at hlen
    omega
  have hresume := hrest _ hfuel
  rw [resume_eq (by decide)] at hresume
  obtain ⟨k, rfl, hk⟩ := exists_fuel hlen
  have hstarts := hp.starts.append (punct .leftParen :: (q.lexemes ++ rest))
  have hcallee := hp.reads k _ (ends_of_bond (by decide)) hk
  refine .bind (.eatKind _ _) (.bind (.atKind_false (hstarts.ne (by decide))) ?_)
  have hconstruct : Scans (ofFuel (k + 1)).newExpression
      (p.lexemes ++ punct .leftParen :: (q.lexemes ++ rest))
      (p.outcome (q.outcome (some (.construct e args, rest)))) := by
    refine .bind (.atKind_false (hstarts.ne (by decide))) (.bind_outcome hcallee ?_)
    exact .bind (.atKind_true _ _ _) (.bind_outcome hargs (.pure _ _))
  rw [← outcome_append] at hconstruct ⊢
  exact .bind_outcome hconstruct hresume

/-! ### Every expression -/

/-- The printed expression can stand, with or without parentheses, in every place of an operand. No
operand has to be a conditional expression or a tighter one. -/
structure Placed (p : Printout) (e : Expr) : Prop where
  fits : ∀ {needed : Nat}, 0 < needed → needed ≤ Level.primary → needed ≠ Level.conditional →
    Fits needed (p.fit e.level needed) e
  call : e.level = Level.call → Passes Level.call Level.primary p e

/-- Every binary operator but that of powers associates to the left. -/
theorem isBinary_level {op : BinaryOp} (h : op ≠ .exp) : IsBinary op.level := by
  cases op <;> first | exact ⟨by decide, by decide⟩ | exact absurd rfl h

theorem level_pos (e : Expr) : 0 < e.level ∧ e.level ≤ Level.primary := by
  cases e with
  | binary op _ _ => cases op <;> simp [Expr.level, BinaryOp.level]
  | logical op _ _ => cases op <;> simp [Expr.level, LogicalOp.level]
  | member owner key =>
    rw [Expr.level]
    split <;> decide
  | _ => simp [Expr.level]

theorem Fits.placed (h : Fits level p e) (hlevel : e.level = level) (hcall : level ≠ Level.call) :
    Placed p e where
  fits hpos hle _ := (hlevel ▸ h).fit (level_pos e).1 (level_pos e).2 hpos hle
  call heq := absurd (hlevel.symm.trans heq) hcall

/-- Calls, and property accesses of calls. -/
theorem placed_of_call (hlevel : e.level = Level.call) (hstarts : Starts Level.call p.lexemes)
    (h : Passes Level.call Level.primary p e) : Placed p e where
  fits hpos hle _ := by
    have hpasses : Passes Level.call (Level.call + 1) p e :=
      fun n rest r hends => h n rest r (hends.mono (by decide))
    have hfits : Fits e.level p e := hlevel ▸ hpasses.fits (by simp [IsChain]) hstarts
    exact hfits.fit (level_pos e).1 (level_pos e).2 hpos hle
  call _ := h

theorem Fits.placed_conditional (h : Fits Level.assignment p e) (hlevel : e.level = Level.conditional) :
    Placed p e where
  fits {needed} hpos hle hne := by
    rw [Printout.fit, hlevel]
    split
    · exact h.enclosed.of_le hpos hle (by decide)
    · obtain rfl : needed = Level.assignment := by
        simp only [Level.conditional, Level.assignment] at *
        omega
      exact h
  call heq := absurd (hlevel.symm.trans heq) (by decide)

namespace Placed

variable (h : Placed p e)

include h

theorem atAssignment : Fits Level.assignment (p.fit e.level Level.assignment) e :=
  h.fits (by decide) (by decide) (by decide)

theorem atUnary : Fits Level.unary (p.fit e.level Level.unary) e :=
  h.fits (by decide) (by decide) (by decide)

theorem atCall : Fits Level.call (p.fit e.level Level.call) e :=
  h.fits (by decide) (by decide) (by decide)

/-- An owner that is no call is the owner of a property access that is none. -/
theorem fits_owner (hlevel : e.level ≠ Level.call) :
    Fits Level.member (p.fit e.level Level.call) e := by
  have hiff : e.level < Level.call ↔ e.level < Level.member := by
    simp only [Level.call, Level.member] at *
    omega
  have hfit : p.fit e.level Level.call = p.fit e.level Level.member := by
    simp only [Printout.fit, hiff]
  rw [hfit]
  exact h.fits (by decide) (by decide) (by decide)

/-- A property access is as tight as its owner allows. -/
theorem member {key : MemberKey} (hfirst : q.lexemes.head? = some x)
    (hbond : x.1.bond = Level.member) (hq : KeyReads q key) :
    Placed (p.fit e.level Level.call ++ q) (.member e key) := by
  by_cases hlevel : e.level = Level.call
  · have hmember : (Expr.member e key).level = Level.call := if_pos hlevel
    have howner : Passes Level.call Level.primary (p.fit e.level Level.call) e := by
      rw [Printout.fit, if_neg (by omega)]
      exact h.call hlevel
    have hpasses := passes_member (.inl rfl) howner hfirst hbond hq
    exact placed_of_call hmember (h.atCall.starts.append _) hpasses
  · have hmember : (Expr.member e key).level = Level.member := if_neg hlevel
    have howner := h.fits_owner hlevel
    have hpasses := passes_member (.inr rfl) (howner.passes (by simp [IsChain])) hfirst hbond hq
    have hfits := hpasses.fits (by simp [IsChain]) (howner.starts.append _)
    exact hfits.placed hmember (by decide)

end Placed

/-- An operator with one operand is the first lexeme of its expression. -/
theorem isSome_unaryOperator? (he : e.Plain) (hlevel : e.level = Level.unary)
    (mistakes : List Nat → Bool) :
    ((firstKind? (e.print mistakes).lexemes).bind unaryOperator?).isSome := by
  cases he with
  | unary op he => cases op <;> rfl
  | typeOf he => rfl
  | voidOf he => rfl
  | binary op _ _ => cases op <;> simp [Expr.level, BinaryOp.level] at hlevel
  | logical op _ _ => cases op <;> simp [Expr.level, LogicalOp.level] at hlevel
  | dot _ _ | computed _ _ =>
    rw [Expr.level] at hlevel
    split at hlevel <;> cases hlevel
  | _ => simp [Expr.level] at hlevel

/-- The base of a power, with its parentheses or without. -/
theorem fits_power {base : Expr} (hbase : base.Plain) {mistakes : List Nat → Bool}
    (hp : Placed (base.print mistakes) base) (hq : Fits Level.exponentiation q right)
    (mistaken : Bool) :
    Fits Level.exponentiation
      ((base.print mistakes).base base.level mistaken ++ BinaryOp.exp.lexeme ++ q)
      (.binary .exp base right) := by
  unfold Printout.base
  split
  · next h =>
    have hunary := hp.atUnary
    rw [Printout.fit, if_neg (by omega)] at hunary
    exact hunary.misplaced (isSome_unaryOperator? hbase h.1 mistakes)
  · exact (hp.fits (by decide) (by decide) (by decide)).exponent hq

/-- Printed arguments are read back. -/
theorem argumentsRead {args : List Expr} {mistakes : List Nat → Bool} (i : Nat)
    (h : ∀ e ∈ args, ∀ mistakes, Placed (e.print mistakes) e) :
    ArgumentsRead (Expr.printAll mistakes i args) args := by
  induction args generalizing i with
  | nil => exact argumentsRead_nil
  | cons e args ih =>
    have he := (h e (by simp) (within mistakes i)).atAssignment
    cases args with
    | nil => exact argumentsRead_one he
    | cons e' args => exact argumentsRead_cons he (ih (i + 1) fun e he => h e (by simp [he]))

/-- Every printed expression of operators can stand in every place of an operand. -/
theorem placed (he : e.Plain) (mistakes : List Nat → Bool) : Placed (e.print mistakes) e := by
  induction he generalizing mistakes with
  | identifier _ hkind => exact (Fits.identifier hkind).placed rfl (by decide)
  | unary op _ ih =>
    have hop : unaryOperator? op.lexeme.1 = some (.unary op) := by cases op <;> rfl
    have hreach : Level.unary ≤ op.lexeme.1.reach := by cases op <;> decide
    exact ((ih (within mistakes 0)).atUnary.prefixed hop hreach).placed rfl (by decide)
  | typeOf _ ih =>
    have hop : unaryOperator? (word "typeof").1 = some .typeOf := rfl
    exact ((ih (within mistakes 0)).atUnary.prefixed hop (by decide)).placed rfl (by decide)
  | voidOf _ ih =>
    have hop : unaryOperator? (word "void").1 = some .voidOf := rfl
    exact ((ih (within mistakes 0)).atUnary.prefixed hop (by decide)).placed rfl (by decide)
  | update op first htarget _ ih =>
    cases first with
    | true =>
      exact (Fits.updateFirst op htarget (ih (within mistakes 0)).atUnary).placed rfl (by decide)
    | false =>
      exact (Fits.updateLast op htarget (ih (within mistakes 0)).atCall).placed rfl (by decide)
  | @binary op left right hl _ ihl ihr =>
    by_cases hop : op = .exp
    · subst hop
      have hright : Fits Level.exponentiation _ right :=
        (ihr (within mistakes 1)).fits (by decide) (by decide) (by decide)
      exact (fits_power hl (ihl _) hright (mistakes [])).placed rfl (by decide)
    · have hbinary := isBinary_level hop
      have hprint : (Expr.binary op left right).print mistakes =
          (left.print (within mistakes 0)).fit left.level op.level ++ op.lexeme ++
            (right.print (within mistakes 1)).fit right.level (op.level + 1) := by
        cases op <;> first | rfl | exact absurd rfl hop
      have hleft := @(ihl (within mistakes 0)).fits op.level
      have hright := @(ihr (within mistakes 1)).fits (op.level + 1)
      rw [hprint]
      simp only [IsBinary, Level.bitwiseOr, Level.multiplicative, Level.primary,
        Level.conditional] at hbinary hleft hright
      have hcall : op.level ≠ Level.call := by
        simp only [Level.call]
        omega
      refine (Fits.binary op hbinary (hleft ?_ ?_ ?_) (hright ?_ ?_ ?_)).placed rfl hcall
      all_goals omega
  | logical op _ _ ihl ihr =>
    have hleft := @(ihl (within mistakes 0)).fits op.level
    have hright := @(ihr (within mistakes 1)).fits (op.level + 1)
    refine (Fits.logical op (hleft ?_ ?_ ?_) (hright ?_ ?_ ?_)).placed rfl ?_
    all_goals cases op <;> decide
  | conditional _ _ _ iht ihy ihn =>
    have htest : Fits Level.logicalOr _ _ :=
      (iht (within mistakes 0)).fits (by decide) (by decide) (by decide)
    exact (htest.conditional (ihy (within mistakes 1)).atAssignment
      (ihn (within mistakes 2)).atAssignment).placed_conditional rfl
  | assign op htarget _ _ iht ihv =>
    exact (Fits.assign op htarget (iht (within mistakes 0)).atCall
      (ihv (within mistakes 1)).atAssignment).placed rfl (by decide)
  | call _ _ ihc iha =>
    have hcallee := (ihc (within mistakes 0)).atCall
    refine placed_of_call rfl ((hcallee.starts.append _).append _) ?_
    exact passes_call (by decide) (hcallee.passes (by simp [IsChain])) (argumentsRead 1 iha)
  | construct _ _ ihc iha =>
    have hcallee : Fits Level.member _ _ :=
      (ihc (within mistakes 0)).fits (by decide) (by decide) (by decide)
    have harguments : ArgumentsRead (Expr.printAll mistakes 1 _) _ := argumentsRead 1 iha
    have hpasses := passes_construct hcallee harguments
    exact (hpasses.fits (by simp [IsChain]) (starts_of_reach (by decide))).placed rfl
      (by decide)
  | dot _ _ ih => exact (ih (within mistakes 0)).member rfl (by decide) (keyReads_dot _)
  | computed _ _ iho ihk =>
    have hkey := keyReads_computed (ihk (within (within mistakes 1) 0)).atAssignment
    exact (iho (within mistakes 0)).member rfl (by decide) hkey

end Grammar

end Ecma
