import Ecma.Proofs.Syntax.Symbolic

/-! Productions read back what is printed. A production of a level reads an expression of that level
or a tighter one, up to a lexeme that continues no expression of the level; where operators of the
level associate to the left, it has read the left operand when it comes to the operator. -/

namespace Ecma

open Lexeme Parse

namespace TokenKind

/-- The level of the expressions that a token continues, or zero. -/
def bond : TokenKind → Nat
  | .punctuator p =>
    match p with
    | .assign | .plusAssign | .minusAssign | .starAssign | .slashAssign | .percentAssign
    | .exponentAssign | .leftShiftAssign | .rightShiftAssign | .unsignedRightShiftAssign
    | .ampersandAssign | .pipeAssign | .caretAssign | .logicalAndAssign | .logicalOrAssign
    | .nullishAssign | .arrow => Level.assignment
    | .question => Level.conditional
    | .logicalOr | .nullishCoalescing => Level.logicalOr
    | .logicalAnd => Level.logicalAnd
    | .pipe => Level.bitwiseOr
    | .caret => Level.bitwiseXor
    | .ampersand => Level.bitwiseAnd
    | .equal | .notEqual | .strictEqual | .strictNotEqual => Level.equality
    | .lessThan | .greaterThan | .lessThanEqual | .greaterThanEqual => Level.relational
    | .leftShift | .rightShift | .unsignedRightShift => Level.shift
    | .plus | .minus => Level.additive
    | .star | .slash | .percent => Level.multiplicative
    | .exponent => Level.exponentiation
    | .increment | .decrement => Level.update
    | .leftParen => Level.call
    | .leftBracket | .dot | .optionalChain => Level.member
    | _ => 0
  | .keyword .inKw | .keyword .instanceofKw => Level.relational
  | _ => 0

/-- Operators with one operand stand before it. -/
theorem bond_ne_unary (kind : TokenKind) : kind.bond ≠ Level.unary := by
  unfold bond
  split
  · split <;> decide
  all_goals decide

/-- The tightest level of the expressions that start with a token, or zero. -/
def reach : TokenKind → Nat
  | .identifier | .punctuator .leftParen => Level.primary
  | .keyword .newKw => Level.member
  | .punctuator .increment | .punctuator .decrement => Level.update
  | .punctuator .plus | .punctuator .minus | .punctuator .tilde | .punctuator .bang
  | .keyword .typeofKw | .keyword .voidKw => Level.unary
  | _ => 0

theorem reach_of_unaryOperator {kind : TokenKind} (h : (Grammar.unaryOperator? kind).isSome) :
    kind.reach ≤ Level.unary := by
  revert h
  unfold Grammar.unaryOperator?
  split <;> simp [reach]

end TokenKind

/-- The lexemes continue no expression of the level. -/
def Ends (level : Nat) (l : List Lexeme) : Prop :=
  ∀ kind ∈ firstKind? l, kind.bond < level

/-- The lexemes start as expressions of the level do. -/
def Starts (level : Nat) (l : List Lexeme) : Prop :=
  ∃ kind ∈ firstKind? l, level ≤ kind.reach

theorem Ends.mono {level level' : Nat} {l : List Lexeme} (h : Ends level l) (hle : level ≤ level') :
    Ends level' l :=
  fun kind hkind => Nat.lt_of_lt_of_le (h kind hkind) hle

theorem Ends.ne {level : Nat} {l : List Lexeme} (h : Ends level l) {kind : TokenKind}
    (hkind : level ≤ kind.bond) : firstKind? l ≠ some kind :=
  fun heq => absurd (h kind heq) (by omega)

theorem Starts.ne {level : Nat} {l : List Lexeme} (h : Starts level l) {kind : TokenKind}
    (hkind : kind.reach < level) : firstKind? l ≠ some kind := by
  obtain ⟨kind', hkind', hle⟩ := h
  intro heq
  cases heq.symm.trans hkind'
  omega

theorem Starts.mono {level level' : Nat} {l : List Lexeme} (h : Starts level l)
    (hle : level' ≤ level) : Starts level' l := by
  obtain ⟨kind, hkind, hreach⟩ := h
  exact ⟨kind, hkind, Nat.le_trans hle hreach⟩

theorem Starts.append {level : Nat} {l : List Lexeme} (h : Starts level l) (l' : List Lexeme) :
    Starts level (l ++ l') := by
  obtain ⟨kind, hkind, hle⟩ := h
  refine ⟨kind, ?_, hle⟩
  cases l with
  | nil => cases hkind
  | cons x l => exact hkind

theorem Starts.length_pos {level : Nat} {l : List Lexeme} (h : Starts level l) : 0 < l.length := by
  obtain ⟨kind, hkind, -⟩ := h
  cases l with
  | nil => cases hkind
  | cons x l => exact Nat.succ_pos _

/-! ### Printouts -/

namespace Printout

/-- What reading a printed expression leads to: nothing if parentheses are left out. -/
def outcome {α : Type} (p : Printout) (r : Option α) : Option α :=
  if p.lacking then none else r

@[simp] theorem lexemes_append (p q : Printout) : (p ++ q).lexemes = p.lexemes ++ q.lexemes := rfl

@[simp] theorem lacking_append (p q : Printout) : (p ++ q).lacking = (p.lacking || q.lacking) := rfl

theorem outcome_append {α : Type} (p q : Printout) (r : Option α) :
    (p ++ q).outcome r = p.outcome (q.outcome r) := by
  cases hp : p.lacking <;> simp [outcome, hp]

end Printout

namespace Parse.Scans

variable {α β : Type} {x : Parse α} {f : α → Parse β} {a : α} {l m : List Lexeme}
  {r : Option (β × List Lexeme)}

/-- The rest of a production after it has read a printed expression. -/
theorem bind_outcome {p : Printout} (hx : Scans x l (p.outcome (some (a, m))))
    (hf : Scans (f a) m r) : Scans (x >>= f) l (p.outcome r) := by
  unfold Printout.outcome at *
  cases hp : p.lacking with
  | true => rw [hp] at hx; exact bind_misplaced hx
  | false => rw [hp] at hx; exact bind hx hf

end Parse.Scans

/-! ### Productions by their levels -/

namespace Grammar

/-- The production of the expressions of a level. -/
def production (g : Grammar) : (level : Nat) → Parse Expr
  | Level.assignment => g.assignmentExpression
  | Level.conditional => g.conditionalExpression
  | Level.logicalOr => g.logicalOr
  | Level.logicalAnd => g.logicalAnd
  | Level.unary => g.unaryExpression
  | Level.update => g.updateExpression
  | Level.call => g.leftHandSideExpression
  | Level.member => g.memberExpression
  | Level.primary => g.primary
  | level => g.binaryExpression ((binaryLevels false).drop (level - Level.bitwiseOr))

/-- The operators of a level of binary operators. -/
def operators (level : Nat) : BinaryLevel :=
  (binaryLevels false).getD (level - Level.bitwiseOr) fun _ => none

/-- A turn of the production of a level of binary operators. -/
def binaryTurn (g : Grammar) (level : Nat) (left : Expr) : Parse (Turn Expr Expr) := do
  match (← peekKind?).bind (operators level) with
  | some op =>
    skip
    return .again (.binary op left (← g.production (level + 1)))
  | none => return .done left

/-- A turn of the production of a level whose operators associate to the left. -/
def turn (g : Grammar) : (level : Nat) → Expr → Parse (Turn Expr Expr)
  | Level.logicalOr, left => do
    if ← eat .logicalOr then return .again (.logical .or left (← g.logicalAnd))
    return .done left
  | Level.logicalAnd, left => do
    if ← eat .logicalAnd then
      return .again (.logical .and left (← g.binaryExpression (binaryLevels false)))
    return .done left
  | Level.call, e => do
    if ← atPunct .leftParen then return .again (.call e (← g.arguments))
    match ← g.memberKey? with
    | some key => return .again (.member e key)
    | none => return .done e
  | Level.member, e => do
    match ← g.memberKey? with
    | some key => return .again (.member e key)
    | none => return .done e
  | level, left => g.binaryTurn level left

/-- The end of a production that has read an expression with its operators. -/
def finish (level : Nat) (e : Expr) : Parse Expr := do
  if level = Level.logicalOr then
    if ← atPunct .nullishCoalescing then unsupported "Nullish coalescing expressions"
  return e

/-- A production from where it has read the left operand `e`. -/
def resume (g : Grammar) (level fuel : Nat) (e : Expr) : Parse Expr :=
  loop (g.turn level) fuel e >>= finish level

/-- The levels of binary operators. -/
def IsBinary (level : Nat) : Prop :=
  Level.bitwiseOr ≤ level ∧ level ≤ Level.multiplicative

/-- The levels whose operators associate to the left. -/
def IsChain (level : Nat) : Prop :=
  IsBinary level ∨ level = Level.logicalOr ∨ level = Level.logicalAnd ∨ level = Level.call ∨
    level = Level.member

variable {g : Grammar} {level fuel : Nat} {e : Expr} {l rest : List Lexeme}
  {r : Option (Expr × List Lexeme)}

theorem IsBinary.cases (h : IsBinary level) : level = 5 ∨ level = 6 ∨ level = 7 ∨ level = 8 ∨
    level = 9 ∨ level = 10 ∨ level = 11 ∨ level = 12 := by
  simp only [IsBinary, Level.bitwiseOr, Level.multiplicative] at h
  omega

theorem production_binary (h : IsBinary level) :
    g.production level = g.production (level + 1) >>= fun e => loop (g.turn level) g.fuel e := by
  obtain rfl | rfl | rfl | rfl | rfl | rfl | rfl | rfl := h.cases <;> rfl

theorem turn_binary (h : IsBinary level) : g.turn level e = g.binaryTurn level e := by
  obtain rfl | rfl | rfl | rfl | rfl | rfl | rfl | rfl := h.cases <;> rfl

theorem bond_of_operators {kind : TokenKind} {op : BinaryOp} (h : IsBinary level)
    (hop : operators level kind = some op) : kind.bond = level := by
  obtain rfl | rfl | rfl | rfl | rfl | rfl | rfl | rfl := h.cases
  all_goals
    simp only [operators, binaryLevels, Level.bitwiseOr, Nat.reduceSub, List.getD_cons_zero,
      List.getD_cons_succ] at hop
    try unfold relational at hop
    split at hop <;> first | rfl | cases hop

theorem operators_lexeme (op : BinaryOp) (h : IsBinary op.level) :
    operators op.level op.lexeme.1 = some op := by
  cases op <;> first | decide | exact absurd h.2 (by decide)

/-! ### Left-associative levels -/

theorem memberKey?_none (h : Ends Level.member l) : Scans g.memberKey? l (some (none, l)) := by
  refine .bind (.atKind_false (h.ne (by decide))) ?_
  refine .bind (.eatKind_false (h.ne (by decide))) ?_
  refine .bind (.eatKind_false (h.ne (by decide))) ?_
  exact .pure _ _

/-- A turn that finds no operator of the level. -/
theorem turn_done (hlevel : IsChain level) (h : Ends level l) :
    Scans (g.turn level e) l (some (.done e, l)) := by
  obtain hbinary | rfl | rfl | rfl | rfl := hlevel
  · have hnone : (firstKind? l).bind (operators level) = none := by
      refine Option.bind_eq_none_iff.2 fun kind hkind => ?_
      cases hop : operators level kind with
      | none => rfl
      | some op => exact absurd (bond_of_operators hbinary hop) (Nat.ne_of_lt (h kind hkind))
    rw [turn_binary hbinary]
    refine .bind (.peekKind? l) ?_
    rw [hnone]
    exact .pure _ _
  · exact .bind (.eatKind_false (h.ne (by decide))) (.pure _ _)
  · exact .bind (.eatKind_false (h.ne (by decide))) (.pure _ _)
  · refine .bind (.atKind_false (h.ne (by decide))) ?_
    exact .bind (memberKey?_none (h.mono (by decide))) (.pure _ _)
  · exact .bind (memberKey?_none h) (.pure _ _)

theorem finish_of_ends (h : Ends level l) : Scans (finish level e) l (some (e, l)) := by
  unfold finish
  split
  · next hor =>
    subst hor
    exact .bind (.atKind_false (h.ne (by decide))) (.pure _ _)
  · exact .pure _ _

theorem resume_done (hlevel : IsChain level) (h : Ends level l) :
    Scans (g.resume level (fuel + 1) e) l (some (e, l)) :=
  .bind (.loop_done (turn_done hlevel h)) (finish_of_ends h)

theorem resume_again {q : Printout} {left : Expr}
    (hturn : Scans (g.turn level left) l (q.outcome (some (.again e, rest))))
    (h : Scans (g.resume level fuel e) rest r) :
    Scans (g.resume level (fuel + 1) left) l (q.outcome r) := by
  rw [resume, loop, bind_assoc]
  exact .bind_outcome hturn h

theorem resume_eq (h : level ≠ Level.logicalOr) :
    g.resume level fuel e = loop (g.turn level) fuel e := by
  have hfinish : finish level = pure := funext fun e => if_neg h
  rw [resume, hfinish, bind_pure]

/-- A production of a left-associative level starts as one of the next level. -/
theorem production_chain (hlevel : IsChain level) (hstarts : Starts (level + 1) l) {q : Printout}
    (h : Scans (g.production (level + 1)) l (q.outcome (some (e, rest))))
    (hrest : Scans (g.resume level g.fuel e) rest r) :
    Scans (g.production level) l (q.outcome r) := by
  obtain hbinary | rfl | rfl | rfl | rfl := hlevel
  · have hne : level ≠ Level.logicalOr := fun heq => absurd (heq ▸ hbinary.1) (by decide)
    rw [resume_eq hne] at hrest
    rw [production_binary hbinary]
    exact .bind_outcome h hrest
  · exact .bind_outcome h hrest
  · rw [resume_eq (by decide)] at hrest
    refine .ofSurroundings fun c hc => ?_
    rw [hc.noIn]
    exact .bind_outcome h hrest
  · rw [resume_eq (by decide)] at hrest
    refine .bind (.atKind_false (hstarts.ne (by decide))) ?_
    exact .bind (.nthIs _ _ _) (.bind_outcome h hrest)
  · rw [resume_eq (by decide)] at hrest
    refine .bind (.eatKind_false (hstarts.ne (by decide))) ?_
    exact .bind (.atKind_false (hstarts.ne (by decide))) (.bind_outcome h hrest)

/-! ### Printed expressions -/

/-- The production of the level reads the printed expression, up to lexemes that continue no
expression of the level. -/
def Reads (level : Nat) (p : Printout) (e : Expr) : Prop :=
  ∀ n rest, Ends level rest → (p.lexemes ++ rest).length < n →
    Scans ((ofFuel n).production level) (p.lexemes ++ rest) (p.outcome (some (e, rest)))

/-- The production of a left-associative level has read the printed expression as its left operand
when it comes to lexemes that continue no expression of the level `bound`. -/
def Passes (level bound : Nat) (p : Printout) (e : Expr) : Prop :=
  ∀ n rest r, Ends bound rest → (p.lexemes ++ rest).length < n →
    (∀ fuel, rest.length < fuel → Scans ((ofFuel n).resume level fuel e) rest r) →
    Scans ((ofFuel n).production level) (p.lexemes ++ rest) (p.outcome r)

/-- The printed expression can stand where one of the level is needed. -/
structure Fits (level : Nat) (p : Printout) (e : Expr) : Prop where
  starts : Starts level p.lexemes
  reads : Reads level p e
  passes : IsChain level → Passes level (level + 1) p e

variable {p q : Printout}

theorem fuel_ofFuel {n m : Nat} (h : m < n) : m < (ofFuel n).fuel := by
  cases n with
  | zero => omega
  | succ n => exact h

theorem Passes.reads (hlevel : IsChain level) (h : Passes level (level + 1) p e) :
    Reads level p e := by
  intro n rest hends hlen
  refine h n rest _ (hends.mono (Nat.le_succ _)) hlen fun fuel hfuel => ?_
  match fuel, hfuel with
  | fuel + 1, _ => exact resume_done hlevel hends

theorem Reads.passes (hlevel : IsChain level) (h : Reads (level + 1) p e)
    (hstarts : Starts (level + 1) p.lexemes) : Passes level (level + 1) p e := by
  intro n rest r hends hlen hrest
  refine production_chain hlevel (hstarts.append rest) (h n rest hends hlen) (hrest _ ?_)
  exact fuel_ofFuel (by rw [List.length_append] at hlen; omega)

/-- An operand after the left one, with its operator. -/
theorem Passes.again {bound bound' : Nat} {left : Expr} {x : Lexeme} (h : Passes level bound p left)
    (hfirst : q.lexemes.head? = some x) (hbond : x.1.bond < bound)
    (hturn : ∀ n rest, Ends bound' rest → (q.lexemes ++ rest).length < n →
      Scans ((ofFuel n).turn level left) (q.lexemes ++ rest) (q.outcome (some (.again e, rest)))) :
    Passes level bound' (p ++ q) e := by
  intro n rest r hends hlen hrest
  obtain ⟨more, hq⟩ : ∃ more, q.lexemes = x :: more := by
    cases hq : q.lexemes with
    | nil => rw [hq] at hfirst; cases hfirst
    | cons y more => rw [hq] at hfirst; cases hfirst; exact ⟨more, rfl⟩
  rw [Printout.lexemes_append, List.append_assoc] at hlen ⊢
  rw [Printout.outcome_append]
  have hlen' : (q.lexemes ++ rest).length < n := by
    rw [List.length_append] at hlen
    omega
  refine h n (q.lexemes ++ rest) _ ?_ hlen fun fuel hfuel => ?_
  · rw [hq]
    rintro kind ⟨⟩
    exact hbond
  · match fuel, hfuel with
    | fuel + 1, hfuel =>
      refine resume_again (hturn n rest hends hlen') (hrest fuel ?_)
      rw [hq] at hfuel
      simp only [List.cons_append, List.length_cons, List.length_append] at hfuel
      omega

/-! ### From level to level -/

theorem bond_of_assignOp {kind : TokenKind} {op : AssignOp} (h : assignOp? kind = some op) :
    kind.bond = Level.assignment := by
  unfold assignOp? at h
  split at h
  · split at h <;> first | rfl | cases h
  · cases h

theorem assignment_of_conditional (h : Scans g.conditionalExpression l (p.outcome (some (e, rest))))
    (hends : Ends Level.assignment rest) :
    Scans g.assignmentExpression l (p.outcome (some (e, rest))) := by
  refine .location fun _ => .bind_outcome h ?_
  refine .bind (.atKind_false (hends.ne (by decide))) ?_
  refine .bind (.atKind_false (hends.ne (by decide))) ?_
  refine .bind (.peekKind? rest) ?_
  have hnone : (firstKind? rest).bind assignOp? = none := by
    refine Option.bind_eq_none_iff.2 fun kind hkind => ?_
    cases hop : assignOp? kind with
    | none => rfl
    | some op => exact absurd (bond_of_assignOp hop) (Nat.ne_of_lt (hends kind hkind))
  rw [hnone]
  exact .pure _ _

theorem conditional_of_logicalOr (h : Scans g.logicalOr l (p.outcome (some (e, rest))))
    (hends : Ends Level.conditional rest) :
    Scans g.conditionalExpression l (p.outcome (some (e, rest))) :=
  .bind_outcome h (.bind (.eatKind_false (hends.ne (by decide))) (.pure _ _))

theorem atUpdate?_none (h : firstKind? l ≠ some (.punctuator .increment))
    (h' : firstKind? l ≠ some (.punctuator .decrement)) : Scans atUpdate? l (some (none, l)) :=
  .bind (.atKind_false h) (.bind (.atKind_false h') (.pure _ _))

theorem update_of_leftHandSide (hstarts : Starts Level.call l)
    (h : Scans g.leftHandSideExpression l (p.outcome (some (e, rest))))
    (hends : Ends Level.update rest) :
    Scans g.updateExpression l (p.outcome (some (e, rest))) := by
  refine .location fun _ => .bind (atUpdate?_none ?_ ?_) ?_
  · exact hstarts.ne (by decide)
  · exact hstarts.ne (by decide)
  · refine .bind_outcome h (.bind (.lineTerminatorBefore _) ?_)
    exact .bind (atUpdate?_none (hends.ne (by decide)) (hends.ne (by decide))) (.pure _ _)

/-- Without an operator in front, an operand is one of the next level. -/
theorem unaryExpression_eq {c : Surroundings} {s : ParseState} {x : Lexeme} (hs : s.Shows (x :: l))
    (h : unaryOperator? x.1 = none) : g.unaryExpression c s = g.updateExpression c s := by
  obtain ⟨t, rfl, heq⟩ := bind_peek (β := Expr) c hs
  rw [unaryExpression, heq, h]

theorem bind_unaryOperator? (h : Starts Level.update l) :
    (firstKind? l).bind unaryOperator? = none := by
  obtain ⟨kind, hkind, hreach⟩ := h
  rw [hkind, Option.bind_some]
  cases hop : unaryOperator? kind with
  | none => rfl
  | some build =>
    have hle := TokenKind.reach_of_unaryOperator (Option.isSome_of_eq_some hop)
    exact absurd (Nat.le_trans hreach hle) (by decide)

theorem unary_of_update (hstarts : Starts Level.update l)
    (h : Scans g.updateExpression l r) : Scans g.unaryExpression l r := by
  have hnone := bind_unaryOperator? hstarts
  cases l with
  | nil =>
    obtain ⟨kind, hkind, -⟩ := hstarts
    cases hkind
  | cons x l => exact h.of_eq fun _ _ _ hs => unaryExpression_eq hs hnone

theorem exponentiation_of_unary (hstarts : Starts Level.unary l)
    (h : Scans g.unaryExpression l (p.outcome (some (e, rest))))
    (hends : Ends Level.exponentiation rest) :
    Scans g.exponentiationExpression l (p.outcome (some (e, rest))) := by
  obtain ⟨kind, hkind, hreach⟩ := hstarts
  cases l with
  | nil => cases hkind
  | cons x l =>
    refine .bind (.peekKind? _) ?_
    cases hop : unaryOperator? x.1 with
    | some build =>
      rw [if_pos (by simp [hop])]
      exact .bind_outcome h (.bind (.atKind_false (hends.ne (by decide))) (.pure _ _))
    | none =>
      rw [if_neg (by simp [hop])]
      have hupdate : Scans g.updateExpression (x :: l) (p.outcome (some (e, rest))) :=
        h.of_eq fun _ _ _ hs => (unaryExpression_eq hs hop).symm
      exact .bind_outcome hupdate (.bind (.eatKind_false (hends.ne (by decide))) (.pure _ _))

/-- What fits where a tighter expression is needed fits where a looser one is. -/
theorem Fits.lower (hpos : 0 < level) (hle : level < Level.primary) (h : Fits (level + 1) p e) :
    Fits level p e := by
  have hstarts : Starts level p.lexemes := h.starts.mono (Nat.le_succ _)
  by_cases hchain : IsChain level
  · have hpasses := h.reads.passes hchain h.starts
    exact ⟨hstarts, hpasses.reads hchain, fun _ => hpasses⟩
  · refine ⟨hstarts, fun n rest hends hlen => ?_, fun hchain' => absurd hchain' hchain⟩
    have hnext := h.reads n rest (hends.mono (Nat.le_succ _)) hlen
    obtain rfl | rfl | rfl | rfl | rfl : level = 1 ∨ level = 2 ∨ level = 13 ∨ level = 14 ∨
        level = 15 := by
      simp [IsChain, IsBinary] at hchain hle
      omega
    · exact assignment_of_conditional hnext hends
    · exact conditional_of_logicalOr hnext hends
    · exact exponentiation_of_unary (h.starts.append rest) hnext hends
    · exact unary_of_update (h.starts.append rest) hnext
    · exact update_of_leftHandSide (h.starts.append rest) hnext hends

theorem Fits.of_le {level' : Nat} (h : Fits level p e) (hpos : 0 < level') (hle : level' ≤ level)
    (hprimary : level ≤ Level.primary) : Fits level' p e := by
  induction level with
  | zero => omega
  | succ level ih =>
    obtain rfl | hlt := Nat.eq_or_lt_of_le hle
    · exact h
    · exact ih (h.lower (by omega) (by simp at hprimary ⊢; omega)) (by omega) (by omega)

/-- A left-associative expression fits at its level. -/
theorem Passes.fits (hlevel : IsChain level) (hstarts : Starts level p.lexemes)
    (h : Passes level (level + 1) p e) : Fits level p e :=
  ⟨hstarts, h.reads hlevel, fun _ => h⟩

/-- An expression whose operator is not left-associative fits at its level. -/
theorem Reads.fits (hlevel : ¬IsChain level) (hstarts : Starts level p.lexemes)
    (h : Reads level p e) : Fits level p e :=
  ⟨hstarts, h, fun hchain => absurd hchain hlevel⟩

end Grammar

end Ecma
