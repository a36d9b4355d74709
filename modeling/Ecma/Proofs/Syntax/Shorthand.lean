import Ecma.Grammar.Statement
import Ecma.Proofs.Syntax.Symbolic
import Ecma.Proofs.Syntax.Taking
import Ecma.Proofs.Syntax.Variables

/-! Object literals of shorthand properties. Whatever the layout of the source, if a script of one
such literal in parentheses is accepted, each name has become a property with the name as its key
and as its value. -/

namespace Ecma

open Lexeme

/-- The property that a name alone stands for. -/
def PropertyDef.shorthand (name : String) : PropertyDef :=
  .init (.identifier name) (.identifier name)

namespace ParseState

/-- The tokens to come, by category and text. -/
def lexemes (s : ParseState) : List Lexeme :=
  s.tokens.significant.map fun t => (t.kind, t.text)

theorem lexemes_of_tokens {s s' : ParseState} (h : s'.tokens = s.tokens) :
    s'.lexemes = s.lexemes := by
  rw [lexemes, h, lexemes]

variable (s : ParseState)

theorem peek?_lexemes : s.tokens.peek?.map (fun t => (t.kind, t.text)) = s.lexemes.head? := by
  rw [TokenStream.peek?_eq, lexemes, List.head?_map]

theorem peekKind?_lexemes : s.tokens.peekKind? = firstKind? s.lexemes := by
  rw [firstKind?, ← s.peek?_lexemes, Option.map_map]
  rfl

theorem isAtEnd_lexemes : s.tokens.isAtEnd = s.lexemes.isEmpty := by
  rw [TokenStream.isAtEnd, ← Option.isNone_map (f := fun t : Token => (t.kind, t.text)),
    s.peek?_lexemes]
  cases s.lexemes <;> rfl

end ParseState

namespace Parse

variable {α β : Type}

/-- From tokens that show the lexemes, the only result of the production is the value, and other
lexemes are left. -/
def Gets (p : Parse α) (l : List Lexeme) (a : α) (l' : List Lexeme) : Prop :=
  ∀ c s, s.lexemes = l → p.Yields c s fun b s' => b = a ∧ s'.lexemes = l'

namespace Gets

variable {p : Parse α} {f : α → Parse β} {a : α} {b : β} {x : Lexeme} {l l' l'' : List Lexeme}

theorem pure (a : α) (l : List Lexeme) : Gets (pure a) l a l :=
  fun _ _ hs => .pure ⟨rfl, hs⟩

theorem bind (hp : Gets p l a l') (hf : Gets (f a) l' b l'') : Gets (p >>= f) l b l'' :=
  fun c s hs => .bind (hp c s hs) fun _ s' h => by
    obtain ⟨rfl, hs'⟩ := h
    exact hf c s' hs'

theorem fail [p.Fails] : Gets p l a l' :=
  fun _ _ _ => .fail

/-- What a step gives that takes no token may not matter. -/
theorem still [p.Still] (hf : ∀ a, Gets (f a) l b l') : Gets (p >>= f) l b l' :=
  fun c s hs => .bind (Still.yields c s) fun a s' h =>
    hf a c s' ((ParseState.lexemes_of_tokens h).trans hs)

theorem of_still {p : Parse Unit} [p.Still] : Gets p l () l :=
  fun c s hs => (Still.yields c s).mono fun _ _ h =>
    ⟨rfl, (ParseState.lexemes_of_tokens h).trans hs⟩

theorem allowIn (h : Gets p l a l') : Gets (allowIn p) l a l' :=
  fun _ s hs => .withReader (h _ s hs)

/-! ### Tokens -/

theorem peekKind? : Gets peekKind? l (firstKind? l) l := by
  rintro c s rfl _ _ heq
  cases heq
  exact ⟨s.peekKind?_lexemes, rfl⟩

theorem atKind (kind : TokenKind) : Gets (atKind kind) l (firstKind? l == some kind) l := by
  rintro c s rfl _ _ heq
  cases heq
  exact ⟨by rw [TokenStream.check, s.peekKind?_lexemes], rfl⟩

theorem atKind_false {kind : TokenKind} (h : firstKind? l ≠ some kind) :
    Gets (Parse.atKind kind) l false l :=
  beq_false_of_ne h ▸ atKind kind

theorem atEnd : Gets atEnd l l.isEmpty l := by
  rintro c s rfl _ _ heq
  cases heq
  exact ⟨s.isAtEnd_lexemes, rfl⟩

theorem nthIs (n : Nat) (q : Punctuator) :
    Gets (nthIs n q) l ((l[n]?).any fun x => x.1 == .punctuator q) l := by
  rintro c s rfl _ _ heq
  cases heq
  refine ⟨?_, rfl⟩
  rw [TokenStream.peekNth?_eq, ParseState.lexemes, List.getElem?_map, Option.any_map]

theorem peek {f : Token → Parse β} (h : ∀ location, Gets (f ⟨x.1, x.2, location⟩) (x :: l) b l') :
    Gets (peek >>= f) (x :: l) b l' := by
  intro c s hs
  refine .bind yields_peek fun t s' ht => ?_
  obtain ⟨rfl, ht⟩ := ht
  have hx := s'.peek?_lexemes
  rw [ht, hs] at hx
  cases hx
  exact h t.location c s' hs

theorem skip : Gets skip (x :: l) () l := by
  intro c s hs
  obtain ⟨t, rest, hnext, -, hrest⟩ := List.map_eq_cons_iff.mp hs
  exact (Yields.skip_next hnext).mono fun _ s' h => ⟨rfl, by rw [ParseState.lexemes, h, hrest]⟩

theorem advance {f : Token → Parse β} (h : ∀ location, Gets (f ⟨x.1, x.2, location⟩) l b l') :
    Gets (advance >>= f) (x :: l) b l' := by
  intro c s hs
  refine .bind .advance fun t s' ht => ?_
  rw [ParseState.lexemes, ht, List.map_cons] at hs
  obtain ⟨rfl, hs'⟩ := List.cons.inj hs
  exact h t.location c s' hs'

theorem eatKind {kind : TokenKind} (text : String) :
    Gets (eatKind kind) ((kind, text) :: l) true l := by
  refine .bind (atKind _) ?_
  rw [if_pos (by simp)]
  exact .bind skip (.pure _ _)

theorem eatKind_false {kind : TokenKind} (h : firstKind? l ≠ some kind) :
    Gets (Parse.eatKind kind) l false l :=
  .bind (atKind_false h) (.pure _ _)

theorem expect (q : Punctuator) (text : String) :
    Gets (expect q) ((.punctuator q, text) :: l) () l :=
  .bind (eatKind _) (.pure _ _)

/-! ### Loops -/

variable {turn : α → Parse (Turn α β)}

theorem loop_done (h : Gets (turn a) l (.done b) l') (fuel : Nat) :
    Gets (Parse.loop turn fuel a) l b l' := by
  cases fuel with
  | zero => exact .fail (p := throw _)
  | succ fuel => exact .bind h (.pure _ _)

theorem loop_again (a' : α) (l' : List Lexeme) (h : Gets (turn a) l (.again a') l')
    {m : List Lexeme} (hrest : ∀ fuel, Gets (Parse.loop turn fuel a') l' b m) (fuel : Nat) :
    Gets (Parse.loop turn fuel a) l b m := by
  cases fuel with
  | zero => exact .fail (p := throw _)
  | succ fuel => exact .bind h (hrest fuel)

end Gets

end Parse

open Parse

/-! ### Primary expressions -/

namespace Grammar

/-- The lexemes end, or a closing parenthesis comes next: no expression goes on there. -/
def Closed (l : List Lexeme) : Prop :=
  firstKind? l = none ∨ firstKind? l = some (.punctuator .rightParen)

/-- A bracket comes next that starts an expression. -/
def Bracketed (l : List Lexeme) : Prop :=
  firstKind? l = some (.punctuator .leftParen) ∨ firstKind? l = some (.punctuator .leftBrace)

variable {g : Grammar} {e : Expr} {l l' : List Lexeme} {kind : TokenKind}

theorem Closed.ne (h : Closed l) (hkind : kind ≠ .punctuator .rightParen) :
    firstKind? l ≠ some kind := by
  rintro heq
  rcases h with h | h <;> rw [heq] at h <;> cases h
  exact hkind rfl

theorem Closed.bind {α : Type} {f : TokenKind → Option α} (h : Closed l)
    (hf : f (.punctuator .rightParen) = none) : (firstKind? l).bind f = none := by
  rcases h with h | h <;> rw [h]
  · rfl
  · exact hf

theorem Bracketed.ne (h : Bracketed l) (hparen : kind ≠ .punctuator .leftParen)
    (hbrace : kind ≠ .punctuator .leftBrace) : firstKind? l ≠ some kind := by
  rintro heq
  rcases h with h | h <;> rw [heq] at h <;> cases h
  · exact hparen rfl
  · exact hbrace rfl

theorem Bracketed.exists_cons (h : Bracketed l) : ∃ x rest, l = x :: rest ∧
    unaryOperator? x.1 = none := by
  cases l with
  | nil => rcases h with h | h <;> cases h
  | cons x rest =>
    refine ⟨x, rest, rfl, ?_⟩
    rcases h with h | h <;> rw [Option.some.inj h] <;> rfl

/-- An expression goes from a bracket to where no expression goes on. -/
structure Encloses (l l' : List Lexeme) : Prop where
  opens : Bracketed l
  closes : Closed l'

namespace Encloses

variable (h : Encloses l l')
include h

theorem memberKey? : Gets g.memberKey? l' none l' :=
  .bind (.atKind_false (h.closes.ne (by decide))) (.bind (.eatKind_false (h.closes.ne (by decide)))
    (.bind (.eatKind_false (h.closes.ne (by decide))) (.pure _ _)))

theorem memberExpression (he : Gets g.primary l e l') : Gets g.memberExpression l e l' := by
  have hchain : Gets (g.memberChain e) l' e l' :=
    .loop_done (.bind h.memberKey? (.pure (Turn.done e) _)) _
  refine .bind (.eatKind_false (h.opens.ne (by decide) (by decide))) ?_
  exact .bind (.atKind_false (h.opens.ne (by decide) (by decide))) (.bind he hchain)

theorem leftHandSideExpression (he : Gets g.primary l e l') :
    Gets g.leftHandSideExpression l e l' := by
  have hchain : Gets (g.callChain e) l' e l' :=
    .loop_done (.bind (.atKind_false (h.closes.ne (by decide)))
      (.bind h.memberKey? (.pure (Turn.done e) _))) _
  refine .bind (.atKind_false (h.opens.ne (by decide) (by decide))) ?_
  exact .bind (.nthIs _ _) (.bind (h.memberExpression he) hchain)

theorem updateExpression (he : Gets g.primary l e l') : Gets g.updateExpression l e l' := by
  have hfirst : Gets atUpdate? l none l :=
    .bind (.atKind_false (h.opens.ne (by decide) (by decide)))
      (.bind (.atKind_false (h.opens.ne (by decide) (by decide))) (.pure _ _))
  have hlast : Gets atUpdate? l' none l' :=
    .bind (.atKind_false (h.closes.ne (by decide)))
      (.bind (.atKind_false (h.closes.ne (by decide))) (.pure _ _))
  refine .still fun start => .bind hfirst (.bind (h.leftHandSideExpression he) ?_)
  refine .still fun broken => ?_
  split
  · exact .pure _ _
  · exact .bind hlast (.pure _ _)

theorem exponentiationExpression (he : Gets g.primary l e l') :
    Gets g.exponentiationExpression l e l' := by
  obtain ⟨x, rest, rfl, hx⟩ := h.opens.exists_cons
  refine .bind .peekKind? ?_
  rw [firstKind?_cons, Option.bind_some, hx, if_neg (by simp)]
  refine .bind (h.updateExpression he) ?_
  exact .bind (.eatKind_false (h.closes.ne (by decide))) (.pure _ _)

theorem binaryExpression (he : Gets g.primary l e l') {levels : List BinaryLevel}
    (hlevels : ∀ level ∈ levels, level (.punctuator .rightParen) = none) :
    Gets (g.binaryExpression levels) l e l' := by
  induction levels with
  | nil => exact h.exponentiationExpression he
  | cons level tighter ih =>
    refine .bind (ih fun level hlevel => hlevels level (by simp [hlevel])) (.loop_done ?_ _)
    refine .bind .peekKind? ?_
    rw [h.closes.bind (hlevels level (by simp))]
    exact .pure _ _

theorem logicalOr (he : Gets g.primary l e l') : Gets g.logicalOr l e l' := by
  have hlevels (noIn : Bool) : ∀ level ∈ binaryLevels noIn,
      level (.punctuator .rightParen) = none := by
    simp [binaryLevels, relational]
  have hand : Gets g.logicalAnd l e l' := by
    refine .still fun c => .bind (h.binaryExpression he (hlevels c.noIn)) (.loop_done ?_ _)
    exact .bind (.eatKind_false (h.closes.ne (by decide))) (.pure _ _)
  have hor : Gets (eat .logicalOr) l' false l' := .eatKind_false (h.closes.ne (by decide))
  refine .bind hand (.bind (.loop_done (.bind hor (.pure (Turn.done e) _)) _) ?_)
  exact .bind (.atKind_false (h.closes.ne (by decide))) (.pure _ _)

/-- A primary expression in brackets is read as the whole expression. -/
theorem assignmentExpression (he : Gets g.primary l e l') :
    Gets g.assignmentExpression l e l' := by
  have hconditional : Gets g.conditionalExpression l e l' :=
    .bind (h.logicalOr he) (.bind (.eatKind_false (h.closes.ne (by decide))) (.pure _ _))
  refine .still fun start => .bind hconditional ?_
  refine .bind (.atKind_false (h.closes.ne (by decide))) ?_
  refine .bind (.atKind_false (h.closes.ne (by decide))) (.bind .peekKind? ?_)
  rw [h.closes.bind rfl]
  exact .pure _ _

end Encloses

/-! ### Shorthand properties -/

/-- The lexeme may be the name of a property. -/
def IsWord (x : Lexeme) : Prop :=
  ∀ location, Token.isPropertyWord ⟨x.1, x.2, location⟩ = true

theorem IsWord.ne_punct {x : Lexeme} (h : IsWord x) (q : Punctuator) : x.1 ≠ .punctuator q := by
  intro heq
  have := h default
  rw [Token.isPropertyWord, heq] at this
  cases this

theorem IsWord.ne_first {x : Lexeme} (h : IsWord x) (q : Punctuator) :
    firstKind? (x :: l) ≠ some (.punctuator q) :=
  fun heq => h.ne_punct q (Option.some.inj heq)

/-- The lexemes of properties up to the closing brace. -/
def shorthandLexemes : List Lexeme → List Lexeme
  | [] => [punct .rightBrace]
  | [x] => [x, punct .rightBrace]
  | x :: y :: rest => x :: punct .comma :: shorthandLexemes (y :: rest)

/-- A name ends before a comma or the closing brace. -/
def NameEnds (l : List Lexeme) : Prop :=
  firstKind? l = some (.punctuator .comma) ∨ firstKind? l = some (.punctuator .rightBrace)

variable {x : Lexeme}

theorem NameEnds.ne (h : NameEnds l) (hcomma : kind ≠ .punctuator .comma)
    (hbrace : kind ≠ .punctuator .rightBrace) : firstKind? l ≠ some kind := by
  rintro heq
  rcases h with h | h <;> rw [heq] at h <;> cases h
  · exact hcomma rfl
  · exact hbrace rfl

theorem gets_modifiesNext (h : NameEnds l) : Gets modifiesNext (x :: l) false (x :: l) := by
  intro c s hs
  refine .bind (P := fun t s' => s' = s ∧ t = s.tokens.significant[1]?)
    (fun _ _ heq => by cases heq; exact ⟨rfl, TokenStream.peekNth?_eq _ _⟩) fun t s' ht => ?_
  obtain ⟨rfl, ht⟩ := ht
  have hkind : t.map Token.kind = firstKind? l := by
    have hnth : (s'.lexemes[1]?).map Prod.fst = firstKind? l := by
      rw [hs, firstKind?, List.head?_eq_getElem?, List.getElem?_cons_succ]
    rw [← hnth, ParseState.lexemes, List.getElem?_map, Option.map_map, ht]
    rfl
  cases t with
  | none => rcases h with h | h <;> rw [h] at hkind <;> cases hkind
  | some t =>
    rcases h with h | h <;> rw [h] at hkind <;> simp only [Option.some.inj hkind] <;>
      exact .pure ⟨rfl, hs⟩

/-- A name alone is no modifier. -/
theorem gets_atModifier (word : String) (h : NameEnds l) :
    Gets (atModifier word) (x :: l) false (x :: l) := by
  refine .still fun b => ?_
  split
  · exact gets_modifiesNext h
  · exact .pure _ _

theorem gets_propertyRest (h : NameEnds l) (start : Nat) (location : Location) :
    Gets (g.propertyRest start ⟨x.1, x.2, location⟩ (.identifier x.2)) l (.shorthand x.2) l := by
  refine .bind (.atKind_false (h.ne (by decide) (by decide))) ?_
  refine .bind (.eatKind_false (h.ne (by decide) (by decide))) ?_
  refine .bind (.atKind_false (h.ne (by decide) (by decide))) ?_
  simp only [Bool.false_eq_true, if_false]
  split
  · exact .still fun _ => .pure _ _
  · refine .still fun strict => ?_
    split
    · exact .fail
    · exact .pure _ _
  · exact .fail

theorem gets_objectProperty (hx : IsWord x) (h : NameEnds l) :
    Gets g.objectProperty (x :: l) (.shorthand x.2) l := by
  have hmodifier : Gets accessorModifier (x :: l) none (x :: l) :=
    .bind (gets_atModifier "get" h) (.bind (gets_atModifier "set" h) (.pure _ _))
  refine .still fun start => .bind (.atKind_false (hx.ne_first _)) (.bind (.atKind_false (hx.ne_first _)) ?_)
  refine .bind hmodifier (.peek fun location => ?_)
  have hkey : Gets g.propertyName (x :: l) (.identifier x.2) l :=
    .advance fun location => by
      rw [if_pos (hx location)]
      exact .pure _ _
  exact .bind hkey (gets_propertyRest h _ _)

/-- A turn of the production of object literals. -/
def propertyTurn (g : Grammar) (properties : List PropertyDef) :
    Parse (Turn (List PropertyDef) Expr) := do
  if ← eat .rightBrace then return .done (.object properties.reverse)
  let property ← g.objectProperty
  if !(← atPunct .rightBrace) then expect .comma
  return .again (property :: properties)

theorem propertyTurn_done (properties : List PropertyDef) :
    Gets (g.propertyTurn properties) (punct .rightBrace :: l)
      (.done (.object properties.reverse)) l :=
  .bind (.eatKind _) (.pure _ _)

/-- The literal of the properties that have been read and those to come. -/
theorem gets_propertyTurns {xs : List Lexeme} (hxs : ∀ x ∈ xs, IsWord x)
    (properties : List PropertyDef) (fuel : Nat) :
    Gets (loop g.propertyTurn fuel properties) (shorthandLexemes xs ++ l)
      (.object (properties.reverse ++ xs.map fun x => .shorthand x.2)) l := by
  induction xs using shorthandLexemes.induct generalizing properties fuel with
  | case1 =>
    simpa [shorthandLexemes] using .loop_done (propertyTurn_done properties) fuel
  | case2 x =>
    have hx := hxs x (by simp)
    refine .loop_again (PropertyDef.shorthand x.2 :: properties) (punct .rightBrace :: l) ?_ ?_ fuel
    · refine .bind (.eatKind_false (hx.ne_first _)) (.bind (gets_objectProperty hx (.inr rfl)) ?_)
      exact .bind (.atKind _) (.pure _ _)
    · intro fuel
      have := Gets.loop_done (propertyTurn_done (g := g) (l := l) (PropertyDef.shorthand x.2 :: properties)) fuel
      simpa using this
  | case3 x y rest ih =>
    have hx := hxs x (by simp)
    refine .loop_again (PropertyDef.shorthand x.2 :: properties) (shorthandLexemes (y :: rest) ++ l)
      ?_ ?_ fuel
    · refine .bind (.eatKind_false (hx.ne_first _)) (.bind (gets_objectProperty hx (.inl rfl)) ?_)
      exact .bind (.atKind _) (.bind (.expect _ _) (.pure _ _))
    · intro fuel
      have := ih (fun z hz => hxs z (by simp [hz])) (PropertyDef.shorthand x.2 :: properties) fuel
      simpa using this

theorem gets_objectLiteral {xs : List Lexeme} (hxs : ∀ x ∈ xs, IsWord x) :
    Gets g.objectLiteral (punct .leftBrace :: (shorthandLexemes xs ++ l))
      (.object (xs.map fun x => .shorthand x.2)) l :=
  .bind (.expect _ _) (gets_propertyTurns hxs [] _).allowIn

/-! ### Scripts -/

/-- The lexemes of a script of an object literal of names in parentheses. -/
def literalLexemes (xs : List Lexeme) : List Lexeme :=
  punct .leftParen :: punct .leftBrace :: (shorthandLexemes xs ++ [punct .rightParen])

variable {xs : List Lexeme}

theorem mem_shorthandLexemes (h : x ∈ xs) : x ∈ shorthandLexemes xs := by
  induction xs using shorthandLexemes.induct with
  | case1 => cases h
  | case2 y => exact List.mem_cons.mpr (.inl (List.mem_singleton.mp h))
  | case3 y z rest ih =>
    rcases List.mem_cons.mp h with rfl | h
    · exact List.mem_cons_self
    · exact List.mem_cons_of_mem _ (List.mem_cons_of_mem _ (ih h))

theorem mem_literalLexemes (h : x ∈ xs) : x ∈ literalLexemes xs :=
  List.mem_cons_of_mem _ (List.mem_cons_of_mem _ (List.mem_append_left _ (mem_shorthandLexemes h)))

theorem gets_assignment {n : Nat} (h : Encloses l l')
    (he : ∀ n, Gets (ofFuel n).primary l e l') : Gets (ofFuel n).assignment l e l' := by
  cases n with
  | zero => exact .fail (p := throw _)
  | succ n => exact h.assignmentExpression (he n)

theorem gets_expression (hxs : ∀ x ∈ xs, IsWord x) (n : Nat) :
    Gets (ofFuel n).expression (literalLexemes xs) (.object (xs.map fun x => .shorthand x.2)) [] := by
  have hliteral (n : Nat) : Gets (ofFuel n).primary
      (punct .leftBrace :: (shorthandLexemes xs ++ [punct .rightParen]))
      (.object (xs.map fun x => .shorthand x.2)) [punct .rightParen] :=
    .peek fun _ => gets_objectLiteral hxs
  have hnested : Gets (ofFuel n).nestedExpression
      (punct .leftBrace :: (shorthandLexemes xs ++ [punct .rightParen]))
      (.object (xs.map fun x => .shorthand x.2)) [punct .rightParen] :=
    .bind (gets_assignment ⟨.inr rfl, .inr rfl⟩ hliteral) (.bind (.atKind _) (.pure _ _))
  have hprimary : Gets (ofFuel n).primary (literalLexemes xs) (.object (xs.map fun x => .shorthand x.2)) [] := by
    refine .peek fun _ => .bind .skip (.bind (.atKind _) ?_)
    exact .still fun arrow => .bind hnested.allowIn (.bind (.expect _ _) (.pure _ _))
  have henclosed : Encloses (literalLexemes xs) [] :=
    ⟨.inl rfl, .inl rfl⟩
  exact .bind (henclosed.assignmentExpression hprimary) (.bind (.atKind _) (.pure _ _))

theorem gets_item (hxs : ∀ x ∈ xs, IsWord x) (n : Nat) :
    Gets (ofFuel n).statementListItem (literalLexemes xs)
      (.expression (.object (xs.map fun x => .shorthand x.2))) [] := by
  have hsemicolon : Gets semicolon [] () [] := by
    refine .bind (.eatKind_false (by simp)) (.bind .atEnd ?_)
    exact .of_still
  have hlet : Gets atLet (literalLexemes xs) false (literalLexemes xs) := by
    have hdeclares : Gets atLetDeclaration (literalLexemes xs) false (literalLexemes xs) :=
      .bind (.atKind _) (.pure _ _)
    refine .bind hdeclares (.still fun strict => .bind (.atKind _) ?_)
    cases strict <;> exact .pure _ _
  have hdeclaration : Gets atDeclaration (literalLexemes xs) false (literalLexemes xs) :=
    .bind .peekKind? hlet
  refine .bind .peekKind? (.bind hdeclaration ?_)
  exact .bind (gets_expression hxs n) (.bind hsemicolon (.pure _ _))

/-- The statement is no directive, and nothing comes after it. -/
theorem yields_literalScript (hxs : ∀ x ∈ xs, IsWord x) (n : Nat) {c : Surroundings} {s : ParseState}
    (hs : s.lexemes = literalLexemes xs) : (ofFuel n).script.Yields c s fun p _ =>
      p.body = [.expression (.object (xs.map fun x => .shorthand x.2))] := by
  have hbody : ((ofFuel n).body (ofFuel n).statementListItem).Yields c s fun r _ =>
      r.1 = [.expression (.object (xs.map fun x => .shorthand x.2))] := by
    refine .bind (Still.yields c s) fun strict s' h => ?_
    have hs' := (ParseState.lexemes_of_tokens h).trans hs
    refine (Gets.loop_again ⟨[.expression (.object (xs.map fun x => .shorthand x.2))], false, strict⟩ []
      (b := ([.expression (.object (xs.map fun x => .shorthand x.2))], strict)) (m := []) ?_ ?_ _
        c s' hs').mono fun _ _ h => congrArg Prod.fst h.1
    · refine .bind .atEnd (.bind (.atKind _) (.still fun directive => ?_))
      refine .bind (fun _ s hs => gets_item hxs n _ s hs) ?_
      cases strict <;> exact .pure _ _
    · exact .loop_done (.bind .atEnd (.bind (.atKind _) (.pure _ _)))
  refine .bind hbody fun r s' hr => .bind (Still.yields c s') fun atEnd s₁ _ => ?_
  split
  · exact .fail
  · exact .after fun _ _ => .after fun _ _ => .pure hr

end Grammar

/-- A script of an object literal of names in parentheses is accepted only as the literal in which
each name is the key and the value of a property. -/
theorem Program.body_of_shorthand {source : String} {p : Program} {xs : List Lexeme}
    (hparse : parse source = .ok p) (hxs : ∀ x ∈ xs, Grammar.IsWord x)
    (htokens : ((Lexed.ofString source).tokens.filter Token.isSignificant).map
      (fun t => (t.kind, t.text)) = Grammar.literalLexemes xs) :
    p.body = [.expression (.object (xs.map fun x => .shorthand x.2))] := by
  obtain ⟨stream, depth, s', hstream, hscript⟩ := script_of_parse hparse
  refine Grammar.yields_literalScript hxs depth ?_ p s' hscript
  rw [ParseState.lexemes, hstream, htokens]

end Ecma
