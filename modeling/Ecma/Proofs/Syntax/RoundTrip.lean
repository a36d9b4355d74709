import Ecma.Proofs.Syntax.Reparse
import Ecma.Proofs.Token.Spelling

/-! Parsing undoes printing: the text of a printed expression is the script of that one expression,
and without the parentheses of an operator with one operand before a power it is an error. -/

namespace Ecma

open Lexeme Parse Printout

/-! ### Spellings -/

namespace Printout

variable {p q : Printout} {x : Lexeme}

/-- Every lexeme is read back from its spelling. -/
def IsSpelled (p : Printout) : Prop :=
  ∀ x ∈ p.lexemes, x.IsSpelled

theorem isSpelled_one (h : x.IsSpelled) : (one x).IsSpelled := by
  intro y hy
  rw [lexemes_one, List.mem_singleton] at hy
  exact hy ▸ h

theorem isSpelled_word {text : String} (h : isWord text = true) : (one (word text)).IsSpelled :=
  isSpelled_one (.word h)

theorem isSpelled_punct {p : Punctuator} (h : p ≠ .optionalChain) : (one (punct p)).IsSpelled :=
  isSpelled_one (.punct h)

theorem IsSpelled.append (hp : p.IsSpelled) (hq : q.IsSpelled) : (p ++ q).IsSpelled := by
  intro x hx
  rw [lexemes_append, List.mem_append] at hx
  exact hx.elim (hp x) (hq x)

theorem IsSpelled.fit (hp : p.IsSpelled) (level needed : Nat) : (p.fit level needed).IsSpelled := by
  unfold Printout.fit
  split
  · exact ((isSpelled_punct (by decide)).append hp).append (isSpelled_punct (by decide))
  · exact hp

theorem IsSpelled.base (hp : p.IsSpelled) (level : Nat) (mistaken : Bool) :
    (p.base level mistaken).IsSpelled := by
  unfold Printout.base
  split
  · exact hp
  · exact hp.fit _ _

end Printout

theorem isSpelled_printAll {args : List Expr} {mistakes : List Nat → Bool} (i : Nat)
    (h : ∀ e ∈ args, ∀ mistakes, (e.print mistakes).IsSpelled) :
    (Expr.printAll mistakes i args).IsSpelled := by
  induction args generalizing i with
  | nil => exact isSpelled_punct (by decide)
  | cons e args ih =>
    have he := (h e (by simp) (within mistakes i)).fit e.level Level.assignment
    cases args with
    | nil => exact he.append (isSpelled_punct (by decide))
    | cons e' args =>
      exact (he.append (isSpelled_punct (by decide))).append (ih (i + 1) fun e he => h e (by simp [he]))

theorem isSpelled_print {e : Expr} (he : e.Plain) (mistakes : List Nat → Bool) :
    (e.print mistakes).IsSpelled := by
  induction he generalizing mistakes with
  | identifier hword _ => exact isSpelled_word hword
  | unary op _ ih =>
    exact (isSpelled_one (by cases op <;> exact .punct (by decide))).append ((ih _).fit _ _)
  | typeOf _ ih => exact (isSpelled_word (by decide)).append ((ih _).fit _ _)
  | voidOf _ ih => exact (isSpelled_word (by decide)).append ((ih _).fit _ _)
  | update op first _ _ ih =>
    have hop : (one op.lexeme).IsSpelled := isSpelled_one (by cases op <;> exact .punct (by decide))
    cases first with
    | true => exact hop.append ((ih _).fit _ _)
    | false => exact ((ih _).fit _ _).append hop
  | binary op _ _ ihl ihr =>
    have hop : (one op.lexeme).IsSpelled := isSpelled_one (by
      cases op <;> first | exact .punct (by decide) | exact .word (by decide))
    cases op with
    | exp => exact (((ihl _).base _ _).append hop).append ((ihr _).fit _ _)
    | _ => exact (((ihl _).fit _ _).append hop).append ((ihr _).fit _ _)
  | logical op _ _ ihl ihr =>
    have hop : (one op.lexeme).IsSpelled := isSpelled_one (by cases op <;> exact .punct (by decide))
    exact (((ihl _).fit _ _).append hop).append ((ihr _).fit _ _)
  | conditional _ _ _ iht ihy ihn =>
    exact (((((iht _).fit _ _).append (isSpelled_punct (by decide))).append ((ihy _).fit _ _)).append
      (isSpelled_punct (by decide))).append ((ihn _).fit _ _)
  | assign op _ _ _ iht ihv =>
    have hop : (one op.lexeme).IsSpelled := isSpelled_one (by cases op <;> exact .punct (by decide))
    exact (((iht _).fit _ _).append hop).append ((ihv _).fit _ _)
  | call _ _ ihc iha =>
    exact (((ihc _).fit _ _).append (isSpelled_punct (by decide))).append (isSpelled_printAll 1 iha)
  | construct _ _ ihc iha =>
    exact (((isSpelled_word (by decide)).append ((ihc _).fit _ _)).append
      (isSpelled_punct (by decide))).append (isSpelled_printAll 1 iha)
  | dot _ hword ih =>
    exact ((ih _).fit _ _).append ((isSpelled_punct (by decide)).append (isSpelled_word hword))
  | computed _ _ iho ihk =>
    exact ((iho _).fit _ _).append (((isSpelled_punct (by decide)).append ((ihk _).fit _ _)).append
      (isSpelled_punct (by decide)))

/-! ### Labels -/

/-- The lexemes start with a label. -/
def StartsWithLabel (l : List Lexeme) : Prop :=
  firstKind? l = some .identifier ∧ firstKind? l.tail = some (.punctuator .colon)

namespace Printout

variable {p q : Printout} {x : Lexeme}

/-- No label stands at the start of the printed lexemes, unless a colon comes after them. -/
def IsUnlabeled (p : Printout) : Prop :=
  ∀ rest, firstKind? rest ≠ some (.punctuator .colon) → ¬StartsWithLabel (p.lexemes ++ rest)

/-- No label stands at the start of the printed lexemes, whatever comes after them. -/
def NeverLabeled (p : Printout) : Prop :=
  ∀ rest, ¬StartsWithLabel (p.lexemes ++ rest)

theorem NeverLabeled.isUnlabeled (h : p.NeverLabeled) : p.IsUnlabeled :=
  fun rest _ => h rest

theorem NeverLabeled.append (hp : p.NeverLabeled) (q : Printout) : (p ++ q).NeverLabeled := by
  intro rest
  rw [lexemes_append, List.append_assoc]
  exact hp _

theorem neverLabeled_one (h : x.1 ≠ .identifier) : (one x).NeverLabeled :=
  fun _ hlabel => h (Option.some.inj hlabel.1)

theorem IsUnlabeled.append (hp : p.IsUnlabeled) (hq : q.lexemes.head? = some x)
    (hx : x.1 ≠ .punctuator .colon) : (p ++ q).NeverLabeled := by
  intro rest
  rw [lexemes_append, List.append_assoc]
  refine hp _ fun heq => hx ?_
  cases hl : q.lexemes with
  | nil => rw [hl] at hq; cases hq
  | cons y l =>
    rw [hl] at hq heq
    cases hq
    exact Option.some.inj heq

theorem IsUnlabeled.fit (hp : p.IsUnlabeled) (level needed : Nat) :
    (p.fit level needed).IsUnlabeled := by
  unfold Printout.fit
  split
  · exact (((neverLabeled_one (by decide)).append p).append _).isUnlabeled
  · exact hp

theorem IsUnlabeled.base (hp : p.IsUnlabeled) (level : Nat) (mistaken : Bool) :
    (p.base level mistaken).IsUnlabeled := by
  unfold Printout.base
  split
  · exact hp
  · exact hp.fit _ _

end Printout

theorem isUnlabeled_print {e : Expr} (he : e.Plain) (mistakes : List Nat → Bool) :
    (e.print mistakes).IsUnlabeled := by
  induction he generalizing mistakes with
  | identifier _ _ => exact fun rest hrest h => hrest h.2
  | unary op _ _ =>
    exact ((neverLabeled_one (by cases op <;> decide)).append _).isUnlabeled
  | typeOf _ _ => exact ((neverLabeled_one (by decide)).append _).isUnlabeled
  | voidOf _ _ => exact ((neverLabeled_one (by decide)).append _).isUnlabeled
  | update op first _ _ ih =>
    cases first with
    | true => exact ((neverLabeled_one (by cases op <;> decide)).append _).isUnlabeled
    | false => exact (((ih _).fit _ _).append rfl (by cases op <;> decide)).isUnlabeled
  | binary op _ _ ihl _ =>
    have hop : op.lexeme.1 ≠ .punctuator .colon := by cases op <;> decide
    cases op with
    | exp => exact ((((ihl _).base _ _).append rfl hop).append _).isUnlabeled
    | _ => exact ((((ihl _).fit _ _).append rfl hop).append _).isUnlabeled
  | logical op _ _ ihl _ =>
    exact ((((ihl _).fit _ _).append rfl (by cases op <;> decide)).append _).isUnlabeled
  | conditional _ _ _ iht _ _ =>
    exact ((((((iht _).fit _ _).append rfl (by decide)).append _).append _).append _).isUnlabeled
  | assign op _ _ _ iht _ =>
    exact ((((iht _).fit _ _).append rfl (by cases op <;> decide)).append _).isUnlabeled
  | call _ _ ihc _ =>
    exact ((((ihc _).fit _ _).append rfl (by decide)).append _).isUnlabeled
  | construct _ _ _ _ =>
    exact ((((neverLabeled_one (by decide)).append _).append _).append _).isUnlabeled
  | dot _ _ ih => exact (((ih _).fit _ _).append rfl (by decide)).isUnlabeled
  | computed _ _ ih _ => exact (((ih _).fit _ _).append rfl (by decide)).isUnlabeled

/-! ### Scripts -/

namespace Grammar

variable {p : Printout} {e : Expr} {n : Nat}

/-- What starts an expression of operators starts no other statement, apart from labels. -/
theorem statement_of_reach {g : Grammar} {kind : TokenKind} (h : 0 < kind.reach)
    (hkind : kind ≠ .identifier) : g.statement kind = g.expressionStatement := by
  revert h
  unfold TokenKind.reach
  split <;> intro h <;> first | rfl | exact absurd rfl hkind | exact absurd h (by decide)

theorem ends_nil (level : Nat) : Ends level [] := by
  rintro kind ⟨⟩

theorem expressionStatement_scans (hp : Fits Level.assignment p e) (hlen : p.lexemes.length < n) :
    Scans (ofFuel n).expressionStatement p.lexemes (p.outcome (some (.expression e, []))) := by
  have hreads := hp.reads n [] (ends_nil _) (by rwa [List.append_nil])
  rw [List.append_nil] at hreads
  have hexpression : Scans (ofFuel n).expression p.lexemes (p.outcome (some (e, []))) :=
    .bind_outcome hreads (.bind (.atKind_false (by simp)) (.pure _ _))
  have homit : Scans omitSemicolon [] (some ((), [])) :=
    fun _ _ _ hs => .value ⟨hs.lexemes, hs.significant, hs.declared⟩
  have hsemicolon : Scans semicolon [] (some ((), [])) :=
    .bind (.eatKind_false (by simp)) (.bind (.atEnd _) (.bind (.atKind_false (by simp))
      (.bind (.lineTerminatorBefore _) homit)))
  exact .bind_outcome hexpression (.bind hsemicolon (.pure _ _))

theorem statementListItem_scans (hp : Fits Level.assignment p e) (hlabel : p.IsUnlabeled)
    (hlen : p.lexemes.length < n) :
    Scans (ofFuel n).statementListItem p.lexemes (p.outcome (some (.expression e, []))) := by
  have hstatement := expressionStatement_scans hp hlen
  obtain ⟨kind, hkind, hreach⟩ := hp.starts
  have hfirst : firstKind? p.lexemes = some kind := hkind
  have hne {kind' : TokenKind} (h : kind'.reach < Level.assignment) :
      firstKind? p.lexemes ≠ some kind' := hp.starts.ne h
  refine .bind (.peekKind? _) ?_
  rw [hfirst]
  have hdeclaration : Scans atDeclaration p.lexemes (some (false, p.lexemes)) := by
    have hlet : Scans atLet p.lexemes (some (false, p.lexemes)) := by
      have hkeyword := Scans.atKind_false (@hne (.keyword .letKw) (by decide))
      have hdeclares : Scans atLetDeclaration p.lexemes (some (false, p.lexemes)) :=
        .bind hkeyword (.pure _ _)
      exact .bind hdeclares (.bind (.strict _) (.bind hkeyword (.pure _ _)))
    refine .bind (.peekKind? _) ?_
    split
    · next h => exact absurd h (hne (by decide))
    · next h => exact absurd h (hne (by decide))
    · next h => exact absurd h (hne (by decide))
    · exact hlet
  refine .bind hdeclaration ?_
  rw [if_neg Bool.false_ne_true]
  by_cases hid : kind = .identifier
  · subst hid
    have hcolon : (p.lexemes[1]?.any fun x => x.1 == .punctuator .colon) = false := by
      have hnone := hlabel [] (by simp)
      rw [List.append_nil] at hnone
      cases hany : p.lexemes[1]?.any fun x => x.1 == .punctuator .colon with
      | false => rfl
      | true =>
        obtain ⟨x, hx, hcolon⟩ := (Option.any_eq_true _ _).1 hany
        refine (hnone ⟨hfirst, ?_⟩).elim
        rw [firstKind?, List.head?_tail, hx, Option.map_some, eq_of_beq hcolon]
    have hnth := Scans.nthIs 1 .colon p.lexemes
    rw [hcolon] at hnth
    exact .bind hnth hstatement
  · rw [statement_of_reach hreach hid]
    exact hstatement

/-- Looking for a directive takes no token. -/
theorem atUseStrict_scans (l : List Lexeme) : ∃ b, Scans atUseStrict l (some (b, l)) := by
  refine ⟨l.head?.any fun x =>
    x.1 == .stringLiteral && (x.2 == "'use strict'" || x.2 == "\"use strict\""), ?_⟩
  intro c s _ hs
  rw [← hs.peek?]
  unfold atUseStrict
  rw [Parse.peek?_bind]
  cases s.tokens.peek? <;> exact .value hs

/-- A body of one statement that is no directive. -/
theorem body_scans {item : Parse Stmt} {t : Stmt} (hstarts : Starts Level.assignment p.lexemes)
    (hitem : Scans item p.lexemes (p.outcome (some (t, [])))) (hdirective : isDirective t = false)
    (hlen : p.lexemes.length < n) :
    Scans ((ofFuel n).body item) p.lexemes (p.outcome (some (([t], false), []))) := by
  have hpos := hstarts.length_pos
  obtain ⟨useStrict, huse⟩ := atUseStrict_scans p.lexemes
  have hempty : p.lexemes.isEmpty = false := by
    rw [List.isEmpty_eq_false_iff]
    exact List.ne_nil_of_length_pos hpos
  have hend := Scans.atEnd p.lexemes
  rw [hempty] at hend
  have hstrict : Scans (withReader (fun c => { c with strict := false }) item) p.lexemes
      (p.outcome (some (t, []))) := fun _ _ hc hs => hitem ⟨rfl, hc.noIn⟩ hs
  match n, hlen with
  | n + 2, _ =>
    refine .bind (.strict _) (.bind_outcome (a := .again ⟨[t], false, false⟩) (m := []) ?_ ?_)
    · refine .bind hend (.bind (.atKind_false (hstarts.ne (by decide))) (.bind huse ?_))
      refine .bind_outcome hstrict ?_
      rw [hdirective]
      exact .pure _ _
    · refine .bind (.bind (.atEnd _) (.bind (.atKind_false (by simp)) (.pure _ _))) (.pure _ _)
  | 1, hlen => omega

theorem script_scans (hp : Fits Level.assignment p e) (hlabel : p.IsUnlabeled) (he : e.Plain)
    (hlen : p.lexemes.length < n) :
    Scans (ofFuel n).script p.lexemes (p.outcome (some (⟨[.expression e], false, []⟩, []))) := by
  have hdirective : isDirective (.expression e) = false := by cases he <;> rfl
  have hitem := statementListItem_scans hp hlabel hlen
  refine .bind_outcome (body_scans hp.starts hitem hdirective hlen) ?_
  have hnames : Scans varNames [] (some ([], [])) := by
    intro c s _ hs
    rw [← hs.declared]
    exact .value hs
  exact .bind (.atEnd _) (.bind (.pure _ _) (.bind hnames (.pure _ _)))

end Grammar

/-! ### Parsing printed text -/

theorem Lexeme.IsSpelled.ne_lineTerminator {x : Lexeme} (hx : x.IsSpelled) :
    x.1 ≠ .lineTerminator := by
  cases hx with
  | @word text _ =>
    rcases Grammar.wordKind_cases text with h | h | h | ⟨k, h⟩ <;> simp [Lexeme.word, h]
  | punct _ => simp [Lexeme.punct]

/-- The tokens of printed text show its lexemes. -/
theorem ofString_text {p : Printout} (hp : p.IsSpelled) : ∃ tokens,
    TokenStream.ofString p.text = .ok tokens ∧ tokens.remaining = p.lexemes.length ∧
      ParseState.Shows ⟨tokens, [], [], []⟩ p.lexemes := by
  obtain ⟨found, finish, hscan, hfound⟩ :=
    Lexed.scan_spaced (fun x hx => (hp x hx).isRead) (c := Cursor.ofString p.text)
      (toList_intercalate _) [] (Nat.lt_succ_self _)
  have hsig : ∀ t ∈ found, t.isSignificant = true := by
    intro t ht
    have hmem : (t.kind, t.text) ∈ p.lexemes := hfound ▸ List.mem_map_of_mem ht
    exact decide_eq_true (hp _ hmem).ne_lineTerminator
  refine ⟨⟨found, finish, 0, found.length⟩, ?_, ?_, hfound, hsig, rfl⟩
  · rw [TokenStream.ofString, Lexed.ofString, hscan]
    rfl
  · rw [TokenStream.remaining, List.countP_eq_length.2 hsig, ← hfound, List.length_map]

/-- What parsing the text of a printed expression gives. -/
theorem parse_text {e : Expr} (he : e.Plain) (mistakes : List Nat → Bool) :
    if (e.print mistakes).lacking then
      ∃ error, Program.parse (e.print mistakes).text = .error error ∧
        error.kind = .unaryBeforeExponentiation
    else Program.parse (e.print mistakes).text = .ok ⟨[.expression e], false, []⟩ := by
  obtain ⟨tokens, htokens, hremaining, hshows⟩ := ofString_text (isSpelled_print he mistakes)
  have hfits := (Grammar.placed he mistakes).atAssignment
  rw [Printout.fit, if_neg (Nat.not_lt_of_le (Grammar.level_pos e).1)] at hfits
  have hscans := Grammar.script_scans (n := tokens.remaining + 1) hfits
    (isUnlabeled_print he mistakes) he (by omega)
  have houtcome := hscans (c := Program.surroundings (e.print mistakes).text) ⟨rfl, rfl⟩ hshows
  rw [Program.parse, htokens]
  dsimp only
  rw [Program.ofTokens, Program.read]
  revert houtcome
  generalize (Grammar.ofFuel (tokens.remaining + 1)).script
    (Program.surroundings (e.print mistakes).text) ⟨tokens, [], [], []⟩ = result
  unfold outcome
  split
  · rintro ⟨⟩
    exact ⟨_, rfl, rfl⟩
  · rintro ⟨⟩
    rfl

@[simp] theorem lacking_fit (p : Printout) (level needed : Nat) :
    (p.fit level needed).lacking = p.lacking := by
  unfold Printout.fit
  split
  · simp [Printout.enclosed, one]
  · rfl

@[simp] theorem lacking_base (p : Printout) (level : Nat) :
    (p.base level false).lacking = p.lacking := by
  rw [Printout.base, if_neg (by simp), lacking_fit]

@[simp] theorem lacking_one (x : Lexeme) : (one x).lacking = false := rfl

@[simp] theorem within_false (i : Nat) : within (fun _ => false) i = fun _ => false := rfl

theorem lacking_printAll {args : List Expr} (i : Nat)
    (h : ∀ e ∈ args, (e.print fun _ => false).lacking = false) :
    (Expr.printAll (fun _ => false) i args).lacking = false := by
  induction args generalizing i with
  | nil => rfl
  | cons e args ih =>
    have he := h e (by simp)
    cases args with
    | nil => simp [Expr.printAll, he]
    | cons e' args => simp [Expr.printAll, he, ih (i + 1) fun e he => h e (by simp [he])]

/-- Without mistakes, no parentheses are left out. -/
theorem lacking_print {e : Expr} (he : e.Plain) : (e.print fun _ => false).lacking = false := by
  induction he with
  | identifier _ _ => rfl
  | update op first _ _ ih => cases first <;> simp [Expr.print, ih]
  | binary op _ _ ihl ihr => cases op <;> simp [Expr.print, ihl, ihr]
  | call _ _ ihc iha => simp [Expr.print, ihc, lacking_printAll 1 iha]
  | construct _ _ ihc iha => simp [Expr.print, ihc, lacking_printAll 1 iha]
  | dot _ _ ih => simp [Expr.print, MemberKey.print, ih]
  | computed _ _ iho ihk => simp [Expr.print, MemberKey.print, iho, ihk]
  | _ => simp_all [Expr.print]

/-- Parsing undoes printing: the text of an expression of operators, with parentheses only where an
operand is looser than its place needs, is the script of that one expression. Without the
parentheses around an operator with one operand before a power, the text is rejected for that. -/
theorem Program.parse_print {e : Expr} (he : e.Plain) :
    (∃ p, parse (e.print fun _ => false).text = .ok p ∧ p.body = [.expression e]) ∧
      ∀ mistakes, (e.print mistakes).lacking = true →
        ∃ error, parse (e.print mistakes).text = .error error ∧
          error.kind = .unaryBeforeExponentiation := by
  refine ⟨⟨⟨[.expression e], false, []⟩, ?_, rfl⟩, fun mistakes hlacking => ?_⟩
  · have hparse := parse_text he fun _ => false
    rwa [lacking_print he, if_neg Bool.false_ne_true] at hparse
  · have hparse := parse_text he mistakes
    rwa [hlacking, if_pos rfl] at hparse

/-- A power of a negation, with a `new` expression whose callee has a call in it. -/
theorem Program.parse_print_power :
    let e := Expr.binary .exp (.unary .minus (.identifier "a"))
      (.construct (.member (.call (.identifier "b") []) (.dot "new")) [.identifier "c"])
    let mistakes : List Nat → Bool := fun path => path.isEmpty
    e.Plain ∧ (e.print fun _ => false).text = "( - a ) ** new ( b ( ) . new ) ( c )" ∧
      (e.print mistakes).text = "- a ** new ( b ( ) . new ) ( c )" ∧
      (e.print mistakes).lacking = true ∧
      (∃ p, parse (e.print fun _ => false).text = .ok p ∧ p.body = [.expression e]) ∧
      ∃ error, parse (e.print mistakes).text = .error error ∧
        error.kind = .unaryBeforeExponentiation := by
  intro e mistakes
  have hidentifier {name : String} (h : isWord name = true ∧ Scan.wordKind name = .identifier) :
      (Expr.identifier name).Plain := .identifier h.1 h.2
  have he : e.Plain :=
    .binary _ (.unary _ (hidentifier (by decide +kernel))) (.construct
      (.dot (.call (hidentifier (by decide +kernel)) (by simp)) (by decide +kernel))
      (by simpa using hidentifier (by decide +kernel)))
  obtain ⟨hparse, hmistakes⟩ := parse_print he
  exact ⟨he, by decide +kernel, by decide +kernel, by decide +kernel, hparse,
    hmistakes mistakes (by decide +kernel)⟩

end Ecma
