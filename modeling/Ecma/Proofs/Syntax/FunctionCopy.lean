import Ecma.Proofs.Syntax.FunctionExpression

/-! The source text of a function, read by itself. In parentheses, and behind a directive if the code
around the function is strict, it is read as the same function expression: its segments are those of
the text that it is taken from, wherever they stand. -/

namespace Ecma

open Parse

/-! ### The text of a function -/

/-- The segments of a function expression, from its keyword to the brace that ends its body. -/
def functionSegments (word : List Char) (inner : List Segment) : List Segment :=
  .token (.keyword .functionKw) word :: (inner ++ [.mark .rightBrace])

namespace Segment

variable {c : Cursor} {word tail : List Char} {segments inner : List Segment}

/-- The tokens of a function start with its keyword and end with the brace where its text ends. -/
theorem exists_of_functionSegments
    (hc : c.rest = (functionSegments word inner).flatMap text ++ tail) :
    ∃ u tokens closing, tokensFrom c (functionSegments word inner) = u :: (tokens ++ [closing]) ∧
      u.isSignificant = true ∧ u.location = c.location ∧
      closing.kind = .punctuator .rightBrace ∧ closing.endOffset =
        c.location.offset + byteCount ((functionSegments word inner).flatMap text) := by
  let d := c.advanceBy word.length
  let closing : Token := ⟨.punctuator .rightBrace, String.ofList Punctuator.rightBrace.text.toList,
    (d.advanceBy (inner.flatMap text).length).location⟩
  refine ⟨⟨.keyword .functionKw, String.ofList word, c.location⟩, tokensFrom d inner, closing,
    congrArg (_ :: ·) (tokensFrom_append ..), rfl, rfl, rfl, ?_⟩
  have htext : (functionSegments word inner).flatMap text =
      word ++ inner.flatMap text ++ Punctuator.rightBrace.text.toList := by
    simp [functionSegments, text, mark]
  rw [htext, List.append_assoc (word ++ _)] at hc
  have hplace := advanceBy_byteCount hc
  rw [List.length_append, Cursor.advanceBy_add] at hplace
  rw [Token.endOffset, utf8ByteSize_ofList, ← byteCount, hplace, htext,
    byteCount_append (word ++ _), Nat.add_assoc]

/-- A keyword and a brace among the tokens of segments are the ends of the segments of a function. -/
theorem exists_functionSegments {before within after : List Token} {u closing : Token}
    (hruns : Scan.Runs c segments)
    (h : tokensFrom c segments = before ++ u :: (within ++ closing :: after))
    (hu : u.kind = .keyword .functionKw) (hclosing : closing.kind = .punctuator .rightBrace) :
    ∃ front word inner back, segments = front ++ (functionSegments word inner ++ back) ∧
      tokensFrom (c.advanceBy (front.flatMap text).length) (functionSegments word inner) =
        u :: (within ++ [closing]) := by
  have hopens : u.isSignificant = true := by rw [Token.isSignificant, hu]; rfl
  have hcloses : closing.isSignificant = true := by rw [Token.isSignificant, hclosing]; rfl
  obtain ⟨front, word, behind, rfl, -, hown⟩ := exists_of_tokensFrom h hopens
  obtain ⟨hfirst, hbehind⟩ := List.cons.inj hown
  obtain ⟨inner, shut, back, rfl, hinner, hlast⟩ := exists_of_tokensFrom hbehind hcloses
  have hmark : token closing.kind shut = mark .rightBrace := by
    have hown : Scan.Runs _ ((token u.kind word :: inner) ++ token closing.kind shut :: back) :=
      hruns.of_append.2
    cases hown.of_append.2 with
    | step _ fits _ _ =>
      cases fits with
      | token hkind _ _ _ =>
        rw [hclosing] at hkind ⊢
        rw [hkind.text_punctuator, mark]
  refine ⟨front, word, inner, back, by rw [hu, hmark]; simp [functionSegments], ?_⟩
  rw [hmark] at hlast
  have hfirst' := (List.cons.inj hlast).1
  rw [functionSegments, ← hu, tokensFrom, tokensFrom_append, hinner]
  exact congrArg₂ (fun t s => t :: (within ++ [s])) hfirst hfirst'

end Segment

/-- A function expression is read from some of the tokens of a source text: those of the segments
behind others. -/
structure FunctionDef.StandsIn (f : FunctionDef) (source : String) (front : List Segment)
    (word : List Char) (inner back : List Segment) (s s' : ParseState) : Prop where
  runs : Scan.Runs (Cursor.ofString source) (front ++ (functionSegments word inner ++ back))
  text : source.toList = (front ++ (functionSegments word inner ++ back)).flatMap Segment.text
  sourceText : f.source.toList = (functionSegments word inner).flatMap Segment.text
  tokens : ∃ u tokens, s.tokens.next? = some (u, tokens) ∧ u :: tokens.rest =
    Segment.tokensFrom (TokenStream.cursorAfter source front) (functionSegments word inner) ++
      s'.tokens.rest

namespace TokenStream

variable {source : String} {front own back : List Segment}
  (h : source.toList = (front ++ (own ++ back)).flatMap Segment.text)
include h

theorem cursorAfter_rest : (cursorAfter source front).rest =
    own.flatMap Segment.text ++ back.flatMap Segment.text := by
  rw [List.flatMap_append, List.flatMap_append] at h
  rw [cursorAfter, Cursor.advanceBy_rest]
  exact (congrArg (List.drop _) h).trans List.drop_left

theorem cursorAfter_offset :
    (cursorAfter source front).location.offset = byteCount (front.flatMap Segment.text) := by
  rw [List.flatMap_append] at h
  exact (Segment.advanceBy_byteCount h).trans (Nat.zero_add _)

end TokenStream

/-- A function expression stands in the text from which it is read. -/
theorem Grammar.exists_standsIn {source : String} {stream : TokenStream} {n : Nat} {c : Surroundings}
    {s s' : ParseState} {f : FunctionDef} (hstream : TokenStream.ofString source = .ok stream)
    (hs : s.tokens.rest <:+ stream.rest) (hc : c.source = source.toList)
    (h : (ofFuel n).functionExpression c s = .ok (.function f, s')) :
    ∃ front word inner back, f.StandsIn source front word inner back s s' := by
  obtain ⟨segments, hruns, hbetween⟩ := TokenStream.runs_ofString hstream
  have hrest : stream.rest = Segment.tokensFrom (Cursor.ofString source) segments := hbetween.rest
  have htext : source.toList = segments.flatMap Segment.text := hbetween.text
  obtain ⟨u, tokens, within, closing, hnext, hu, hwithin, hclosing, hsource⟩ :=
    functionExpression_stretch h
  obtain ⟨-, skipped, hskipped⟩ := TokenStream.exists_of_next? hnext
  obtain ⟨more, hmore⟩ := hs
  have htokens : Segment.tokensFrom (Cursor.ofString source) segments =
      (more ++ skipped) ++ u :: (within ++ closing :: s'.tokens.rest) := by
    rw [← hrest, ← hmore, hskipped, hwithin, List.append_assoc]
  obtain ⟨front, word, inner, back, rfl, hown⟩ :=
    Segment.exists_functionSegments hruns htokens hu hclosing
  refine ⟨front, word, inner, back, hruns, htext, ?_, u, tokens, hnext, ?_⟩
  · -- The first and the last of the tokens are the keyword and the brace.
    obtain ⟨v, tokens', last, hall, -, hstart, -, hstop⟩ :=
      Segment.exists_of_functionSegments (TokenStream.cursorAfter_rest htext)
    obtain ⟨rfl, hsame⟩ := List.cons.inj (hown.symm.trans hall)
    obtain ⟨-, hlast⟩ := List.append_inj' hsame rfl
    cases hlast
    rw [hsource, String.toList_ofList, hc, htext, hstart, hstop,
      TokenStream.cursorAfter_offset htext, List.flatMap_append, List.flatMap_append,
      ← List.append_assoc]
    exact slice_between ..
  · rw [TokenStream.cursorAfter, hown, hwithin, List.cons_append, List.append_assoc]
    rfl

/-! ### A function by itself -/

/-- The text of a script that is a function by itself: in parentheses, and behind a directive if the
code around the function is strict. -/
def FunctionDef.alone (f : FunctionDef) (isStrict : Bool) : String :=
  (if isStrict then "'use strict';" else "") ++ "(" ++ f.source ++ ")"

/-- The segments before the function. -/
def openingSegments : Bool → List Segment
  | true =>
    [.token .stringLiteral ('\'' :: ("use strict".toList ++ ['\''])), .mark .semicolon,
      .mark .leftParen]
  | false => [.mark .leftParen]

theorem FunctionDef.toList_alone (f : FunctionDef) (isStrict : Bool) : (f.alone isStrict).toList =
    (openingSegments isStrict).flatMap Segment.text ++ (f.source.toList ++ [')']) := by
  have hopening : ((if isStrict then "'use strict';" else "") ++ "(").toList =
      (openingSegments isStrict).flatMap Segment.text := by
    cases isStrict <;> rfl
  exact toList_between hopening rfl _

namespace Scan

variable {c d : Cursor} {tail : List Char} {word : List Char} {inner back : List Segment}

/-- The directive and the parenthesis are segments, whatever comes next. -/
theorem runs_opening {isStrict : Bool}
    (hc : c.rest = (openingSegments isStrict).flatMap Segment.text ++ tail) :
    Runs c (openingSegments isStrict) := by
  cases isStrict with
  | false => exact runs_mark rfl hc
  | true =>
    let text := '\'' :: ("use strict".toList ++ ['\''])
    have htext : (openingSegments true).flatMap Segment.text = text ++ [';', '('] := by
      rfl
    rw [htext, List.append_assoc] at hc
    have hrest : (c.advanceBy text.length).rest = [';', '('] ++ tail := by
      rw [Cursor.advanceBy_rest, hc, List.drop_left]
    have hstring : Runs c [.token .stringLiteral text] :=
      runs_string (.inl rfl) (.of_all (by decide)) hc
    have hsemicolon : Runs (c.advanceBy text.length) [.mark .semicolon] := runs_mark rfl hrest
    have hbehind : ((c.advanceBy text.length).advanceBy 1).rest = '(' :: tail := by
      rw [Cursor.advanceBy_rest, hrest]
      rfl
    have hparen : Runs ((c.advanceBy text.length).advanceBy 1) [.mark .leftParen] :=
      runs_mark rfl hbehind
    have hmarks : Runs (c.advanceBy ([Segment.token .stringLiteral text].flatMap Segment.text).length)
        ([.mark .semicolon] ++ [.mark .leftParen]) := by
      rw [List.flatMap_singleton]
      exact hsemicolon.append hparen
    exact hstring.append hmarks

/-- The segments of a function stay where a closing parenthesis comes next. -/
theorem runs_function (h : Runs c (functionSegments word inner ++ back))
    (hc : c.rest = (functionSegments word inner ++ back).flatMap Segment.text) (hexact : d.IsExact)
    (hd : d.rest = (functionSegments word inner).flatMap Segment.text ++ [')']) :
    Runs d (functionSegments word inner ++ [.mark .rightParen]) := by
  rw [List.flatMap_append] at hc
  have hown : Runs d (functionSegments word inner) := by
    refine h.of_append.1.cut_token hexact hc hd ?_ ?_ ?_
    · exact ⟨[], _, _, rfl, rfl, by rintro ch ⟨⟩; rfl⟩
    · rintro _ _ _ ⟨⟩
    · intro s hs hline
      rw [List.getLast?_concat] at hs
      cases hs
      cases hline
  have hclose : (d.advanceBy ((functionSegments word inner).flatMap Segment.text).length).rest =
      Punctuator.rightParen.text.toList ++ [] := by
    rw [Cursor.advanceBy_rest, hd, List.drop_left]
    rfl
  exact hown.append (runs_mark rfl hclose)

end Scan

section Alone

variable {f : FunctionDef} {source : String} {front inner back : List Segment} {word : List Char}
  {s s' : ParseState} (h : f.StandsIn source front word inner back s s') (isStrict : Bool)
include h

theorem FunctionDef.StandsIn.rest_alone : (Cursor.ofString (f.alone isStrict)).rest =
    (openingSegments isStrict).flatMap Segment.text ++
      ((functionSegments word inner).flatMap Segment.text ++ [')']) := by
  rw [← h.sourceText]
  exact f.toList_alone isStrict

theorem FunctionDef.StandsIn.rest_behind_opening : ((Cursor.ofString (f.alone isStrict)).advanceBy
    ((openingSegments isStrict).flatMap Segment.text).length).rest =
      (functionSegments word inner).flatMap Segment.text ++ [')'] := by
  rw [Cursor.advanceBy_rest, h.rest_alone isStrict, List.drop_left]

/-- The text of a function by itself runs through its segments. -/
theorem FunctionDef.StandsIn.runs_alone : Scan.Runs (Cursor.ofString (f.alone isStrict))
    (openingSegments isStrict ++ (functionSegments word inner ++ [.mark .rightParen])) := by
  have hbehind := TokenStream.cursorAfter_rest h.text
  rw [← List.flatMap_append] at hbehind
  exact (Scan.runs_opening (h.rest_alone isStrict)).append (Scan.runs_function h.runs.of_append.2
    hbehind ((Cursor.isExact_ofString _).advanceBy _) (h.rest_behind_opening isStrict))

end Alone

/-- The segments of a function where they stand in a source text, with the text around them and the
tokens behind them, and between two other pieces of text. -/
def Excerpt.ofSegments (front own back : List Segment) (rest : List Token)
    (before after : List Char) (rest' : List Token) : Excerpt where
  before := front.flatMap Segment.text
  text := own.flatMap Segment.text
  after := back.flatMap Segment.text
  rest := rest
  before' := before
  after' := after
  rest' := rest'

section Copies

variable {f : FunctionDef} {source : String} {front inner back : List Segment} {word : List Char}
  {s s' t : ParseState} {n m : Nat} {c : Surroundings} {d : Cursor} {before after : List Char}
  {rest : List Token}

/-- The tokens of a function are those of its segments in another text. -/
theorem FunctionDef.StandsIn.sameTokens (h : f.StandsIn source front word inner back s s')
    (hd : d.location.offset = byteCount before)
    (htext : d.rest = (functionSegments word inner).flatMap Segment.text ++ after) :
    List.Forall₂ (Excerpt.ofSegments front (functionSegments word inner) back s'.tokens.rest before
        after rest).Same
      (Segment.tokensFrom (TokenStream.cursorAfter source front) (functionSegments word inner))
      (Segment.tokensFrom d (functionSegments word inner)) := by
  have hbehind := TokenStream.cursorAfter_rest h.text
  have hoffset := TokenStream.cursorAfter_offset h.text
  have hfits := h.runs.of_append.2.of_append.1.tile (back.flatMap Segment.text) hbehind
  exact (Segment.parallels_tokensFrom hfits hbehind htext).imp
    fun _ _ hsame => Excerpt.Same.of_parallels hoffset hd hsame

/-- A function that stands in a source text is read in the same way where its segments stand in
another one. -/
theorem FunctionDef.StandsIn.functionExpression_eq (h : f.StandsIn source front word inner back s s')
    (hread : (Grammar.ofFuel n).functionExpression c s = .ok (.function f, s'))
    (hc : c.source = source.toList) (hd : d.location.offset = byteCount before)
    (htext : d.rest = (functionSegments word inner).flatMap Segment.text ++ after)
    (ht : t.tokens.rest = Segment.tokensFrom d (functionSegments word inner) ++ rest)
    (hreferences : t.references = s.references) (hdeclared : t.declared = s.declared)
    (hlt : t.tokens.remaining ≤ m) :
    ∃ t', (Grammar.ofFuel m).functionExpression
        { c with source := before ++ (functionSegments word inner).flatMap Segment.text ++ after } t =
        .ok (.function f, t') ∧ t'.tokens.rest = rest := by
  let i := Excerpt.ofSegments front (functionSegments word inner) back s'.tokens.rest before after rest
  have hsource : source.toList = i.source := by
    rw [h.text, List.flatMap_append, List.flatMap_append, ← List.append_assoc]
    rfl
  have hside : List.Forall₂ i.Same _ _ := h.sameTokens hd htext
  -- The keyword and the brace stand side by side, with the tokens between them.
  obtain ⟨u, tokens, hnext, htokens⟩ := h.tokens
  obtain ⟨v, list, closing, hlist, hv, -, hcloses, -⟩ :=
    Segment.exists_of_functionSegments (TokenStream.cursorAfter_rest h.text)
  rw [hlist] at htokens hside
  rw [List.cons_append, List.append_assoc] at htokens
  obtain ⟨rfl, hrest⟩ := List.cons.inj htokens
  obtain ⟨u', more, hsame, hmore, hright⟩ := List.forall₂_cons_left_iff.mp hside
  obtain ⟨list', closing', last, rfl, hlist', hclosing', hlast⟩ := exists_of_forall₂_append hmore
  cases hlast
  rw [hright, List.cons_append, List.append_assoc] at ht
  have hnext' := TokenStream.next?_of_rest ht (hsame.isSignificant.trans hv)
  have hjoined : i.Joined { s with tokens } (t.behind u' (list' ++ ([closing'] ++ rest))) := by
    refine ⟨?_, ?_, congrArg _ hreferences, hdeclared⟩
    · change i.Along tokens.rest (list' ++ closing' :: rest)
      rw [hrest]
      exact .of_forall₂ hlist' hclosing' hcloses
    · rw [TokenStream.previousEnd_of_next? hnext]
      exact hsame.stop
  have hremaining := TokenStream.remaining_of_next? hnext'
  exact Grammar.functionExpression_of_copy (i := i) hread rfl (hc.trans hsource) hnext hnext' hsame
    hjoined (by omega)

end Copies

/-! ### Statements -/

namespace Grammar

variable {c : Surroundings} {s t : ParseState} {opening closing directive stop : Token}
  {l : List Token} {f : FunctionDef} {n : Nat}

/-- A function expression in parentheses that nothing follows is a statement. -/
theorem statementListItem_parentheses (hn : 0 < n) (hrest : t.tokens.rest = opening :: l)
    (hopening : opening.kind = .punctuator .leftParen)
    (hread : (ofFuel n).functionExpression { c with noIn := false } (t.behind opening l) =
      .ok (.function f, s)) (hlast : s.tokens.rest = [closing])
    (hclosing : closing.kind = .punctuator .rightParen) :
    ∃ t', (ofFuel (n + 1)).statementListItem c t = .ok (.expression (.function f), t') ∧
      t'.lexemes = [] := by
  have hopens : opening.isSignificant = true := by rw [Token.isSignificant, hopening]; rfl
  have hcloses : closing.isSignificant = true := by rw [Token.isSignificant, hclosing]; rfl
  have hopen := ParseState.next_behind hrest hopens
  have hclose := ParseState.next_behind hlast hcloses
  have hfirst : firstKind? t.lexemes = some (.punctuator .leftParen) :=
    hopen.first.trans (congrArg some hopening)
  have hinside : Stands (t.behind opening l).lexemes s.lexemes := by
    obtain ⟨s₁, -, y, -, -, -, hnext, hy, -⟩ := yields_functionExpression_steps _ s hread
    refine ⟨⟨.keyword .functionKw, by decide, hnext.first.trans (congrArg some hy)⟩, ?_⟩
    intro kind hkind
    rw [hclose.first] at hkind
    exact .inl ((Option.some.inj hkind).symm.trans hclosing)
  have hprimary : (ofFuel (n + 1)).primary c t = .ok (.function f, s.behind closing []) :=
    primary_parentheses hopen hopening hinside (primary_function hread) hn hclose hclosing
  have hend : (s.behind closing []).lexemes = [] := rfl
  have houtside : Stands t.lexemes (s.behind closing []).lexemes :=
    ⟨⟨.punctuator .leftParen, by decide, hfirst⟩, by rw [hend]; rintro kind ⟨⟩⟩
  have hexpression := houtside.expression_eq hprimary (Nat.succ_pos n)
  exact ⟨_, statementListItem_expression hfirst (.inr rfl) hexpression (semicolon_end hend), hend⟩

/-- The directive that makes code strict is a statement of a string. -/
theorem statementListItem_directive {g : Grammar} (hfuel : 0 < g.fuel)
    (hrest : t.tokens.rest = directive :: stop :: l) (hdirective : directive.kind = .stringLiteral)
    (hstop : stop.kind = .punctuator .semicolon) {units : Units}
    (hvalue : StringLiteral.value c.strict directive.text = .ok units) :
    g.statementListItem c t = .ok (.expression (.literal (.string units)),
      (t.behind directive (stop :: l)).behind stop l) := by
  have hstring : directive.isSignificant = true := by rw [Token.isSignificant, hdirective]; rfl
  have hstops : stop.isSignificant = true := by rw [Token.isSignificant, hstop]; rfl
  have hnext := ParseState.next_behind hrest hstring
  have hbehind := ParseState.next_behind (s := t.behind directive (stop :: l)) rfl hstops
  have hfirst : firstKind? t.lexemes = some .stringLiteral :=
    hnext.first.trans (congrArg some hdirective)
  have hstands : Stands t.lexemes (t.behind directive (stop :: l)).lexemes := by
    refine ⟨⟨.stringLiteral, by decide, hfirst⟩, fun kind hkind => ?_⟩
    rw [hbehind.first] at hkind
    exact .inr ((Option.some.inj hkind).symm.trans hstop)
  have hexpression := hstands.expression_eq (primary_string hnext hdirective hvalue) hfuel
  exact statementListItem_expression hfirst (.inl rfl) hexpression (semicolon_next hbehind hstop)

/-! ### Scripts -/

/-- A turn of the loop that reads a body. -/
def prologueTurn (item : Parse Stmt) (p : Prologue) :
    Parse (Turn Prologue (List Stmt × Bool)) := do
  if (← atEnd) || (← atPunct .rightBrace) then return .done (p.statements.reverse, p.strict)
  let useStrict ← atUseStrict
  let s ← withReader (fun c => { c with strict := p.strict }) item
  let leading := p.leading && isDirective s
  return .again ⟨s :: p.statements, leading, p.strict || (leading && useStrict)⟩

variable {s' : ParseState} {item : Parse Stmt} {p : Prologue} {x : Stmt}

theorem prologueTurn_end (h : s.lexemes = []) :
    prologueTurn item p c s = .ok (.done (p.statements.reverse, p.strict), s) := by
  have hend : atEnd c s = .ok (true, s) :=
    congrArg (fun b => Except.ok (b, s)) (by rw [s.isAtEnd_lexemes, h]; rfl)
  have hbrace : atPunct .rightBrace c s = .ok (_, s) := rfl
  exact (bind_of_ok hend).trans <| (bind_of_ok hbrace).trans rfl

theorem prologueTurn_item {u : Token} (hu : s.tokens.peek? = some u)
    (hkind : u.kind ≠ .punctuator .rightBrace)
    (hitem : item { c with strict := p.strict } s = .ok (x, s')) :
    prologueTurn item p c s = .ok (.again ⟨x :: p.statements, p.leading && isDirective x,
      p.strict || (p.leading && isDirective x && isUseStrict u)⟩, s') := by
  have hend : atEnd c s = .ok (false, s) :=
    congrArg (fun b => Except.ok (b, s)) (by rw [TokenStream.isAtEnd, hu]; rfl)
  have hbrace : atPunct .rightBrace c s = .ok (false, s) :=
    atKind_eq_false (by rw [← s.peekKind?_lexemes, TokenStream.peekKind?, hu]; simpa using hkind)
  have hdirective : atUseStrict c s = .ok (isUseStrict u, s) := by
    unfold atUseStrict
    rw [peek?_bind, hu]
    rfl
  have hread : (withReader (fun c => { c with strict := p.strict }) item : Parse Stmt) c s =
      .ok (x, s') := hitem
  exact (bind_of_ok hend).trans <| (bind_of_ok hbrace).trans <| (bind_of_ok hdirective).trans <|
    (bind_of_ok hread).trans rfl

/-- The directive makes the code behind it strict. -/
theorem prologueTurn_directive {g : Grammar} (hfuel : 0 < g.fuel)
    (hrest : t.tokens.rest = directive :: stop :: l) (hdirective : directive.kind = .stringLiteral)
    (htext : directive.text = "'use strict'") (hstop : stop.kind = .punctuator .semicolon) :
    ∃ units, prologueTurn g.statementListItem ⟨[], true, false⟩ c t =
      .ok (.again ⟨[.expression (.literal (.string units))], true, true⟩,
        (t.behind directive (stop :: l)).behind stop l) := by
  obtain ⟨units, hvalue⟩ : ∃ units, StringLiteral.value false "'use strict'" = .ok units :=
    ⟨_, rfl⟩
  have hstring : directive.isSignificant = true := by rw [Token.isSignificant, hdirective]; rfl
  have huse : isUseStrict directive = true := by
    rw [isUseStrict, hdirective, htext]
    rfl
  have hitem := statementListItem_directive (c := { c with strict := false }) hfuel hrest hdirective
    hstop (htext ▸ hvalue)
  have hturn := prologueTurn_item (p := ⟨[], true, false⟩) (TokenStream.peek?_of_rest hrest hstring)
    (by rw [hdirective]; decide) hitem
  rw [huse] at hturn
  exact ⟨units, hturn⟩

/-- A function expression in parentheses is the last statement of a body. -/
theorem prologue_parentheses {m : Nat} (hn : 0 < n) (hm : 0 < m)
    (hrest : t.tokens.rest = opening :: l) (hopening : opening.kind = .punctuator .leftParen)
    (hread : (ofFuel n).functionExpression { c with noIn := false, strict := p.strict }
      (t.behind opening l) = .ok (.function f, s)) (hlast : s.tokens.rest = [closing])
    (hclosing : closing.kind = .punctuator .rightParen) :
    ∃ t', loop (prologueTurn (ofFuel (n + 1)).statementListItem) (m + 1) p c t =
      .ok ((p.statements.reverse ++ [.expression (.function f)], p.strict), t') ∧
        t'.lexemes = [] := by
  obtain ⟨t', hitem, hend⟩ := statementListItem_parentheses (c := { c with strict := p.strict }) hn
    hrest hopening hread hlast hclosing
  have hopens : opening.isSignificant = true := by rw [Token.isSignificant, hopening]; rfl
  have hturn := prologueTurn_item (TokenStream.peek?_of_rest hrest hopens)
    (by rw [hopening]; decide) hitem
  rw [show isDirective (.expression (.function f)) = false from rfl, Bool.and_false,
    Bool.false_and, Bool.or_false] at hturn
  have hdone : prologueTurn (ofFuel (n + 1)).statementListItem
      ⟨.expression (.function f) :: p.statements, false, p.strict⟩ c t' =
        .ok (.done (p.statements.reverse ++ [.expression (.function f)], p.strict), t') := by
    rw [prologueTurn_end hend, List.reverse_cons]
  exact ⟨t', (loop_of_again hturn).trans (loop_of_done hdone hm), hend⟩

theorem script_of_body {g : Grammar} {statements : List Stmt} {isStrict : Bool}
    (hbody : g.body g.statementListItem c s = .ok ((statements, isStrict), s'))
    (hend : s'.lexemes = []) (hnames : clash? true (Stmt.varNamesOf statements) statements = none) :
    g.script c s = .ok (⟨statements, isStrict, s'.declared⟩, s') := by
  have hatEnd : atEnd c s' = .ok (true, s') :=
    congrArg (fun b => Except.ok (b, s')) (by rw [s'.isAtEnd_lexemes, hend]; rfl)
  have hdeclared : checkDeclarations true (Stmt.varNamesOf statements) statements c s' =
      .ok ((), s') := by
    unfold checkDeclarations
    rw [hnames]
    rfl
  refine (bind_of_ok hbody).trans <| (bind_of_ok hatEnd).trans <| (bind_of_ok hdeclared).trans rfl

end Grammar

theorem Program.parse_of_read {source : String} {tokens : TokenStream} {p : Program}
    {s : ParseState} (htokens : TokenStream.ofString source = .ok tokens)
    (h : read source tokens = .ok (p, s)) : parse source = .ok p := by
  unfold parse ofTokens
  rw [htokens]
  dsimp only
  rw [h]
  rfl

namespace Program

variable {source : String} {tokens : TokenStream} {l : List Token} {f : FunctionDef}
  {directive stop opening closing : Token}

theorem read_parentheses (hrest : tokens.rest = opening :: l)
    (hopening : opening.kind = .punctuator .leftParen)
    (hclosing : closing.kind = .punctuator .rightParen)
    (hread : ∀ t : ParseState, t.tokens.rest = l → t.references = [] → t.declared = [] →
      ∃ t', (Grammar.ofFuel tokens.remaining).functionExpression (surroundings source) t =
        .ok (.function f, t') ∧ t'.tokens.rest = [closing]) :
    ∃ p s, read source tokens = .ok (p, s) ∧
      p.body.getLast? = some (.expression (.function f)) := by
  let start : ParseState := ⟨tokens, [], [], []⟩
  have hopens : opening.isSignificant = true := by rw [Token.isSignificant, hopening]; rfl
  have hremaining : 0 < tokens.remaining := by
    rw [TokenStream.remaining, hrest, List.countP_cons_of_pos hopens]
    omega
  obtain ⟨s, hs, hlast⟩ := hread (start.behind opening l) rfl rfl rfl
  obtain ⟨s', hloop, hend⟩ := Grammar.prologue_parentheses (c := surroundings source)
    (p := ⟨[], true, false⟩) hremaining hremaining hrest hopening hs hlast hclosing
  have hstart : Parse.strict (surroundings source) start = .ok (false, start) := rfl
  have hbody : (Grammar.ofFuel (tokens.remaining + 1)).body _ (surroundings source) start = _ :=
    (bind_of_ok hstart).trans hloop
  exact ⟨_, s', Grammar.script_of_body hbody hend rfl, rfl⟩

theorem read_strict (hrest : tokens.rest = directive :: stop :: opening :: l)
    (hdirective : directive.kind = .stringLiteral) (htext : directive.text = "'use strict'")
    (hstop : stop.kind = .punctuator .semicolon)
    (hopening : opening.kind = .punctuator .leftParen)
    (hclosing : closing.kind = .punctuator .rightParen)
    (hread : ∀ t : ParseState, t.tokens.rest = l → t.references = [] → t.declared = [] →
      ∃ t', (Grammar.ofFuel tokens.remaining).functionExpression
          { surroundings source with strict := true } t = .ok (.function f, t') ∧
        t'.tokens.rest = [closing]) :
    ∃ p s, read source tokens = .ok (p, s) ∧
      p.body.getLast? = some (.expression (.function f)) := by
  let start : ParseState := ⟨tokens, [], [], []⟩
  obtain ⟨m, hm, hpositive⟩ : ∃ m, tokens.remaining = m + 1 ∧ 0 < m := by
    have hbegins : directive.isSignificant = true := by rw [Token.isSignificant, hdirective]; rfl
    have hstops : stop.isSignificant = true := by rw [Token.isSignificant, hstop]; rfl
    rw [TokenStream.remaining, hrest, List.countP_cons_of_pos hbegins,
      List.countP_cons_of_pos hstops]
    exact ⟨_, rfl, Nat.succ_pos _⟩
  obtain ⟨units, hfirst⟩ := Grammar.prologueTurn_directive (c := surroundings source) (t := start)
    (g := Grammar.ofFuel (tokens.remaining + 1)) (by rw [Grammar.fuel_ofFuel_eq]; omega)
    hrest hdirective htext hstop
  let next := (start.behind directive (stop :: opening :: l)).behind stop (opening :: l)
  obtain ⟨s, hs, hlast⟩ := hread (next.behind opening l) rfl rfl rfl
  obtain ⟨s', hloop, hend⟩ := Grammar.prologue_parentheses (c := surroundings source) (t := next)
    (p := ⟨[.expression (.literal (.string units))], true, true⟩) (n := tokens.remaining)
    (by omega) hpositive rfl hopening hs hlast hclosing
  rw [← hm] at hloop
  have hstart : Parse.strict (surroundings source) start = .ok (false, start) := rfl
  have hbody : (Grammar.ofFuel (tokens.remaining + 1)).body _ (surroundings source) start = _ :=
    (bind_of_ok hstart).trans ((loop_of_again hfirst).trans hloop)
  exact ⟨_, s', Grammar.script_of_body hbody hend rfl, rfl⟩

/-- A function by itself is read as a script that ends with it. -/
theorem read_alone {isStrict : Bool} {d : Cursor}
    (hrest : tokens.rest = Segment.tokensFrom d (openingSegments isStrict) ++ l)
    (hclosing : closing.kind = .punctuator .rightParen)
    (hread : ∀ t : ParseState, t.tokens.rest = l → t.references = [] → t.declared = [] →
      ∃ t', (Grammar.ofFuel tokens.remaining).functionExpression
          { surroundings source with strict := isStrict } t = .ok (.function f, t') ∧
        t'.tokens.rest = [closing]) :
    ∃ p s, read source tokens = .ok (p, s) ∧
      p.body.getLast? = some (.expression (.function f)) := by
  cases isStrict with
  | false => exact read_parentheses hrest rfl hclosing hread
  | true => exact read_strict hrest rfl rfl rfl rfl hclosing hread

end Program

/-- A function by itself is a script that ends with it. -/
theorem FunctionDef.StandsIn.parse_alone {f : FunctionDef} {source : String}
    {front inner back : List Segment} {word : List Char} {s s' : ParseState} {n : Nat}
    {isStrict : Bool} (h : f.StandsIn source front word inner back s s')
    (hread : (Grammar.ofFuel n).functionExpression
      { Program.surroundings source with strict := isStrict } s = .ok (.function f, s'))
    (hreferences : s.references = []) (hdeclared : s.declared = []) :
    ∃ p, Program.parse (f.alone isStrict) = .ok p ∧
      p.body.getLast? = some (.expression (.function f)) := by
  let own := functionSegments word inner
  let opening := openingSegments isStrict
  let start := Cursor.ofString (f.alone isStrict)
  let d := start.advanceBy (opening.flatMap Segment.text).length
  have htext : start.rest = opening.flatMap Segment.text ++ (own.flatMap Segment.text ++ [')']) :=
    h.rest_alone isStrict
  have hd : d.rest = own.flatMap Segment.text ++ [')'] := h.rest_behind_opening isStrict
  obtain ⟨finish, htokens⟩ := TokenStream.ofString_runs (h.runs_alone isStrict)
    (htext.trans (by rw [List.flatMap_append, List.flatMap_append]; rfl))
  let tokens := Segment.tokensFrom start (opening ++ (own ++ [.mark .rightParen]))
  let closing : Token := ⟨.punctuator .rightParen, String.ofList Punctuator.rightParen.text.toList,
    (d.advanceBy (own.flatMap Segment.text).length).location⟩
  have hrest : tokens =
      Segment.tokensFrom start opening ++ (Segment.tokensFrom d own ++ [closing]) :=
    (Segment.tokensFrom_append ..).trans (congrArg (_ ++ ·) (Segment.tokensFrom_append ..))
  have hlt : (Segment.tokensFrom d own ++ [closing]).countP Token.isSignificant ≤
      tokens.countP Token.isSignificant := by
    have hcount := congrArg (List.countP Token.isSignificant) hrest
    rw [List.countP_append] at hcount
    exact hcount ▸ Nat.le_add_left ..
  have hsource : opening.flatMap Segment.text ++ own.flatMap Segment.text ++ [')'] =
      (f.alone isStrict).toList :=
    (List.append_assoc ..).trans htext.symm
  have hagain (t : ParseState) (ht : t.tokens.rest = Segment.tokensFrom d own ++ [closing])
      (hnone : t.references = []) (hnames : t.declared = []) :
      ∃ t', (Grammar.ofFuel (tokens.countP Token.isSignificant)).functionExpression
          { Program.surroundings (f.alone isStrict) with strict := isStrict } t =
          .ok (.function f, t') ∧ t'.tokens.rest = [closing] := by
    have hcopy := h.functionExpression_eq (m := tokens.countP Token.isSignificant) hread rfl
      ((Segment.advanceBy_byteCount htext).trans (Nat.zero_add _)) hd ht
      (hnone.trans hreferences.symm) (hnames.trans hdeclared.symm)
      (by rw [TokenStream.remaining, ht]; exact hlt)
    rw [hsource] at hcopy
    exact hcopy
  let stream : TokenStream := ⟨tokens, finish, 0, tokens.length⟩
  have hstream : stream.rest = _ := hrest
  obtain ⟨p, t, hp, hlast⟩ := Program.read_alone hstream rfl hagain
  exact ⟨p, Program.parse_of_read htokens hp, hlast⟩

/-- A function that stands in no class is read from its own source text too: in parentheses, and
behind a directive if the code around it is strict, that text is a script whose last statement is the
same function. -/
theorem Program.function_alone {source : String} {l : Place} (hparse : parse source = .ok l.program)
    {f : FunctionDef} {superProperty superCall : Bool}
    (h : l.Has (.function f superProperty superCall)) (hkind : f.kind = .normal)
    (hclass : ∀ a ∈ l.around, a.classDef? = none) :
    ∃ p, parse (f.alone l.isStrict) = .ok p ∧
      p.body.getLast? = some (.expression (.function f)) := by
  obtain ⟨here, -⟩ := h.each (known_of_parse hparse).2
  obtain ⟨depth, c, s, s', hat, hread⟩ := (here f rfl).isRead hkind
  obtain ⟨stream, -, hstream, -⟩ := read_of_parse hparse
  have houtside : l.mode.inClass = false := by
    rw [Place.mode, List.any_eq_false]
    intro a ha
    rw [hclass a ha]
    decide
  -- What stands around the function does not matter, but whether its code is strict.
  have halike : c.Alike { surroundings source with strict := l.isStrict } :=
    ⟨hat.source.symm, hat.strict.symm, (hat.outside houtside).symm⟩
  have hbare : (Grammar.ofFuel depth).functionExpression
      { surroundings source with strict := l.isStrict } { s with declared := [] } =
      .ok (.function f, { s' with declared := [] }) :=
    Parse.Apart.yields s [] halike _ s' hread
  obtain ⟨front, word, inner, back, hstands⟩ := Grammar.exists_standsIn hstream
    (TokenStream.rest_of_ofString hstream ▸ hat.tokens) rfl hbare
  exact hstands.parse_alone hbare (hat.references houtside) rfl

theorem Program.function_alone_sum : ∃ p f,
    parse "'use strict'; function f(a, b) \x7b return a + b; \x7d" = .ok p ∧ p.strict = true ∧
      (Place.mk p []).Has (.function f false false) ∧ f.kind = .normal ∧
      (∀ a ∈ (Place.mk p []).around, a.classDef? = none) ∧
      f.alone true = "'use strict';(function f(a, b) \x7b return a + b; \x7d)" ∧
      ∃ q, parse (f.alone true) = .ok q ∧ q.body.getLast? = some (.expression (.function f)) := by
  have hfunction : ((parse "'use strict'; function f(a, b) \x7b return a + b; \x7d").toOption.map
      fun p => (p.strict, (Stmt.functionsOf p.body).map fun f => (f.kind, f.alone true))) =
        some (true, [(.normal, "'use strict';(function f(a, b) \x7b return a + b; \x7d)")]) := by
    decide +kernel
  cases hparse : parse "'use strict'; function f(a, b) \x7b return a + b; \x7d" with
  | error e =>
    rw [hparse] at hfunction
    cases hfunction
  | ok p =>
    rw [hparse] at hfunction
    obtain ⟨hstrict, hfunctions⟩ := Prod.mk.inj (Option.some.inj hfunction)
    obtain ⟨f, hf, hfacts⟩ := List.mem_map.mp (hfunctions ▸ List.mem_singleton_self _)
    obtain ⟨hkind, htext⟩ := Prod.mk.inj hfacts
    have hhas := has_function hparse hf
    have hplace : (Place.mk p []).isStrict = true := by
      rw [Place.isStrict, hstrict]
      rfl
    have hagain := function_alone (l := ⟨p, []⟩) hparse hhas hkind (List.forall_mem_nil _)
    rw [hplace] at hagain
    exact ⟨p, f, rfl, hstrict, hhas, hkind, List.forall_mem_nil _, htext, hagain⟩

end Ecma
