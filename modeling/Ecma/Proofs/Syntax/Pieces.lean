import Ecma.Builtin.Function
import Ecma.Proofs.Syntax.Stretch

/-! The pieces of text that `Function` makes a function of, and their tokens. The parameters and the
body are pasted into one text, where each of them is split into tokens as if it stood for itself if
the parameters neither open a comment or a string that goes on behind them, nor close the parenthesis
in front of them. -/

namespace Ecma

/-- The parameters of a dynamic function, in their parentheses. -/
def parameterText (params : List String) : String :=
  "(" ++ ",".intercalate params ++ "\n)"

/-- The body of a dynamic function, in its braces. -/
def bodyText (body : String) : String :=
  "\x7b\n" ++ body ++ "\n\x7d"

/-- Behind the opening parenthesis the parameters are tokens of their own, none of which closes it. -/
def StaysOpen (params : List String) : Prop :=
  (Lexed.ofString ("(" ++ ",".intercalate params ++ "\n")).error = none ∧
    ∀ t ∈ (Lexed.ofString ("(" ++ ",".intercalate params ++ "\n")).tokens,
      t.kind ≠ .punctuator .rightParen

instance (params : List String) : Decidable (StaysOpen params) :=
  inferInstanceAs (Decidable (_ ∧ _))

/-! ### Characters of the pieces -/

/-- The characters of a text between two others. -/
theorem toList_between {first last : String} {before after : List Char}
    (hfirst : first.toList = before) (hlast : last.toList = after) (s : String) :
    (first ++ s ++ last).toList = before ++ (s.toList ++ after) := by
  rw [String.toList_append, String.toList_append, hfirst, hlast, List.append_assoc]

theorem toList_parameterText (params : List String) : (parameterText params).toList =
    '(' :: ((",".intercalate params).toList ++ ['\n', ')']) :=
  toList_between (show "(".toList = ['('] from rfl) rfl _

theorem toList_bodyText (body : String) : (bodyText body).toList =
    '\x7b' :: '\n' :: (body.toList ++ ['\n', '\x7d']) :=
  toList_between (show "\x7b\n".toList = ['\x7b', '\n'] from rfl) rfl _

theorem toList_dynamicSource (params : List String) (body : String) :
    (dynamicSource params body).toList = "function anonymous".toList ++
      ((parameterText params).toList ++ ' ' :: (bodyText body).toList) := by
  have hfirst : "function anonymous(".toList = "function anonymous".toList ++ ['('] :=
    rfl
  have hmiddle : "\n) \x7b\n".toList = ['\n', ')', ' ', '\x7b', '\n'] := rfl
  have hlast : "\n\x7d".toList = ['\n', '\x7d'] := rfl
  have hall := toList_between (toList_between hfirst hmiddle (",".intercalate params)) hlast body
  rw [toList_parameterText, toList_bodyText]
  refine hall.trans ?_
  generalize "function anonymous".toList = head
  simp only [List.append_assoc, List.cons_append, List.nil_append]

/-! ### Segments of the pieces -/

/-- The segment of a punctuator. -/
def Segment.mark (p : Punctuator) : Segment :=
  .token (.punctuator p) p.text.toList

namespace Scan

variable {c d : Cursor} {segments : List Segment} {tail : List Char}

/-- Segments up to a line break do not end with a comment that goes up to the end of its line. -/
theorem Runs.last_not_line (h : Runs c segments) {text : List Char}
    (htext : segments.flatMap Segment.text = text ++ ['\n']) :
    ∀ s ∈ segments.getLast?, s.isLine = false := by
  intro s hs
  obtain ⟨front, rfl⟩ := List.getLast?_eq_some_iff.mp hs
  rw [List.flatMap_append, List.flatMap_singleton] at htext
  cases h.of_append.2 with
  | step _ fits _ _ =>
    have hlast : s.text.getLast? = some '\n' := by
      have := congrArg List.getLast? htext
      rwa [List.getLast?_append_of_ne_nil _ fits.text_ne_nil, List.getLast?_concat] at this
    cases fits with
    | @lineComment body hall | @hashbang body _ hall =>
      cases body with
      | nil => cases hlast
      | cons ch body =>
        rw [Segment.text, List.getLast?_cons_cons, List.getLast?_cons_cons] at hlast
        exact absurd (hall '\n' (List.mem_of_getLast? hlast)) (by decide)
    | _ => rfl

/-- What a scan passes between an opening parenthesis and the end of a text, the last character of
which is a line break, it passes wherever the text stands before a closing parenthesis. -/
theorem exists_runs_open (hexact : c.IsExact) {text : List Char}
    (hc : c.rest = '(' :: (text ++ ['\n'])) {tokens : List Token} {fuel : Nat}
    (hfuel : c.rest.length < fuel) (herror : (Lexed.scan c tokens fuel).error = none) :
    ∃ segments, segments.flatMap Segment.text = text ++ ['\n'] ∧
      Runs c (.mark .leftParen :: segments) ∧ ∀ {d : Cursor} {tail : List Char}, d.IsExact →
        d.rest = '(' :: (text ++ '\n' :: ')' :: tail) →
          Runs d (.mark .leftParen :: (segments ++ [.mark .rightParen])) := by
  have hleft : Runs c [.mark .leftParen] := runs_mark rfl hc
  have hrest : c.rest = [Segment.mark .leftParen].flatMap Segment.text ++ (text ++ ['\n']) := hc
  obtain ⟨segments, htext, hruns⟩ := Lexed.runs_behind hleft hexact hrest hfuel herror
  refine ⟨segments, htext.symm, hruns, fun {d tail} hd htail => ?_⟩
  obtain ⟨-, hsegments⟩ : Runs c [.mark .leftParen] ∧ Runs (c.advanceBy 1) segments :=
    Runs.of_append hruns
  have hleft' : Runs d [.mark .leftParen] := runs_mark rfl htail
  have hcut : Runs (d.advanceBy 1) segments := by
    have hbehind : (c.advanceBy 1).rest = segments.flatMap Segment.text ++ [] := by
      rw [Cursor.advanceBy_rest, hc, ← htext, List.append_nil]
      rfl
    have hbehind' : (d.advanceBy 1).rest = segments.flatMap Segment.text ++ ')' :: tail := by
      rw [Cursor.advanceBy_rest, htail, ← htext]
      simp
    refine hsegments.cut (hd.advanceBy _) hbehind hbehind' ?_ ?_ ?_ ?_
    · exact ⟨[], [], _, rfl, rfl, by rintro ch ⟨⟩; rfl⟩
    · intro _ _ hbegins
      simp at hbegins
    · intro s hs hline
      rw [hsegments.last_not_line htext.symm s hs] at hline
      cases hline
    · intro hbefore
      rw [Cursor.advanceBy_before, hc] at hbefore
      cases (List.append_eq_nil_iff.mp hbefore).1
  have hright : Runs ((d.advanceBy 1).advanceBy (segments.flatMap Segment.text).length)
      [.mark .rightParen] := by
    have hclose : ((d.advanceBy 1).advanceBy (segments.flatMap Segment.text).length).rest =
        Punctuator.rightParen.text.toList ++ tail := by
      rw [Cursor.advanceBy_rest, Cursor.advanceBy_rest, htail, ← htext]
      simp
      rfl
    exact runs_mark rfl hclose
  exact hleft'.append (hcut.append hright)

/-- The segments before the parameters. -/
def header : List Segment :=
  [.token (.keyword .functionKw) "function".toList, .space [' '],
    .token .identifier "anonymous".toList]

theorem text_header : header.flatMap Segment.text = "function anonymous".toList :=
  rfl

theorem runs_header (hc : c.rest = "function anonymous".toList ++ '(' :: tail) :
    Runs c header := by
  obtain ⟨before, rest, location⟩ := c
  obtain rfl : rest = _ := hc
  let c : Cursor := ⟨before, "function anonymous".toList ++ '(' :: tail, location⟩
  have hc : c.rest = 'f' :: "unction".toList ++ ' ' :: ("anonymous".toList ++ '(' :: tail) := rfl
  have hc₁ : (c.advanceBy 8).rest = ' ' :: ("anonymous".toList ++ '(' :: tail) := rfl
  have hc₂ : ((c.advanceBy 8).advanceBy 1).rest = 'a' :: "nonymous".toList ++ '(' :: tail := rfl
  have hfunction : Runs c [.token (.keyword .functionKw) "function".toList] :=
    runs_word hc (by decide) (by decide) rfl
  have hspace := runs_space hc₁ (by rintro ch ⟨⟩; decide)
  have hanonymous := runs_word hc₂ (by decide) (by decide) rfl
  exact hfunction.append (hspace.append hanonymous)

end Scan

/-! ### Lexemes of segments -/

namespace Segment

/-- The lexemes of segments, wherever they stand. -/
def lexemes (segments : List Segment) : List Lexeme :=
  ((tokensFrom (Cursor.ofString "") segments).filter Token.isSignificant).map Token.lexeme

theorem lexemes_eq (c : Cursor) (segments : List Segment) :
    ((tokensFrom c segments).filter Token.isSignificant).map Token.lexeme = lexemes segments := by
  have hkind : Token.isSignificant =
      (fun x : Lexeme => decide (x.1 ≠ .lineTerminator)) ∘ Token.lexeme := rfl
  rw [lexemes, hkind, ← List.filter_map, ← List.filter_map, map_tokensFrom segments c]

theorem lexemes_append (front more : List Segment) :
    lexemes (front ++ more) = lexemes front ++ lexemes more := by
  rw [lexemes, tokensFrom_append, List.filter_append, List.map_append, lexemes_eq, lexemes_eq]

theorem lexemes_mark (p : Punctuator) (more : List Segment) :
    lexemes (.mark p :: more) = (.punctuator p, p.text) :: lexemes more := by
  have hmark : lexemes [.mark p] = [(.punctuator p, p.text)] := by
    simp [lexemes, tokensFrom, mark, token?, Token.isSignificant, Token.lexeme]
  rw [← List.singleton_append, lexemes_append, hmark]
  rfl

/-- A text that runs through segments has their lexemes. -/
theorem exists_stream {source : String} {segments : List Segment}
    (h : Scan.Runs (Cursor.ofString source) segments)
    (htext : source.toList = segments.flatMap text) : ∃ tokens,
      TokenStream.ofString source = .ok tokens ∧ tokens.previousEnd = 0 ∧
        tokens.rest = tokensFrom (Cursor.ofString source) segments ∧
        tokens.significant.map Token.lexeme = lexemes segments := by
  obtain ⟨finish, htokens⟩ := TokenStream.ofString_runs h htext
  exact ⟨_, htokens, rfl, rfl, lexemes_eq _ _⟩

end Segment

theorem TokenText.text_punctuator {p : Punctuator} {text : List Char}
    (h : TokenText (.punctuator p) text) : text = p.text.toList := by
  have word (w : String) : Scan.wordKind w ≠ .punctuator p := by
    unfold Scan.wordKind
    split_ifs
    · simp
    · simp
    · split <;> simp
  have suffix {kind : TokenKind} {suffix : List Char} (h : SuffixText kind suffix) :
      kind ≠ .punctuator p := by
    cases h <;> simp
  generalize hkind : TokenKind.punctuator p = kind at h
  cases h with
  | word => exact absurd hkind.symm (word _)
  | privateName | string | lineBreak => cases hkind
  | punctuator => cases hkind; rfl
  | number _ h =>
    cases h with
    | marked _ _ h => exact absurd hkind.symm (suffix h)
    | unmarked _ _ h =>
      cases h with
      | octal => cases hkind
      | decimal _ _ _ h => exact absurd hkind.symm (suffix h)

namespace Scan

variable {c : Cursor} {segments : List Segment}

/-- The last two elements of a list are those of a list at its end. -/
theorem mem_of_append_pair {α : Type} {l m k : List α} {a b : α} (h : l ++ m = k ++ [a, b])
    (hm : 2 ≤ m.length) : a ∈ m := by
  rcases List.append_eq_append_iff.mp h with ⟨more, -, rfl⟩ | ⟨more, -, hmore⟩
  · simp
  · have hlength := congrArg List.length hmore
    rw [List.length_append, List.length_cons, List.length_singleton] at hlength
    obtain rfl : more = [] := List.length_eq_zero_iff.mp (by omega)
    rw [← show [a, b] = m from hmore]
    exact List.mem_cons_self

/-- The last segment of a text that ends with a line break and a mark is the mark, if it is the last
token. -/
theorem Runs.exists_last_mark (h : Runs c segments)
    {text : List Char} (htext : segments.flatMap Segment.text = text ++ ['\n', ')'])
    {l : List Lexeme} {x : Lexeme} (hlexemes : Segment.lexemes segments = l ++ [x])
    (hx : x.1 = .punctuator .rightParen) : ∃ front, segments = front ++ [.mark .rightParen] := by
  cases segments using List.reverseRec with
  | nil => simp at htext
  | append_singleton front s =>
  refine ⟨front, ?_⟩
  rw [List.flatMap_append, List.flatMap_singleton] at htext
  cases h.of_append.2 with
  | step _ fits _ _ =>
    have hlast : s.text.getLast? = some ')' := by
      have := congrArg List.getLast? htext
      rw [List.getLast?_append_of_ne_nil _ fits.text_ne_nil] at this
      simpa using this
    cases fits with
    | space _ hall _ => exact absurd (hall ')' (List.mem_of_getLast? hlast)) (by decide)
    | lineComment hall _ | hashbang _ hall _ =>
      have hmem := mem_of_append_pair htext (by simp [Segment.text])
      simp only [Segment.text, List.mem_cons, Char.reduceEq, false_or] at hmem
      exact absurd (hall '\n' hmem) (by decide)
    | @blockComment body _ =>
      have hend : (Segment.blockComment body).text = ('/' :: '*' :: (body ++ ['*'])) ++ ['/'] := by
        simp [Segment.text]
      rw [hend, List.getLast?_concat] at hlast
      cases hlast
    | @token kind word htoken _ _ _ =>
      by_cases hkind : kind = .lineTerminator
      · subst hkind
        rcases htoken.isLineBreak with rfl | ⟨ch, rfl, hch⟩
        · cases hlast
        · cases hlast
          cases hch
      · have hword : Segment.lexemes [.token kind word] = [(kind, String.ofList word)] := by
          simp [Segment.lexemes, Segment.tokensFrom, Segment.token?, Token.isSignificant, hkind,
            Token.lexeme]
        rw [Segment.lexemes_append, hword] at hlexemes
        obtain rfl : (kind, String.ofList word) = x :=
          List.singleton_inj.mp (List.append_inj_right' hlexemes rfl)
        obtain rfl : kind = _ := hx
        rw [htoken.text_punctuator]
        rfl

end Scan

/-! ### The pieces in the whole text -/

/-- The segments of the parameters of a dynamic function, in their parentheses. -/
def parameterSegments (list : List Segment) : List Segment :=
  .mark .leftParen :: (list ++ [.mark .rightParen])

/-- The segments of the body of a dynamic function, in its braces. -/
def bodySegments (rest : List Segment) : List Segment :=
  .mark .leftBrace :: rest

/-- The pieces of a dynamic function are segments of their own, and they are the same ones in the whole
text. -/
structure PieceSegments (params : List String) (body : String) (list rest : List Segment) : Prop where
  parameters : Scan.Runs (Cursor.ofString (parameterText params)) (parameterSegments list)
  block : Scan.Runs (Cursor.ofString (bodyText body)) (bodySegments rest)
  whole : Scan.Runs (Cursor.ofString (dynamicSource params body))
    (Scan.header ++ (parameterSegments list ++ (.space [' '] :: bodySegments rest)))
  parametersText : (parameterSegments list).flatMap Segment.text = (parameterText params).toList
  blockText : (bodySegments rest).flatMap Segment.text = (bodyText body).toList
  stays : ∀ c, ∀ t ∈ Segment.tokensFrom c list, t.kind ≠ .punctuator .rightParen

theorem exists_pieceSegments {params : List String} {body : String} (hopen : StaysOpen params)
    (herror : (Lexed.ofString (dynamicSource params body)).error = none) :
    ∃ list rest, PieceSegments params body list rest := by
  obtain ⟨hlexes, htokens⟩ := hopen
  let text := (",".intercalate params).toList
  let c := Cursor.ofString ("(" ++ ",".intercalate params ++ "\n")
  have hc : c.rest = '(' :: (text ++ ['\n']) :=
    toList_between (show "(".toList = ['('] from rfl) rfl _
  obtain ⟨list, hlist, hruns, hmoves⟩ := Scan.exists_runs_open (Cursor.isExact_ofString _) hc
    (Nat.lt_succ_self _) hlexes
  have hparameters : (parameterSegments list).flatMap Segment.text =
      (parameterText params).toList := by
    have htext : (parameterSegments list).flatMap Segment.text =
        '(' :: (list.flatMap Segment.text ++ [')']) := by
      rw [parameterSegments, List.flatMap_cons, List.flatMap_append]
      rfl
    rw [htext, hlist, toList_parameterText, List.append_assoc]
    rfl
  have hstays : ∀ d, ∀ t ∈ Segment.tokensFrom d list, t.kind ≠ .punctuator .rightParen := by
    intro d t ht
    have hlexed : Lexed.ofString _ = _ := Lexed.scan_runs hruns (by rw [hc, List.flatMap_cons, hlist]; rfl)
      [] (Nat.lt_succ_self _)
    rw [hlexed] at htokens
    have hlexeme := List.mem_map_of_mem (f := Token.lexeme) ht
    rw [Segment.map_tokensFrom list d (c.advanceBy 1)] at hlexeme
    obtain ⟨u, hu, heq⟩ := List.mem_map.mp hlexeme
    have hkind : t.kind = u.kind := congrArg Prod.fst heq.symm
    rw [hkind]
    exact htokens u (List.mem_cons_of_mem _ hu)
  -- The whole text is read up to the brace, and what is behind it without an error too.
  let d := Cursor.ofString (dynamicSource params body)
  have hd : d.rest = "function anonymous".toList ++
      ((parameterText params).toList ++ ' ' :: (bodyText body).toList) :=
    toList_dynamicSource params body
  have hexact : d.IsExact := Cursor.isExact_ofString _
  have hheader : Scan.Runs d Scan.header := by
    rw [toList_parameterText] at hd
    exact Scan.runs_header hd
  let d₁ := d.advanceBy (Scan.header.flatMap Segment.text).length
  have hd₁ : d₁.rest = (parameterText params).toList ++ ' ' :: (bodyText body).toList := by
    rw [Cursor.advanceBy_rest, hd, Scan.text_header, List.drop_left]
  have hlist₁ : Scan.Runs d₁ (parameterSegments list) := by
    have hrest : d₁.rest = '(' :: (text ++ '\n' :: ')' :: ' ' :: (bodyText body).toList) := by
      rw [hd₁, toList_parameterText, List.cons_append, List.append_assoc]
      rfl
    exact hmoves (hexact.advanceBy _) hrest
  let d₂ := d₁.advanceBy ((parameterSegments list).flatMap Segment.text).length
  have hd₂ : d₂.rest = ' ' :: (bodyText body).toList := by
    rw [Cursor.advanceBy_rest, hd₁, hparameters, List.drop_left]
  have hspace : Scan.Runs d₂ [.space [' ']] := by
    refine Scan.runs_space hd₂ ?_
    rw [toList_bodyText]
    rintro ch ⟨⟩
    decide
  let d₃ := d₂.advanceBy 1
  have hd₃ : d₃.rest = (bodyText body).toList := by
    rw [Cursor.advanceBy_rest, hd₂]
    rfl
  have hbrace : Scan.Runs d₃ [.mark .leftBrace] :=
    Scan.runs_mark rfl (hd₃.trans (toList_bodyText body))
  have hfront := hheader.append (hlist₁.append (hspace.append hbrace))
  have htail : d.rest = (Scan.header ++ (parameterSegments list ++
      ([Segment.space [' ']] ++ [Segment.mark .leftBrace]))).flatMap Segment.text ++
        '\n' :: (body.toList ++ ['\n', '\x7d']) := by
    rw [hd, List.flatMap_append, List.flatMap_append, Scan.text_header, hparameters,
      toList_bodyText, List.append_assoc, List.append_assoc]
    rfl
  obtain ⟨rest, hrest, hwhole⟩ := Lexed.runs_behind hfront hexact htail (Nat.lt_succ_self _) herror
  obtain ⟨-, hbehind⟩ := hwhole.of_append
  have hblock : (bodySegments rest).flatMap Segment.text = (bodyText body).toList := by
    rw [bodySegments, List.flatMap_cons, ← hrest, toList_bodyText]
    rfl
  let e := Cursor.ofString (bodyText body)
  have hopens : Scan.Runs e [.mark .leftBrace] := Scan.runs_mark rfl (toList_bodyText body)
  have hmoved : Scan.Runs (e.advanceBy 1) rest := by
    refine hbehind.move ((Cursor.isExact_ofString _).advanceBy 1) ?_ ?_ fun hnil => ?_
    · rw [Cursor.advanceBy_rest, htail, List.drop_left, hrest]
    · rw [Cursor.advanceBy_rest, ← hrest]
      exact congrArg (List.drop 1) (toList_bodyText body)
    · rw [Cursor.advanceBy_before, htail, List.take_left, List.append_eq_nil_iff,
        List.reverse_eq_nil_iff] at hnil
      exact absurd hnil.1 (hfront.flatMap_ne_nil (List.cons_ne_nil _ _))
  refine ⟨list, rest, hmoves (Cursor.isExact_ofString _) (toList_parameterText params),
    hopens.append hmoved, ?_, hparameters, hblock, hstays⟩
  rw [List.append_assoc, List.append_assoc, List.append_assoc] at hwhole
  exact hwhole

end Ecma
