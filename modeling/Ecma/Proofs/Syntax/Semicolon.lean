import Ecma.Proofs.Syntax.Insensitive
import Ecma.Proofs.Syntax.Lockstep
import Ecma.Proofs.Token.Splice

/-! Semicolons that are left out can be written: with a semicolon behind the last token before such a
place the text is parsed to the same tree, up to the source texts in it. -/

namespace Ecma

open Bare (bare)

/-! ### Readings -/

theorem readings_congr {tokens tokens' : List Token}
    (h : tokens.map Token.lexeme = tokens'.map Token.lexeme) : readings tokens = readings tokens' := by
  induction tokens generalizing tokens' with
  | nil =>
    obtain rfl := List.map_eq_nil_iff.mp h.symm
    rfl
  | cons t tokens ih =>
    obtain ⟨t', rest, rfl, ht, hrest⟩ := List.map_eq_cons_iff.mp h.symm
    obtain ⟨hkind, htext⟩ := Prod.mk.inj ht
    have hsignificant : t'.isSignificant = t.isSignificant := by
      simp [Token.isSignificant, hkind]
    rw [readings, readings, hsignificant, hkind, htext, ih hrest.symm]

/-- Line terminators do not run across another token. -/
theorem readings_append (tokens : List Token) {t : Token} (ht : t.isSignificant = true) :
    ∃ before, ∀ rest, readings (tokens ++ t :: rest) = before ++ t.lexeme :: readings rest := by
  induction tokens with
  | nil => exact ⟨[], fun rest => by simp [readings, ht]⟩
  | cons u tokens ih =>
    obtain ⟨before, hbefore⟩ := ih
    cases hu : u.isSignificant with
    | true =>
      refine ⟨u.lexeme :: before, fun rest => ?_⟩
      rw [List.cons_append, readings, if_pos hu, hbefore]
      rfl
    | false =>
      -- the first reading is the same whatever comes behind the token
      have hfirst : ∃ x more, before ++ [t.lexeme] = x :: more :=
        List.exists_cons_of_ne_nil (by simp)
      obtain ⟨x, more, hfirst⟩ := hfirst
      have hnext (rest : List Token) : readings (tokens ++ t :: rest) = x :: (more ++ readings rest) := by
        rw [hbefore, ← List.singleton_append, ← List.append_assoc, hfirst]
        rfl
      by_cases hx : x.1 = .lineTerminator
      · refine ⟨before, fun rest => ?_⟩
        rw [List.cons_append, readings, if_neg (by simp [hu]), ← hbefore, hnext]
        obtain ⟨kind, text⟩ := x
        obtain rfl : kind = .lineTerminator := hx
        rfl
      · refine ⟨(.lineTerminator, "") :: before, fun rest => ?_⟩
        rw [List.cons_append, readings, if_neg (by simp [hu]), List.cons_append, ← hbefore, hnext]
        split
        · next heq =>
          cases heq
          exact absurd rfl hx
        · rfl

/-! ### Places -/

namespace TokenStream

variable {source : String} {start s : TokenStream} {segments : List Segment}

/-- Behind a token that was taken the segments of a text are split. -/
theorem Reaches.isBetween (h : start.Reaches s) (hstart : IsBetween source [] segments start) :
    s = start ∨ ∃ before kind text left, kind ≠ .lineTerminator ∧
      segments = before ++ [.token kind text] ++ left ∧
      IsBetween source (before ++ [.token kind text]) left s := by
  induction h with
  | refl => exact .inl rfl
  | next _ ht ih =>
    refine .inr ?_
    rcases ih with rfl | ⟨before, kind, text, left, -, rfl, hbetween⟩
    · obtain ⟨gap, kind, text, left, rfl, hkind, hnext⟩ := hstart.next ht
      exact ⟨gap, kind, text, left, hkind, by simp, hnext⟩
    · obtain ⟨gap, kind', text', left', rfl, hkind, hnext⟩ := hbetween.next ht
      exact ⟨before ++ [.token kind text] ++ gap, kind', text', left', hkind, by simp, hnext⟩

end TokenStream

/-! ### Insertions -/

/-- The semicolon in front of tokens, without positions. -/
def Insertion.ofTokens (tokens : List Token) : Insertion where
  stop := ⟨.punctuator .semicolon, ";", default⟩
  rest := bareTokens tokens
  kind_stop := rfl
  bare t ht := by
    rcases List.mem_cons.mp ht with rfl | ht
    · rfl
    · obtain ⟨x, -, rfl⟩ := List.mem_map.mp ht
      rfl

theorem bareTokens_default (tokens : List Token) : ∀ t ∈ bareTokens tokens, t.location = default := by
  intro t ht
  obtain ⟨x, -, rfl⟩ := List.mem_map.mp ht
  rfl

namespace Program

/-- The positions at which parsing goes on without a semicolon. -/
def omissions (source : String) : List TokenStream :=
  match TokenStream.ofString source with
  | .error _ => []
  | .ok tokens =>
    match read source tokens with
    | .error _ => []
    | .ok (_, s) => s.omitted

variable {source source' : String} {p : Program} {o start : TokenStream}

theorem parse_eq_ok (h : parse source = .ok p) : ∃ tokens s,
    TokenStream.ofString source = .ok tokens ∧ read source tokens = .ok (p, s) ∧
      omissions source = s.omitted := by
  unfold parse at h
  unfold omissions
  cases hlex : TokenStream.ofString source with
  | error e => rw [hlex] at h; cases h
  | ok tokens =>
    rw [hlex] at h
    dsimp only [ofTokens] at h ⊢
    cases hread : read source tokens with
    | error e => rw [hread] at h; cases e <;> cases h
    | ok r =>
      obtain ⟨p', s⟩ := r
      rw [hread] at h
      cases h
      exact ⟨tokens, s, rfl, hread, rfl⟩

/-- The run without positions has what is left of the tree, and the same places without semicolons. -/
theorem bare_read {s : ParseState} (h : read source start = .ok (p, s)) :
    ∃ s₀ : ParseState, (Grammar.ofFuel (start.remaining + 1)).script (bare (surroundings source))
        ⟨⟨bareTokens start.rest, default, 0, 0⟩, [], [], []⟩ = .ok (bare p, s₀) ∧
      s₀.omitted.map TokenStream.remaining = s.omitted.map TokenStream.remaining := by
  have := Grammar.blind_ofFuel (start.remaining + 1)
  have hblind : Parse.Blind (Grammar.ofFuel (start.remaining + 1)).script
      (Grammar.ofFuel (start.remaining + 1)).script := inferInstance
  have hstart : ParseState.Shadows ⟨⟨bareTokens start.rest, default, 0, 0⟩, [], [], []⟩
      ⟨start, [], [], []⟩ := ⟨rfl, rfl, rfl, rfl, rfl⟩
  have hscript := hblind.shadows (surroundings source) hstart
  unfold read at h
  rw [h] at hscript
  generalize hrun : (Grammar.ofFuel (start.remaining + 1)).script (bare (surroundings source))
    ⟨⟨bareTokens start.rest, default, 0, 0⟩, [], [], []⟩ = r at hscript
  cases hscript with
  | ok hs => exact ⟨_, rfl, hs.omitted⟩

/-- With a semicolon among the tokens, where it was left out, parsing gives the same tree. -/
theorem read_inserted {s : ParseState} (h : read source start = .ok (p, s)) (ho : o ∈ s.omitted)
    {tokens : List Token} {t : Token} (ht : t.isSignificant = true)
    (hstart : start.rest = tokens ++ t :: o.rest) {start' : TokenStream}
    (hlex : TokenStream.ofString source' = .ok start') {semicolon : Token}
    (hsemicolon : semicolon.lexeme = (.punctuator .semicolon, ";"))
    (hrest : start'.rest.map Token.lexeme =
      (tokens ++ t :: semicolon :: o.rest).map Token.lexeme) :
    bareResult (parse source') = .ok (bare p) := by
  obtain ⟨s₀, hrun, homitted⟩ := bare_read h
  obtain ⟨before, hbefore⟩ := readings_append tokens ht
  let i := Insertion.ofTokens o.rest
  obtain ⟨hkind, htext⟩ := Prod.mk.inj hsemicolon
  have hsignificant : semicolon.isSignificant = true := by simp [Token.isSignificant, hkind]
  have hfirst : bareTokens start.rest =
      before.map (fun x => ⟨x.1, x.2, default⟩) ++ (⟨t.kind, t.text, default⟩ : Token) :: i.rest := by
    rw [hstart, bareTokens, hbefore, List.map_append]
    rfl
  have hsecond : bareTokens start'.rest = before.map (fun x => ⟨x.1, x.2, default⟩) ++
      (⟨t.kind, t.text, default⟩ : Token) :: i.stop :: i.rest := by
    rw [bareTokens, readings_congr hrest, hbefore, readings, if_pos hsignificant, List.map_append,
      hkind, htext]
    rfl
  have hremaining : start'.remaining + 1 = start.remaining + 1 + 1 := by
    have hcount := congrArg (List.countP Token.isSignificant) hsecond
    rw [countP_bareTokens, List.countP_append, List.countP_cons_of_pos (by exact ht),
      List.countP_cons_of_pos i.isSignificant_stop] at hcount
    have hcount' := congrArg (List.countP Token.isSignificant) hfirst
    rw [countP_bareTokens, List.countP_append, List.countP_cons_of_pos (by exact ht)] at hcount'
    rw [TokenStream.remaining, hcount, TokenStream.remaining, hcount']
    omega
  have hjoined : i.Joined ⟨⟨bareTokens start.rest, default, 0, 0⟩, [], [], []⟩
      ⟨⟨bareTokens start'.rest, default, 0, 0⟩, [], [], []⟩ := by
    refine ⟨?_, bareTokens_default _, ⟨rfl, rfl⟩, rfl, rfl, .inr fun o ho => by cases ho⟩
    rw [hfirst, hsecond]
    exact .near (.ahead _ ht)
  have := Grammar.parallel_ofFuel i (start.remaining + 1)
  have hfirm : i.Firm (Grammar.ofFuel (start.remaining + 1)).script
    (Grammar.ofFuel (start.remaining + 1 + 1)).script := inferInstance
  rw [bareResult_parse hlex, hremaining]
  rcases hfirm.leads (bare (surroundings source)) _ _ rfl hjoined _ _ hrun with hpassed | ⟨t', ht', -⟩
  · -- the first run has left a semicolon out at the insertion
    have hmem : o.remaining ∈ s₀.omitted.map TokenStream.remaining := by
      rw [homitted]
      exact List.mem_map_of_mem ho
    obtain ⟨o₀, ho₀, heq⟩ := List.mem_map.mp hmem
    refine absurd (heq.trans ?_) (hpassed.omitted o₀ ho₀)
    exact (countP_bareTokens o.rest).symm
  · have hsame : bare (surroundings source') = bare (surroundings source) := rfl
    rw [hsame, ht']

theorem exists_of_bareResult {result : Except SyntaxError Program} {q : Program}
    (h : bareResult result = .ok q) : ∃ p, result = .ok p ∧ bare p = q := by
  cases result with
  | error e => cases h
  | ok p => exact ⟨p, rfl, Except.ok.inj h⟩

/-- A semicolon that was left out can be written: behind the last token before a place where parsing
went on without one, it gives a text that is parsed to the same tree up to source texts. -/
theorem parse_insert_semicolon (h : parse source = .ok p) (ho : o ∈ omissions source) :
    ∃ before after, source.toList = before ++ after ∧
      o.previousEnd = (String.ofList before).utf8ByteSize ∧
      ∃ p', parse (String.ofList (before ++ ';' :: after)) = .ok p' ∧ bare p' = bare p := by
  obtain ⟨start, s, hlex, hread, homissions⟩ := parse_eq_ok h
  rw [homissions] at ho
  obtain ⟨segments, hruns, hbetween⟩ := TokenStream.runs_ofString hlex
  have := Grammar.moves_ofFuel (start.remaining + 1)
  have hscript : (Grammar.ofFuel (start.remaining + 1)).script.Moves 0 1 := inferInstance
  obtain ⟨hreaches, hless⟩ := ((hscript.yields _ _ p s hread).omitted o ho).resolve_left (by simp)
  obtain rfl | ⟨first, kind, text, left, hkind, rfl, ho'⟩ := hreaches.isBetween hbetween
  · exact absurd hless (by simp)
  refine ⟨_, _, ho'.text, ho'.previousEnd, ?_⟩
  obtain ⟨start', location, hlex', hrest⟩ :=
    TokenStream.ofString_insert hruns (by rw [ho'.text, ← List.flatMap_append]) List.getLast?_concat
  let c := Cursor.ofString source
  let t : Token := ⟨kind, String.ofList text, (c.advanceBy (first.flatMap Segment.text).length).location⟩
  have hread' : Segment.tokensFrom c (first ++ [.token kind text]) = Segment.tokensFrom c first ++ [t] := by
    rw [Segment.tokensFrom_append]
    rfl
  have hstart : start.rest = Segment.tokensFrom c first ++ t :: o.rest := by
    rw [hbetween.rest, Segment.tokensFrom_append, ho'.rest]
    change Segment.tokensFrom c _ ++ _ = _
    rw [hread', List.append_assoc]
    rfl
  have hinserted : start'.rest.map Token.lexeme = (Segment.tokensFrom c first ++
      t :: (⟨.punctuator .semicolon, ";", location⟩ : Token) :: o.rest).map Token.lexeme := by
    rw [hrest, hread', List.append_assoc, ho'.rest]
    rfl
  exact exists_of_bareResult (read_inserted hread ho (by simp [t, Token.isSignificant, hkind]) hstart
    hlex' rfl hinserted)

/-- Between two statements on two lines, behind the first byte. -/
theorem parse_insert_semicolon_line : ∃ p o, parse "a\nb" = .ok p ∧ o ∈ omissions "a\nb" ∧
    o.previousEnd = 1 ∧ ∃ before after, "a\nb".toList = before ++ after ∧
      o.previousEnd = (String.ofList before).utf8ByteSize ∧
      ∃ p', parse (String.ofList (before ++ ';' :: after)) = .ok p' ∧ bare p' = bare p := by
  have hparsed : (parse "a\nb").toOption.isSome = true := by decide +kernel
  have hfound : ((omissions "a\nb").find? fun o => o.previousEnd == 1).isSome = true := by
    decide +kernel
  cases hparse : parse "a\nb" with
  | error e => rw [hparse] at hparsed; cases hparsed
  | ok p =>
    obtain ⟨o, ho⟩ := Option.isSome_iff_exists.mp hfound
    have hmem := List.mem_of_find?_eq_some ho
    have hend : o.previousEnd = 1 := by simpa using List.find?_some ho
    exact ⟨p, o, rfl, hmem, hend, parse_insert_semicolon hparse hmem⟩

end Program

end Ecma
