import Mathlib
import Ecma.Proofs.Literal.Decoding
import Ecma.Proofs.Token.Lexicon

/-! Literals that are written for a given string value: a text with its special characters escaped,
and any code units as Unicode escapes. Each is one token, and its value is the string that it was
written for. -/

namespace Ecma

theorem Lexed.scan_atEnd {c : Cursor} (h : c.rest = []) (tokens : List Token) (fuel : Nat) :
    scan c tokens (fuel + 1) = ⟨tokens.reverse, c.location, none⟩ := by
  rw [scan, Scan.step_atEnd h]

namespace StringLiteral

variable {quote : Char} {strict : Bool} {body : List Char} {units : List UInt16}

/-! ### Written literals -/

/-- A character between quotes: a backslash, the quote, LF and CR are escaped. -/
def quotedChar (quote c : Char) : List Char :=
  if c = '\\' ∨ c = quote then ['\\', c]
  else if c = '\n' then ['\\', 'n']
  else if c = '\r' then ['\\', 'r']
  else [c]

/-- The literal of a text. -/
def ofText (quote : Char) (text : String) : String :=
  String.ofList (quote :: (text.toList.flatMap (quotedChar quote) ++ [quote]))

/-- Four hexadecimal digits, in either case, that write a code unit. -/
structure Spells (digits : List Char) (u : UInt16) : Prop where
  length : digits.length = 4
  value : runValue? 16 digits = some u.toNat

/-- The literal of code units, each of them spelled by its digits. -/
def ofSpellings (quote : Char) (spellings : List (List Char)) : String :=
  String.ofList (quote :: (spellings.flatMap (['\\', 'u'] ++ ·) ++ [quote]))

/-- A source text that is one string literal, with one value in strict and in sloppy code. -/
structure IsLiteralOf (source : String) (value : Units) : Prop where
  tokens : (Lexed.ofString source).tokens = [⟨.stringLiteral, source, Location.start⟩]
  error : (Lexed.ofString source).error = none
  value : ∀ strict, StringLiteral.value strict source = .ok value

/-- A body that the scan accepts and that decodes in either mode makes a literal. -/
theorem isLiteralOf_body (hquote : quote = '\'' ∨ quote = '"') (hbody : StringBody quote body)
    (hdecodes : ∀ strict, Decodes strict body (.ok units)) :
    IsLiteralOf (String.ofList (quote :: (body ++ [quote]))) ⟨units⟩ := by
  have hstart : (Cursor.ofString (String.ofList (quote :: (body ++ [quote])))).rest =
      (quote :: (body ++ [quote])) ++ [] := by
    rw [List.append_nil]
    exact String.toList_ofList
  have hend : ((Cursor.ofString (String.ofList (quote :: (body ++ [quote])))).advanceBy
      (quote :: (body ++ [quote])).length).rest = [] := by
    rw [Cursor.advanceBy_rest, hstart, List.drop_left]
  have hlexed : Lexed.ofString (String.ofList (quote :: (body ++ [quote]))) =
      ⟨[⟨.stringLiteral, String.ofList (quote :: (body ++ [quote])), Location.start⟩],
        ((Cursor.ofString (String.ofList (quote :: (body ++ [quote])))).advanceBy
          (quote :: (body ++ [quote])).length).location, none⟩ := by
    unfold Lexed.ofString
    dsimp only
    rw [hstart]
    exact (Lexed.scan_found (Scan.step_stringLiteral hquote hbody hstart) _ _).trans
      (Lexed.scan_atEnd hend _ _)
  exact ⟨by rw [hlexed], by rw [hlexed], fun strict => (hdecodes strict).value_eq⟩

/-! ### Texts -/

theorem escape_self {c : Char} (hc : c = '\\' ∨ c = '\'' ∨ c = '"') (rest : List Char) :
    escape strict c rest = .ok (Units.ofChar c, rest) := by
  rcases hc with rfl | rfl | rfl <;> rfl

theorem stringBody_quotedChar (c : Char) (h : StringBody quote body) :
    StringBody quote (quotedChar quote c ++ body) := by
  unfold quotedChar
  split_ifs with hself hlf hcr
  · exact .escape h
  · exact .escape h
  · exact .escape h
  · rw [not_or] at hself
    exact .plain hself.1 hself.2 hlf hcr h

theorem decodes_quotedChar (hquote : quote = '\'' ∨ quote = '"') (c : Char)
    (h : Decodes strict body (.ok units)) :
    Decodes strict (quotedChar quote c ++ body) (.ok (Units.ofChar c ++ units)) := by
  unfold quotedChar
  split_ifs with hself hlf hcr
  · refine .escape (escape_self ?_ body) h
    rcases hself with rfl | rfl
    · exact .inl rfl
    · exact .inr hquote
  · subst hlf
    have hescape : escape strict 'n' body = .ok (Units.ofChar '\n', body) := rfl
    exact .escape hescape h
  · subst hcr
    have hescape : escape strict 'r' body = .ok (Units.ofChar '\r', body) := rfl
    exact .escape hescape h
  · rw [not_or] at hself
    exact .plain hself.1 h

/-- The literal of a text is a literal of its code units. -/
theorem isLiteralOf_ofText (hquote : quote = '\'' ∨ quote = '"') (text : String) :
    IsLiteralOf (ofText quote text) (Units.ofString text) := by
  have hchars (chars : List Char) : StringBody quote (chars.flatMap (quotedChar quote)) ∧
      ∀ strict, Decodes strict (chars.flatMap (quotedChar quote))
        (.ok (chars.flatMap Units.ofChar)) := by
    induction chars with
    | nil => exact ⟨.nil, fun _ => .nil⟩
    | cons c chars ih =>
      exact ⟨stringBody_quotedChar c ih.1, fun strict => decodes_quotedChar hquote c (ih.2 strict)⟩
  exact isLiteralOf_body hquote (hchars text.toList).1 (hchars text.toList).2

/-! ### Code units -/

namespace Spells

variable {digits : List Char} {u : UInt16} (h : Spells digits u)

include h

theorem read : readDigitsFrom 16 0 digits = some u.toNat := by
  have hne : digits ≠ [] := by
    rintro rfl
    cases h.length
  rw [← runValue?_eq hne, h.value]

theorem digit : ∀ d ∈ digits, isDigitIn 16 d = true :=
  (isSome_readDigitsFrom 0).1 (by rw [h.read]; rfl)

/-- A Unicode escape is the unit that its digits spell. -/
theorem escape_eq (rest : List Char) : escape strict 'u' (digits ++ rest) = .ok ([u], rest) := by
  have hdigits := hexDigits_append 0 digits rest
  rw [h.length, h.read, Option.map_some] at hdigits
  change unicodeEscape (digits ++ rest) = _
  unfold unicodeEscape
  split
  · next text heq =>
    cases digits with
    | nil => cases h.length
    | cons d digits =>
      cases heq
      cases h.digit '\x7b' List.mem_cons_self
  · rw [hdigits]
    simp

theorem stringBody (hquote : quote = '\'' ∨ quote = '"') (hbody : StringBody quote body) :
    StringBody quote (['\\', 'u'] ++ digits ++ body) := by
  have hdigits (ds : List Char) (hds : ∀ d ∈ ds, isDigitIn 16 d = true) :
      StringBody quote (ds ++ body) := by
    induction ds with
    | nil => exact hbody
    | cons d ds ih =>
      have hd := hds d List.mem_cons_self
      have hne (ch : Char) (hch : isDigitIn 16 ch = false) : d ≠ ch := by
        rintro rfl
        exact Bool.false_ne_true (hch.symm.trans hd)
      refine .plain (hne _ rfl) (hne _ ?_) (hne _ rfl) (hne _ rfl)
        (ih fun d hd => hds d (List.mem_cons_of_mem _ hd))
      rcases hquote with rfl | rfl <;> rfl
  exact .escape (hdigits digits h.digit)

end Spells

theorem isLiteralOf_ofSpellings (hquote : quote = '\'' ∨ quote = '"')
    {spellings : List (List Char)} (h : List.Forall₂ Spells spellings units) :
    IsLiteralOf (ofSpellings quote spellings) ⟨units⟩ := by
  have hbody : StringBody quote (spellings.flatMap (['\\', 'u'] ++ ·)) ∧
      ∀ strict, Decodes strict (spellings.flatMap (['\\', 'u'] ++ ·)) (.ok units) := by
    induction h with
    | nil => exact ⟨.nil, fun _ => .nil⟩
    | cons hspells _ ih =>
      exact ⟨hspells.stringBody hquote ih.1, fun strict => .escape (hspells.escape_eq _) (ih.2 strict)⟩
  exact isLiteralOf_body hquote hbody.1 hbody.2

theorem digitIn_digitChar {d : Nat} (h : d < 16) : digitIn 16 (digitChar d) = some d := by
  interval_cases d <;> rfl

/-- The hexadecimal digits of a code unit. -/
def spelling (u : UInt16) : List Char :=
  [u.toNat / 4096, u.toNat / 256 % 16, u.toNat / 16 % 16, u.toNat % 16].map digitChar

/-- Every code unit can be spelled. -/
theorem spells_spelling (u : UInt16) : Spells (spelling u) u := by
  have hu := u.toNat_lt
  refine ⟨rfl, ?_⟩
  change readDigitsFrom 16 0 (spelling u) = _
  simp only [spelling, List.map, readDigitsFrom,
    digitIn_digitChar (show u.toNat / 4096 < 16 by omega),
    digitIn_digitChar (show u.toNat / 256 % 16 < 16 by omega),
    digitIn_digitChar (show u.toNat / 16 % 16 < 16 by omega),
    digitIn_digitChar (show u.toNat % 16 < 16 by omega)]
  congr 1
  omega

/-- Every text and every sequence of code units, lone surrogates included, can be written as one
literal, between either kind of quotes and with digits of either case. -/
theorem literals_round_trip (quote : Char) (hquote : quote = '\'' ∨ quote = '"') :
    (∀ text : String, IsLiteralOf (ofText quote text) (Units.ofString text)) ∧
      (∀ (spellings : List (List Char)) (units : List UInt16),
        List.Forall₂ Spells spellings units → IsLiteralOf (ofSpellings quote spellings) ⟨units⟩) ∧
      ∀ u : UInt16, Spells (spelling u) u :=
  ⟨isLiteralOf_ofText hquote, fun _ _ h => isLiteralOf_ofSpellings hquote h, spells_spelling⟩

/-- A quote, a backslash, a line break and a character above the basic plane; a lone surrogate in
digits of both cases. -/
theorem literals_round_trip_surrogate :
    IsLiteralOf "'it\\'s \\\\ \\n 😀'" (Units.ofString "it's \\ \n 😀") ∧
      IsLiteralOf "'\\uD83d\\u0041'" ⟨[0xD83D, 0x41]⟩ := by
  obtain ⟨htext, hunits, -⟩ := literals_round_trip '\'' (.inl rfl)
  have hwritten : ofText '\'' "it's \\ \n 😀" = "'it\\'s \\\\ \\n 😀'" := by decide +kernel
  have hspelled : ofSpellings '\'' ["D83d".toList, "0041".toList] = "'\\uD83d\\u0041'" := by
    decide +kernel
  have hspells : List.Forall₂ Spells ["D83d".toList, "0041".toList] [0xD83D, 0x41] :=
    .cons ⟨rfl, by decide +kernel⟩ (.cons ⟨rfl, by decide +kernel⟩ .nil)
  rw [← hwritten, ← hspelled]
  exact ⟨htext _, hunits _ _ hspells⟩

end StringLiteral

end Ecma
