import Mathlib
import Ecma.Literal.StringLiteral
import Ecma.Proofs.Text.Digit
import Ecma.Proofs.Token.Literal

/-! Decoding the text between the quotes of a string literal. The scan of a string and its decoding
follow the same escapes, so a decoding always ends at the end of the text or at an escape that is
malformed. -/

namespace Ecma

namespace StringLiteral

variable {strict : Bool} {e : Char} {rest more : List Char} {units : List UInt16}

/-! ### Escapes -/

theorem octalDigits_taken {value count n : Nat} (h : octalDigits value count rest = (n, more)) :
    ∃ taken, rest = taken ++ more ∧ '\\' ∉ taken := by
  fun_induction octalDigits value count rest with
  | case1 | case2 | case4 =>
    cases h
    exact ⟨[], rfl, by simp⟩
  | case3 value count c rest d hd ih =>
    obtain ⟨taken, rfl, hslash⟩ := ih h
    refine ⟨c :: taken, rfl, ?_⟩
    rintro (_ | ⟨_, hmem⟩)
    · cases hd
    · exact hslash hmem

theorem hexDigits_taken {value count n : Nat} (h : hexDigits value count rest = some (n, more)) :
    ∃ taken, rest = taken ++ more ∧ '\\' ∉ taken := by
  fun_induction hexDigits value count rest with
  | case1 =>
    cases h
    exact ⟨[], rfl, by simp⟩
  | case2 | case4 => cases h
  | case3 value count c rest d hd ih =>
    obtain ⟨taken, rfl, hslash⟩ := ih h
    refine ⟨c :: taken, rfl, ?_⟩
    rintro (_ | ⟨_, hmem⟩)
    · cases hd
    · exact hslash hmem

theorem bracedDigits_taken {value n : Nat} {started : Bool}
    (h : bracedDigits value started rest = .ok (n, more)) :
    ∃ taken, rest = taken ++ more ∧ '\\' ∉ taken := by
  fun_induction bracedDigits value started rest with
  | case1 | case3 | case4 => cases h
  | case2 value started c rest hclose =>
    cases h
    exact ⟨[c], rfl, by simp [hclose.1]⟩
  | case5 value started c rest hclose d hd value' hrange ih =>
    obtain ⟨taken, rfl, hslash⟩ := ih h
    refine ⟨c :: taken, rfl, ?_⟩
    rintro (_ | ⟨_, hmem⟩)
    · cases hd
    · exact hslash hmem

theorem unicodeEscape_taken (h : unicodeEscape rest = .ok (units, more)) :
    ∃ taken, rest = taken ++ more ∧ '\\' ∉ taken := by
  unfold unicodeEscape at h
  split at h
  · next text =>
    cases hdigits : bracedDigits 0 false text with
    | error err =>
      rw [hdigits] at h
      cases h
    | ok found =>
      rw [hdigits] at h
      cases h
      obtain ⟨taken, rfl, hslash⟩ := bracedDigits_taken hdigits
      exact ⟨'\x7b' :: taken, rfl, by simpa using hslash⟩
  · split at h
    · next hdigits =>
      cases h
      exact hexDigits_taken hdigits
    · cases h

/-- After a CR comes an LF that belongs to it; otherwise an escape takes no backslash. -/
theorem escape_taken (h : escape strict e rest = .ok (units, more)) :
    (e = '\r' ∧ rest = '\n' :: more) ∨
      ((e = '\r' → rest.head? ≠ some '\n') ∧ ∃ taken, rest = taken ++ more ∧ '\\' ∉ taken) := by
  have hnothing (hcr : e ≠ '\r') (heq : rest = more) :
      (e = '\r' ∧ rest = '\n' :: more) ∨
        ((e = '\r' → rest.head? ≠ some '\n') ∧ ∃ taken, rest = taken ++ more ∧ '\\' ∉ taken) :=
    .inr ⟨fun h => absurd h hcr, [], heq, by simp⟩
  unfold escape at h
  split at h
  · next hsimple =>
    cases h
    refine hnothing ?_ rfl
    rintro rfl
    cases hsimple
  · split at h
    · next hzero =>
      cases h
      refine hnothing ?_ rfl
      rintro rfl
      exact absurd hzero.1 (by decide)
    · split at h
      · next d hd =>
        have hcr : e ≠ '\r' := by
          rintro rfl
          cases hd
        split at h
        · cases h
        · cases h
          exact .inr ⟨fun h => absurd h hcr, octalDigits_taken rfl⟩
      · split_ifs at h with hnine hx hu hcr hline
        · refine .inr ⟨fun h => absurd (hx.symm.trans h) (by decide), ?_⟩
          split at h
          · next hdigits =>
            cases h
            exact hexDigits_taken hdigits
          · cases h
        · exact .inr ⟨fun h => absurd (hu.symm.trans h) (by decide), unicodeEscape_taken h⟩
        · split at h
          · cases h
            exact .inl ⟨hcr, rfl⟩
          · next hbreak =>
            cases h
            refine .inr ⟨fun _ hhead => ?_, [], rfl, by simp⟩
            obtain ⟨tail, rfl⟩ := List.head?_eq_some_iff.1 hhead
            exact hbreak tail rfl
        · cases h
          exact hnothing hcr rfl
        · cases h
          exact hnothing hcr rfl

theorem length_escape (h : escape strict e rest = .ok (units, more)) :
    more.length ≤ rest.length := by
  obtain ⟨-, rfl⟩ | ⟨-, taken, rfl, -⟩ := escape_taken h <;> simp

/-- What strict code accepts is the same in sloppy code. -/
theorem escape_sloppy (h : escape true e rest = .ok (units, more)) :
    escape false e rest = .ok (units, more) := by
  unfold escape at h ⊢
  split
  · next hsimple =>
    rw [hsimple] at h
    exact h
  · next hsimple =>
    rw [hsimple] at h
    dsimp only at h
    split
    · next hzero => rwa [if_pos hzero] at h
    · next hzero =>
      rw [if_neg hzero] at h
      cases hd : digitIn 8 e with
      | some d =>
        rw [hd] at h
        cases h
      | none =>
        rw [hd] at h
        dsimp only at h ⊢
        rw [if_neg (by simp)]
        split at h
        · cases h
        · exact h

/-! ### Decoding -/

/-- A decoding of the text between the quotes that ends at the end of the text or at an escape that
fails. There is no rule for a backslash with nothing after it. -/
inductive Decodes (strict : Bool) : List Char → Except LiteralError (List UInt16) → Prop
  | nil : Decodes strict [] (.ok [])
  | plain {c : Char} {rest : List Char} {r : Except LiteralError (List UInt16)} (hc : c ≠ '\\')
    (h : Decodes strict rest r) : Decodes strict (c :: rest) (r.map (Units.ofChar c ++ ·))
  | escape {e : Char} {rest more : List Char} {units : List UInt16}
    {r : Except LiteralError (List UInt16)} (he : escape strict e rest = .ok (units, more))
    (h : Decodes strict more r) : Decodes strict ('\\' :: e :: rest) (r.map (units ++ ·))
  | failed {e : Char} {rest : List Char} {err : LiteralError}
    (he : StringLiteral.escape strict e rest = .error err) :
    Decodes strict ('\\' :: e :: rest) (.error err)

theorem Decodes.decode_eq {body : List Char} {r : Except LiteralError (List UInt16)}
    (h : Decodes strict body r) {fuel : Nat} (hfuel : body.length ≤ fuel) :
    decode strict fuel body = r := by
  induction h generalizing fuel with
  | nil => cases fuel <;> rfl
  | plain hc _ ih =>
    obtain _ | fuel := fuel
    · simp at hfuel
    · simp only [decode, if_neg hc, ih (show _ ≤ fuel by simpa using hfuel)]
  | @escape e rest more units r he _ ih =>
    obtain _ | fuel := fuel
    · simp at hfuel
    · have hlength := length_escape he
      simp only [List.length_cons] at hfuel
      simp only [decode, if_true, he, ih (show more.length ≤ fuel by omega)]
  | failed he =>
    obtain _ | fuel := fuel
    · simp at hfuel
    · simp only [decode, if_true, he]

/-- The value of a literal is what its body decodes to. -/
theorem Decodes.value_eq {quote : Char} {body : List Char}
    {r : Except LiteralError (List UInt16)} (h : Decodes strict body r) :
    value strict (String.ofList (quote :: (body ++ [quote]))) = r.map Units.mk := by
  have hinner : ((String.ofList (quote :: (body ++ [quote]))).toList.drop 1).dropLast = body := by
    simp
  rw [value, hinner, h.decode_eq (Nat.le_refl _)]

theorem stringBody_tail {quote c : Char} (h : StringBody quote (c :: rest)) (hc : c ≠ '\\') :
    StringBody quote rest := by
  cases h with
  | plain _ _ _ _ h => exact h
  | escape => exact absurd rfl hc
  | escapedBreak => exact absurd rfl hc

theorem stringBody_drop {quote : Char} {taken : List Char}
    (h : StringBody quote (taken ++ rest)) (htaken : '\\' ∉ taken) : StringBody quote rest := by
  induction taken with
  | nil => exact h
  | cons c taken ih =>
    rw [List.mem_cons, not_or] at htaken
    exact ih (stringBody_tail h (Ne.symm htaken.1)) htaken.2

/-- An escape ends where the scan of the string can go on. -/
theorem stringBody_escape {quote : Char} (h : StringBody quote ('\\' :: e :: rest))
    (he : escape strict e rest = .ok (units, more)) : StringBody quote more := by
  cases h with
  | plain hslash => exact absurd rfl hslash
  | escape h =>
    obtain ⟨-, rfl⟩ | ⟨-, taken, rfl, htaken⟩ := escape_taken he
    · cases h with
      | plain _ _ hlf => exact absurd rfl hlf
    · exact stringBody_drop h htaken
  | escapedBreak h =>
    obtain ⟨-, heq⟩ | ⟨hcr, -⟩ := escape_taken he
    · cases heq
      exact h
    · exact absurd rfl (hcr rfl)

/-- Every body that the scan of a string accepts is decoded up to its end or an escape that fails. -/
theorem exists_decodes {quote : Char} {body : List Char} (h : StringBody quote body)
    (strict : Bool) : ∃ r, Decodes strict body r := by
  induction hn : body.length using Nat.strong_induction_on generalizing body with
  | _ n ih =>
  subst hn
  cases body with
  | nil => exact ⟨_, .nil⟩
  | cons c rest =>
    by_cases hc : c = '\\'
    · subst hc
      cases rest with
      | nil => cases h with | plain hslash => exact absurd rfl hslash
      | cons e rest =>
        cases he : escape strict e rest with
        | error err => exact ⟨_, .failed he⟩
        | ok found =>
          have hlength := length_escape he
          obtain ⟨r, hr⟩ := ih found.2.length (by simp only [List.length_cons]; omega)
            (stringBody_escape h he) rfl
          exact ⟨_, .escape he hr⟩
    · obtain ⟨r, hr⟩ := ih rest.length (by simp) (stringBody_tail h hc) rfl
      exact ⟨_, .plain hc hr⟩

theorem decodes_sloppy {body : List Char} {r : Except LiteralError (List UInt16)}
    (h : Decodes true body r) {units : List UInt16} (hok : r = .ok units) :
    Decodes false body (.ok units) := by
  induction h generalizing units with
  | nil =>
    cases hok
    exact .nil
  | @plain c rest r hc _ ih =>
    cases r with
    | error => cases hok
    | ok us =>
      cases hok
      exact .plain hc (ih rfl)
  | @escape e rest more us r he _ ih =>
    cases r with
    | error => cases hok
    | ok vs =>
      cases hok
      exact .escape (escape_sloppy he) (ih rfl)
  | failed => cases hok

/-! ### Failures -/

/-- What may be wrong with an escape in sloppy code, by the character after its backslash and the
text after that. -/
inductive Malformed : LiteralError → Char → List Char → Prop
  /-- Two hexadecimal digits are missing. -/
  | hex {rest : List Char} (h : ¬ ∃ digits more, rest = digits ++ more ∧ digits.length = 2 ∧
      ∀ d ∈ digits, isDigitIn 16 d = true) : Malformed .invalidHexEscape 'x' rest
  /-- There are neither four hexadecimal digits nor any in braces. -/
  | unicode {rest : List Char} (hfour : ¬ ∃ digits more, rest = digits ++ more ∧
      digits.length = 4 ∧ ∀ d ∈ digits, isDigitIn 16 d = true)
    (hbraced : ¬ ∃ digits more, rest = '\x7b' :: (digits ++ '\x7d' :: more) ∧ digits ≠ [] ∧
      ∀ d ∈ digits, isDigitIn 16 d = true) : Malformed .invalidUnicodeEscape 'u' rest
  /-- The number after the brace is no code point. -/
  | codePoint {rest digits more : List Char} {n : Nat} (hrest : rest = '\x7b' :: (digits ++ more))
    (hdigits : runValue? 16 digits = some n) (hn : 0x10FFFF < n) :
    Malformed .codePointOutOfRange 'u' rest

/-- The positions that a decoding gets to. -/
inductive Reaches (strict : Bool) : List Char → List Char → Prop
  | here (body : List Char) : Reaches strict body body
  | plain {c : Char} {rest body : List Char} (hc : c ≠ '\\') (h : Reaches strict rest body) :
    Reaches strict (c :: rest) body
  | escape {e : Char} {rest more body : List Char} {units : List UInt16}
    (he : StringLiteral.escape strict e rest = .ok (units, more)) (h : Reaches strict more body) :
    Reaches strict ('\\' :: e :: rest) body

/-- Digits are read one by one. -/
theorem hexDigits_append (value : Nat) (digits more : List Char) :
    hexDigits value digits.length (digits ++ more) =
      (readDigitsFrom 16 value digits).map fun n => (n, more) := by
  induction digits generalizing value with
  | nil => rfl
  | cons d digits ih =>
    rw [List.length_cons, List.cons_append, hexDigits, readDigitsFrom]
    cases digitIn 16 d with
    | none => rfl
    | some n => exact ih _

theorem not_digits_of_hexDigits {value count : Nat} (h : hexDigits value count rest = none) :
    ¬ ∃ digits more, rest = digits ++ more ∧ digits.length = count ∧
      ∀ d ∈ digits, isDigitIn 16 d = true := by
  rintro ⟨digits, more, rfl, rfl, hdigits⟩
  rw [hexDigits_append, Option.map_eq_none_iff] at h
  exact absurd ((isSome_readDigitsFrom value).2 hdigits) (by simp [h])

theorem not_digits_of_bracedDigits {value : Nat} {started : Bool}
    (h : bracedDigits value started rest = .error .invalidUnicodeEscape) :
    ¬ ∃ digits more, rest = digits ++ '\x7d' :: more ∧ (started = true ∨ digits ≠ []) ∧
      ∀ d ∈ digits, isDigitIn 16 d = true := by
  rintro ⟨digits, more, hrest, hstarted, hdigits⟩
  fun_induction bracedDigits value started rest generalizing digits with
  | case1 => simp at hrest
  | case2 | case4 => cases h
  | case3 value started c rest hclose hc =>
    cases digits with
    | nil =>
      cases hrest
      exact hclose ⟨rfl, by simpa using hstarted⟩
    | cons d digits =>
      cases hrest
      have hd := hdigits c (by simp)
      rw [isDigitIn, hc] at hd
      cases hd
  | case5 value started c rest hclose d hd value' hrange ih =>
    cases digits with
    | nil =>
      cases hrest
      cases hd
    | cons d digits =>
      cases hrest
      exact ih h digits rfl (.inl rfl) fun d hd => hdigits d (by simp [hd])

theorem digits_of_bracedDigits {value : Nat} {started : Bool}
    (h : bracedDigits value started rest = .error .codePointOutOfRange) :
    ∃ digits more n, rest = digits ++ more ∧ digits ≠ [] ∧
      readDigitsFrom 16 value digits = some n ∧ 0x10FFFF < n := by
  fun_induction bracedDigits value started rest with
  | case1 | case2 | case3 => cases h
  | case4 value started c rest hclose d hd value' hrange =>
    exact ⟨[c], rest, value', rfl, by simp, by simp [readDigitsFrom, hd, value'], hrange⟩
  | case5 value started c rest hclose d hd value' hrange ih =>
    obtain ⟨digits, more, n, rfl, -, hn, hrange⟩ := ih h
    exact ⟨c :: digits, more, n, rfl, by simp, by simpa [readDigitsFrom, hd] using hn, hrange⟩

theorem bracedDigits_error {value : Nat} {started : Bool} {err : LiteralError}
    (h : bracedDigits value started rest = .error err) :
    err = .invalidUnicodeEscape ∨ err = .codePointOutOfRange := by
  fun_induction bracedDigits value started rest with
  | case1 | case3 =>
    cases h
    exact .inl rfl
  | case2 => cases h
  | case4 =>
    cases h
    exact .inr rfl
  | case5 _ _ _ _ _ _ _ _ _ ih => exact ih h

theorem malformed_of_unicodeEscape {err : LiteralError} (h : unicodeEscape rest = .error err) :
    Malformed err 'u' rest := by
  unfold unicodeEscape at h
  split at h
  · next text =>
    cases hdigits : bracedDigits 0 false text with
    | ok found =>
      rw [hdigits] at h
      cases h
    | error e =>
      rw [hdigits] at h
      cases h
      have hfour : ¬ ∃ digits more, '\x7b' :: text = digits ++ more ∧ digits.length = 4 ∧
          ∀ d ∈ digits, isDigitIn 16 d = true := by
        rintro ⟨_ | ⟨d, digits⟩, more, htext, hlength, hall⟩
        · cases hlength
        · cases htext
          cases hall '\x7b' (by simp)
      obtain rfl | rfl := bracedDigits_error hdigits
      · refine .unicode hfour ?_
        rintro ⟨digits, more, htext, hne, hall⟩
        exact not_digits_of_bracedDigits hdigits
          ⟨digits, more, (List.cons.inj htext).2, .inr hne, hall⟩
      · obtain ⟨digits, more, n, rfl, hne, hn, hrange⟩ := digits_of_bracedDigits hdigits
        exact .codePoint rfl ((runValue?_eq hne).trans hn) hrange
  · next hbrace =>
    split at h
    · cases h
    · next hdigits =>
      cases h
      refine .unicode (not_digits_of_hexDigits hdigits) ?_
      rintro ⟨digits, more, rfl, -⟩
      exact hbrace _ rfl

/-- In sloppy code nothing but a malformed escape fails. -/
theorem malformed_of_escape {err : LiteralError} (h : escape false e rest = .error err) :
    Malformed err e rest := by
  unfold escape at h
  split at h
  · cases h
  · split at h
    · cases h
    · split at h
      · cases h
      · rw [if_neg (by simp)] at h
        split_ifs at h with hx hu hcr hline
        · subst hx
          split at h
          · cases h
          · next hdigits =>
            cases h
            exact .hex (not_digits_of_hexDigits hdigits)
        · subst hu
          exact malformed_of_unicodeEscape h
        · split at h <;> cases h

/-- A decoding that fails has got to the escape that is to blame. -/
theorem Decodes.malformed {body : List Char} {r : Except LiteralError (List UInt16)}
    (h : Decodes false body r) {err : LiteralError} (herr : r = .error err) :
    ∃ e rest, Reaches false body ('\\' :: e :: rest) ∧ Malformed err e rest := by
  induction h with
  | nil => cases herr
  | @plain c rest r hc _ ih =>
    cases r with
    | ok => cases herr
    | error err' =>
      cases herr
      obtain ⟨e, more, hreach, hbad⟩ := ih rfl
      exact ⟨e, more, .plain hc hreach, hbad⟩
  | @escape e rest more units r he _ ih =>
    cases r with
    | ok => cases herr
    | error err' =>
      cases herr
      obtain ⟨e', more', hreach, hbad⟩ := ih rfl
      exact ⟨e', more', .escape he hreach, hbad⟩
  | @failed e rest err' he =>
    cases herr
    exact ⟨e, rest, .here _, malformed_of_escape he⟩

end StringLiteral

end Ecma
