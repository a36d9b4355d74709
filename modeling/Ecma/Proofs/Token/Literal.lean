import Mathlib
import Ecma.Proofs.Token.Spelling

/-! The texts of string and numeric literals, and the scans that read them. -/

namespace Ecma

/-! ### Texts of literals -/

/-- Digits with single underscores between them. -/
inductive DigitRun (p : Char → Bool) : List Char → Prop
  | one {d : Char} (h : p d = true) : DigitRun p [d]
  | digit {d : Char} {ds : List Char} (h : p d = true) (hds : DigitRun p ds) : DigitRun p (d :: ds)
  | separated {d : Char} {ds : List Char} (h : p d = true) (hds : DigitRun p ds) :
    DigitRun p (d :: '_' :: ds)

namespace DigitRun

variable {p : Char → Bool} {l : List Char}

theorem ne_nil (h : DigitRun p l) : l ≠ [] := by
  cases h <;> simp

theorem all (h : DigitRun p l) : ∀ ch ∈ l, (p ch || ch == '_') = true := by
  induction h with
  | one h => simp [h]
  | digit h _ ih => simpa [h] using ih
  | separated h _ ih => simpa [h] using ih

theorem head (h : DigitRun p l) : ∃ d ds, l = d :: ds ∧ p d = true := by
  cases h with
  | one h => exact ⟨_, _, rfl, h⟩
  | digit h => exact ⟨_, _, rfl, h⟩
  | separated h => exact ⟨_, _, rfl, h⟩

theorem getLast? (hp : p '_' = false) (h : DigitRun p l) : l.getLast? ≠ some '_' := by
  have hne {d : Char} (hd : p d = true) : d ≠ '_' := by
    rintro rfl
    exact Bool.false_ne_true (hp.symm.trans hd)
  induction h with
  | one h => simpa using hne h
  | digit _ hds ih => rwa [List.getLast?_cons_of_ne_nil hds.ne_nil]
  | separated _ hds ih =>
    rwa [List.getLast?_cons_of_ne_nil (List.cons_ne_nil _ _),
      List.getLast?_cons_of_ne_nil hds.ne_nil]

theorem hasDoubleSeparator (hp : p '_' = false) (h : DigitRun p l) :
    Scan.hasDoubleSeparator l = false := by
  have hne {d : Char} (hd : p d = true) : d ≠ '_' := by
    rintro rfl
    exact Bool.false_ne_true (hp.symm.trans hd)
  induction h with
  | one h => simp [Scan.hasDoubleSeparator]
  | digit h _ ih => simpa [Scan.hasDoubleSeparator, hne h] using ih
  | separated h hds ih =>
    obtain ⟨d, ds, rfl, hd⟩ := hds.head
    simpa [Scan.hasDoubleSeparator, hne h, hne hd] using ih

end DigitRun

/-- Characters that pass the checks on separators, but for a leading one, are a run of digits. -/
theorem digitRun_of_checks {p : Char → Bool} {l : List Char}
    (hall : ∀ ch ∈ l, (p ch || ch == '_') = true) (hne : l ≠ []) (hlast : l.getLast? ≠ some '_')
    (hdouble : Scan.hasDoubleSeparator l = false) :
    DigitRun p l ∨ ∃ ds, l = '_' :: ds ∧ DigitRun p ds := by
  fun_induction Scan.hasDoubleSeparator l with
  | case1 rest => cases hdouble
  | case2 d ds hpair ih =>
    by_cases hds : ds = []
    · subst hds
      have hline : d ≠ '_' := by simpa using hlast
      exact .inl (.one (by simpa [hline] using hall d (by simp)))
    rw [List.getLast?_cons_of_ne_nil hds] at hlast
    have hrest := ih (fun ch hch => hall ch (by simp [hch])) hds hlast hdouble
    by_cases hline : d = '_'
    · obtain hrun | ⟨es, rfl, -⟩ := hrest
      · exact .inr ⟨ds, by rw [hline], hrun⟩
      · exact (hpair _ hline rfl).elim
    · have hd : p d = true := by simpa [hline] using hall d (by simp)
      obtain hrun | ⟨es, rfl, hrun⟩ := hrest
      · exact .inl (.digit hd hrun)
      · exact .inl (.separated hd hrun)
  | case3 => exact absurd rfl hne

/-- The characters between the quotes of a string: no bare line break and no bare quote. -/
inductive StringBody (quote : Char) : List Char → Prop
  | nil : StringBody quote []
  | plain {ch : Char} {body : List Char} (hslash : ch ≠ '\\') (hquote : ch ≠ quote)
    (hlf : ch ≠ '\n') (hcr : ch ≠ '\r') (h : StringBody quote body) : StringBody quote (ch :: body)
  | escape {ch : Char} {body : List Char} (h : StringBody quote body) :
    StringBody quote ('\\' :: ch :: body)
  | escapedBreak {body : List Char} (h : StringBody quote body) :
    StringBody quote ('\\' :: '\r' :: '\n' :: body)

theorem StringBody.stringLength {quote : Char} {body : List Char} (h : StringBody quote body)
    (hslash : quote ≠ '\\') (hlf : quote ≠ '\n') (hcr : quote ≠ '\r') (rest : List Char) :
    Scan.stringLength quote (body ++ quote :: rest) = (body.length + 1, true) := by
  induction h with
  | nil => simp [Scan.stringLength, hslash, hlf, hcr]
  | plain hslash' hquote hlf' hcr' _ ih =>
    simp [Scan.stringLength, hslash', hquote, hlf', hcr', ih]
  | @escape ch body h ih =>
    rw [List.cons_append, List.cons_append, Scan.stringLength, ih]
    · rfl
    · rintro tail rfl htail
      cases h <;> simp_all
  | escapedBreak _ ih =>
    rw [List.cons_append, List.cons_append, List.cons_append, Scan.stringLength, ih]
    rfl

theorem stringBody_of_stringLength {quote : Char} {l : List Char} {n : Nat}
    (h : Scan.stringLength quote l = (n, true)) :
    ∃ body rest, l = body ++ quote :: rest ∧ n = body.length + 1 ∧ StringBody quote body := by
  fun_induction Scan.stringLength quote l generalizing n with
  | case1 => simp at h
  | case2 => simp at h
  | case3 tail m closed hm ih =>
    cases h
    obtain ⟨body, rest, rfl, rfl, hbody⟩ := ih hm
    exact ⟨_, rest, rfl, rfl, .escapedBreak hbody⟩
  | case4 ch tail hch m closed hm ih =>
    cases h
    obtain ⟨body, rest, rfl, rfl, hbody⟩ := ih hm
    exact ⟨_, rest, rfl, rfl, .escape hbody⟩
  | case5 => simp at h
  | case6 tail =>
    cases h
    exact ⟨[], tail, rfl, rfl, .nil⟩
  | case7 ch tail _ _ hslash hbreak hquote m closed hm ih =>
    cases h
    obtain ⟨body, rest, rfl, rfl, hbody⟩ := ih hm
    rw [not_or] at hbreak
    refine ⟨ch :: body, rest, rfl, rfl, .plain ?_ hquote hbreak.1 hbreak.2 hbody⟩
    rintro rfl
    cases hrest : body ++ quote :: rest with
    | nil => simp at hrest
    | cons d ds => exact hslash d ds rfl hrest

/-- The fraction of a decimal literal, if it has one. -/
inductive FractionText : Bool → List Char → Prop
  | absent : FractionText false []
  | digits {ds : List Char} (h : ds = [] ∨ DigitRun Char.isDigit ds) : FractionText true ('.' :: ds)

/-- Digits with an optional sign. -/
inductive SignedText : List Char → Prop
  | unsigned {ds : List Char} (h : DigitRun Char.isDigit ds) : SignedText ds
  | plus {ds : List Char} (h : DigitRun Char.isDigit ds) : SignedText ('+' :: ds)
  | minus {ds : List Char} (h : DigitRun Char.isDigit ds) : SignedText ('-' :: ds)

/-- The exponent of a decimal literal, if it has one. -/
inductive ExponentText : Bool → List Char → Prop
  | absent : ExponentText false []
  | digits {mark : Char} {text : List Char} (hmark : mark = 'e' ∨ mark = 'E')
    (h : SignedText text) : ExponentText true (mark :: text)

/-- The mark at the end of a literal of a big integer. -/
inductive SuffixText : TokenKind → List Char → Prop
  | absent : SuffixText .numericLiteral []
  | big : SuffixText .bigIntLiteral ['n']

/-- The digits before the point of a decimal literal. Underscores do not go with a leading zero. -/
structure IntegerText (text : List Char) : Prop where
  digits : text = [] ∨ DigitRun Char.isDigit text
  plain : hasLeadingZero text = true → '_' ∉ text

/-- A leading zero and digits below eight. -/
def isOctalText (text : List Char) : Bool :=
  hasLeadingZero text && text.all (fun c => c < '8')

/-- The text after the digits before the point of a decimal literal. Only a plain integer may be
marked as a big one. -/
inductive DecimalRest (integer : List Char) : List Char → TokenKind → Prop
  | octal (hoctal : isOctalText integer = true) : DecimalRest integer [] .numericLiteral
  | decimal {fraction exponent suffix : List Char} {pointed raised : Bool} {kind : TokenKind}
    (hoctal : isOctalText integer = false) (hfraction : FractionText pointed fraction)
    (hexponent : ExponentText raised exponent) (hsuffix : SuffixText kind suffix)
    (hplain : kind = .bigIntLiteral → (!pointed && !raised && !hasLeadingZero integer) = true) :
    DecimalRest integer (fraction ++ (exponent ++ suffix)) kind

/-- The texts of numeric literals. -/
inductive NumberText : TokenKind → List Char → Prop
  | marked {text digits suffix : List Char} {radix : Nat} {kind : TokenKind}
    (hmark : splitRadix? text = some (radix, digits ++ suffix))
    (hdigits : DigitRun (isDigitIn radix) digits) (hsuffix : SuffixText kind suffix) :
    NumberText kind text
  | unmarked {integer rest : List Char} {kind : TokenKind}
    (hmark : splitRadix? (integer ++ rest) = none) (hinteger : IntegerText integer)
    (hrest : DecimalRest integer rest kind) : NumberText kind (integer ++ rest)

/-! ### Scans of literals -/

namespace Scan

variable {α β : Type} {follow : Char → Prop} {x : Scan α} {f : α → Scan β}
  {P : List Char → α → Prop} {Q : α → List Char → β → Prop}

/-- The text ends, or a character of the class comes next. -/
def Ahead (follow : Char → Prop) (rest : List Char) : Prop :=
  ∀ ch ∈ rest.head?, follow ch

theorem Ahead.mono {follow' : Char → Prop} {rest : List Char} (h : Ahead follow rest)
    (hsub : ∀ ch, follow ch → follow' ch) : Ahead follow' rest :=
  fun ch hch => hsub ch (h ch hch)

theorem Ahead.append {text rest : List Char} (htext : Ahead follow text)
    (hrest : Ahead follow rest) : Ahead follow (text ++ rest) := by
  cases text with
  | nil => exact hrest
  | cons ch text => exact htext

/-- A scan takes the texts of a language: what it moves past is such a text, and it does move past
such a text if the end or a character in `follow` comes after it. -/
structure Takes (follow : Char → Prop) (x : Scan α) (P : List Char → α → Prop) : Prop where
  sound : ∀ {c a c'}, x c = .ok a c' →
    ∃ text rest, c.rest = text ++ rest ∧ c' = c.advanceBy text.length ∧ P text a
  complete : ∀ {c : Cursor} {text rest a}, P text a → Ahead follow rest → c.rest = text ++ rest →
    x c = .ok a (c.advanceBy text.length)

theorem bind_eq_ok {c c' : Cursor} {b : β} (h : (x >>= f) c = .ok b c') :
    ∃ a c'', x c = .ok a c'' ∧ f a c'' = .ok b c' := by
  change EStateM.bind x f c = _ at h
  rw [EStateM.bind] at h
  split at h
  · next a c'' hx => exact ⟨a, c'', hx, h⟩
  · cases h

theorem Takes.conseq (h : Takes follow x P) {P' : List Char → α → Prop}
    (hP : ∀ text a, P text a ↔ P' text a) : Takes follow x P' :=
  (funext fun text => funext fun a => propext (hP text a) : P = P') ▸ h

theorem Takes.bind {first : Char → Prop} (hx : Takes first x P)
    (hf : ∀ {text a}, P text a → Takes follow (f a) (Q a))
    (hfirst : ∀ {text a b}, Q a text b → Ahead first text) (hsub : ∀ ch, follow ch → first ch) :
    Takes follow (x >>= f) fun text b => ∃ t₁ t₂ a, text = t₁ ++ t₂ ∧ P t₁ a ∧ Q a t₂ b := by
  constructor
  · intro c b c' h
    obtain ⟨a, c'', hxc, hfc⟩ := bind_eq_ok h
    obtain ⟨t₁, rest, hc, rfl, hP⟩ := hx.sound hxc
    obtain ⟨t₂, rest', hc', rfl, hQ⟩ := (hf hP).sound hfc
    rw [Cursor.advanceBy_rest, hc, List.drop_left] at hc'
    subst hc'
    refine ⟨t₁ ++ t₂, rest', by rw [hc, List.append_assoc], ?_, t₁, t₂, a, rfl, hP, hQ⟩
    rw [List.length_append, Cursor.advanceBy_add]
  · rintro c _ rest b ⟨t₁, t₂, a, rfl, hP, hQ⟩ hrest hc
    rw [List.append_assoc] at hc
    have hxc := hx.complete hP ((hfirst hQ).append (hrest.mono hsub)) hc
    rw [bind_ok hxc, (hf hP).complete hQ hrest (by rw [Cursor.advanceBy_rest, hc, List.drop_left]),
      List.length_append, Cursor.advanceBy_add]

theorem takes_pure (a : α) : Takes follow (pure a) fun text b => text = [] ∧ b = a := by
  constructor
  · intro c b c' h
    cases h
    exact ⟨[], c.rest, rfl, rfl, rfl, rfl⟩
  · rintro c _ rest _ ⟨rfl, rfl⟩ - -
    rfl

theorem takes_fail (kind : LexErrorKind) : Takes follow (fail kind : Scan α) fun _ _ => False where
  sound h := by cases h
  complete h := h.elim

theorem takes_fail_bind (kind : LexErrorKind) :
    Takes follow (fail kind >>= f) fun _ _ => False where
  sound h := by
    obtain ⟨a, c, hfail, -⟩ := bind_eq_ok h
    cases hfail
  complete h := h.elim

theorem takes_take {p : Char → Bool} (hp : ∀ ch, follow ch → p ch = false) :
    Takes follow (take p) fun text run => run = text ∧ ∀ ch ∈ text, p ch = true := by
  constructor
  · intro c run c' h
    cases h
    exact ⟨c.span p, c.rest.dropWhile p, (List.takeWhile_append_dropWhile).symm, rfl, rfl,
      fun ch hch => List.mem_takeWhile_imp hch⟩
  · rintro c _ rest run ⟨rfl, hall⟩ hrest hc
    have hspan : c.span p = run := by
      rw [Cursor.span, hc, List.takeWhile_append_of_pos hall]
      cases rest with
      | nil => simp
      | cons ch rest => simp [hp ch (hrest ch rfl)]
    rw [take_eq, hspan]

theorem Takes.eat {ch : Char} {f : Bool → Scan β} {P Q R : List Char → β → Prop}
    (htrue : Takes follow (f true) P) (hfalse : Takes follow (f false) Q)
    (hfirst : ∀ {text b}, Q text b → Ahead (· ≠ ch) text) (hsub : ∀ d, follow d → d ≠ ch)
    (hR : ∀ text b, R text b ↔ (∃ t, text = ch :: t ∧ P t b) ∨ Q text b) :
    Takes follow (eat ch >>= f) R := by
  have heat (c : Cursor) : (Scan.eat ch >>= f) c =
      if c.peek? == some ch then f true (c.advanceBy 1) else f false c := by
    by_cases hpeek : (c.peek? == some ch) = true
    · have hate : Scan.eat ch c = .ok true (c.advanceBy 1) := by
        rw [Scan.eat, get_bind, if_pos hpeek]
        rfl
      rw [if_pos hpeek, bind_ok hate]
    · have hate : Scan.eat ch c = .ok false c := by
        rw [Scan.eat, get_bind, if_neg hpeek]
        rfl
      rw [if_neg hpeek, bind_ok hate]
  constructor
  · intro c b c' h
    rw [heat] at h
    split at h
    · next hpeek =>
      obtain ⟨tail, hc⟩ : ∃ tail, c.rest = ch :: tail := by
        rwa [Cursor.peek?, beq_iff_eq, List.head?_eq_some_iff] at hpeek
      obtain ⟨t, rest, hc', rfl, hP⟩ := htrue.sound h
      rw [Cursor.advanceBy_rest, hc] at hc'
      refine ⟨ch :: t, rest, by rw [hc, List.cons_append, ← hc']; rfl, ?_,
        (hR _ _).2 (.inl ⟨t, rfl, hP⟩)⟩
      rw [List.length_cons, Nat.add_comm, Cursor.advanceBy_add]
    · obtain ⟨t, rest, hc', rfl, hQ⟩ := hfalse.sound h
      exact ⟨t, rest, hc', rfl, (hR _ _).2 (.inr hQ)⟩
  · intro c text rest b h hrest hc
    obtain ⟨t, rfl, hP⟩ | hQ := (hR _ _).1 h
    · have hpeek : (c.peek? == some ch) = true := by rw [Cursor.peek?, hc]; simp
      rw [heat, if_pos hpeek, htrue.complete hP hrest (by rw [Cursor.advanceBy_rest, hc]; rfl),
        List.length_cons, Nat.add_comm, Cursor.advanceBy_add]
    · have hpeek : ¬ (c.peek? == some ch) = true := by
        rw [Cursor.peek?, hc, beq_iff_eq]
        intro hhead
        exact (hfirst hQ).append (hrest.mono hsub) ch hhead rfl
      rw [heat, if_neg hpeek, hfalse.complete hQ hrest hc]

theorem takes_checkSeparators {p : Char → Bool} (hp : p '_' = false) {digits : List Char}
    (hall : ∀ ch ∈ digits, (p ch || ch == '_') = true) :
    Takes follow (checkSeparators digits) fun text _ => text = [] ∧ DigitRun p digits := by
  have hiff : DigitRun p digits ↔ digits.isEmpty = false ∧ (digits.head? == some '_' ||
      digits.getLast? == some '_' || hasDoubleSeparator digits) = false := by
    constructor
    · intro h
      obtain ⟨d, ds, rfl, hd⟩ := h.head
      have hline : d ≠ '_' := by
        rintro rfl
        exact Bool.false_ne_true (hp.symm.trans hd)
      have hlast := h.getLast? hp
      refine ⟨rfl, ?_⟩
      rw [h.hasDoubleSeparator hp, beq_false_of_ne hlast]
      simpa using hline
    · rintro ⟨hempty, hchecks⟩
      simp only [Bool.or_eq_false_iff, beq_eq_false_iff_ne] at hchecks
      obtain ⟨⟨hhead, hlast⟩, hdouble⟩ := hchecks
      obtain h | ⟨ds, rfl, -⟩ := digitRun_of_checks hall (by simpa using hempty) hlast hdouble
      · exact h
      · exact absurd rfl hhead
  rw [hiff]
  unfold checkSeparators
  cases digits.isEmpty with
  | true => exact (takes_fail _).conseq (by simp)
  | false =>
    cases digits.head? == some '_' || digits.getLast? == some '_' || hasDoubleSeparator digits with
    | true => exact (takes_fail _).conseq (by simp)
    | false => exact (takes_pure ()).conseq (by simp)

theorem Takes.run {p : Char → Bool} {g : List Char → Scan β} {Q : List Char → List Char → β → Prop}
    (hg : ∀ {ds}, (∀ ch ∈ ds, p ch = true) → Takes follow (g ds) (Q ds))
    (hall : ∀ {ds text b}, Q ds text b → ∀ ch ∈ ds, p ch = true)
    (hfirst : ∀ {ds text b}, Q ds text b → Ahead (fun ch => p ch = false) text)
    (hsub : ∀ ch, follow ch → p ch = false) :
    Takes follow (take p >>= g) fun text b => ∃ ds t, text = ds ++ t ∧ Q ds t b := by
  refine ((takes_take (fun ch hch => hch)).bind (fun h => hg (h.1 ▸ h.2)) hfirst hsub).conseq
    fun text b => ?_
  constructor
  · rintro ⟨ds, t, _, rfl, ⟨rfl, -⟩, hQ⟩
    exact ⟨_, t, rfl, hQ⟩
  · rintro ⟨ds, t, rfl, hQ⟩
    exact ⟨ds, t, ds, rfl, ⟨rfl, hall hQ⟩, hQ⟩

section

variable {p : Char → Bool} (hp : p '_' = false) {ds : List Char}
  (hall : ∀ ch ∈ ds, (p ch || ch == '_') = true) {k : Scan β} {Q : List Char → β → Prop}

include hp hall

theorem Takes.checked (hk : DigitRun p ds → Takes follow k Q) :
    Takes follow (checkSeparators ds >>= fun _ => k) fun text b => DigitRun p ds ∧ Q text b := by
  refine ((takes_checkSeparators hp hall : Takes (fun _ => True) _ _).bind (fun h => hk h.2)
    (fun _ _ _ => trivial) (fun _ _ => trivial)).conseq fun text b => ?_
  constructor
  · rintro ⟨_, t, _, rfl, ⟨rfl, hrun⟩, hQ⟩
    exact ⟨hrun, hQ⟩
  · rintro ⟨hrun, hQ⟩
    exact ⟨[], text, (), rfl, ⟨rfl, hrun⟩, hQ⟩

theorem Takes.checkedIf (hk : ds = [] ∨ DigitRun p ds → Takes follow k Q) :
    Takes follow (if (!ds.isEmpty) = true then checkSeparators ds >>= fun _ => k else k)
      fun text b => (ds = [] ∨ DigitRun p ds) ∧ Q text b := by
  by_cases hempty : ds = []
  · subst hempty
    exact (hk (.inl rfl)).conseq (by simp)
  · rw [if_pos (by simpa using hempty)]
    exact (Takes.checked hp hall fun hrun => hk (.inr hrun)).conseq (by simp [hempty])

end

theorem DigitRun.all_of_or {p : Char → Bool} {ds : List Char} (h : ds = [] ∨ DigitRun p ds) :
    ∀ ch ∈ ds, (p ch || ch == '_') = true := by
  rcases h with rfl | h
  · simp
  · exact h.all

theorem ahead_fraction {text : List Char} {b : Bool} (h : FractionText b text) :
    Ahead (· = '.') text := by
  cases h <;> simp [Ahead]

theorem ahead_exponent {text : List Char} {b : Bool} (h : ExponentText b text) :
    Ahead (fun ch => ch = 'e' ∨ ch = 'E') text := by
  cases h with
  | absent => simp [Ahead]
  | digits hmark => simpa [Ahead] using hmark

/-- The characters that come after a fraction. -/
def AfterFraction (ch : Char) : Prop :=
  ch ∈ ['e', 'E', 'n', ' ']

theorem AfterFraction.not_digit {ch : Char} (h : AfterFraction ch) :
    isDigitOrSeparator ch = false := by
  rw [AfterFraction] at h
  fin_cases h <;> rfl

theorem takes_fractionPart :
    Takes AfterFraction fractionPart fun text b => FractionText b text := by
  have hdigits : Takes AfterFraction (take isDigitOrSeparator >>= fun ds =>
      if (!ds.isEmpty) = true then checkSeparators ds >>= fun _ => pure true else pure true)
      fun text b => (text = [] ∨ DigitRun Char.isDigit text) ∧ b = true :=
    (Takes.run (fun hall => Takes.checkedIf (by decide) hall fun _ => takes_pure true)
      (fun h => DigitRun.all_of_or h.1) (fun h => by simp [h.2.1, Ahead])
      fun _ => AfterFraction.not_digit).conseq (by simp)
  refine Takes.eat (P := fun text b => (text = [] ∨ DigitRun Char.isDigit text) ∧ b = true)
    (Q := fun text b => text = [] ∧ b = false) hdigits (takes_pure false)
    (fun h => by simp [h.1, Ahead]) (by rintro ch h rfl; simp [AfterFraction] at h) fun text b => ?_
  constructor
  · rintro (_ | @⟨ds, hds⟩)
    · exact .inr ⟨rfl, rfl⟩
    · exact .inl ⟨ds, rfl, hds, rfl⟩
  · rintro (⟨ds, rfl, hds, rfl⟩ | ⟨rfl, rfl⟩)
    · exact .digits hds
    · exact .absent

theorem takes_signedDigits :
    Takes (· ∈ ['n', ' ']) signedDigits fun text _ => SignedText text := by
  have hdigits : Takes (· ∈ ['n', ' ']) (take isDigitOrSeparator >>= checkSeparators)
      fun text _ => DigitRun Char.isDigit text := by
    refine (Takes.run (fun hall => takes_checkSeparators (p := Char.isDigit) (by decide) hall)
      (fun h => h.2.all)
      (fun h => by simp [h.1, Ahead]) ?_).conseq (by simp)
    intro ch h
    fin_cases h <;> rfl
  have hfirst {ch : Char} (hch : ch.isDigit = false) {text : List Char}
      (h : DigitRun Char.isDigit text) : Ahead (· ≠ ch) text := by
    obtain ⟨d, ds, rfl, hd⟩ := h.head
    rintro _ ⟨⟩ rfl
    exact Bool.false_ne_true (hch.symm.trans hd)
  have hminus : Takes (· ∈ ['n', ' '])
      (eat '-' >>= fun _ => take isDigitOrSeparator >>= checkSeparators)
      fun text _ => (∃ ds, text = '-' :: ds ∧ DigitRun Char.isDigit ds) ∨
        DigitRun Char.isDigit text :=
    Takes.eat hdigits hdigits (hfirst (by decide)) (by rintro ch h rfl; simp at h) fun _ _ => .rfl
  refine Takes.eat hdigits hminus ?_ (by rintro ch h rfl; simp at h) fun text _ => ?_
  · rintro text - (⟨ds, rfl, -⟩ | hds)
    · simp [Ahead]
    · exact hfirst (by decide) hds
  · constructor
    · rintro (hds | hds | hds)
      · exact .inr (.inr hds)
      · exact .inl ⟨_, rfl, hds⟩
      · exact .inr (.inl ⟨_, rfl, hds⟩)
    · rintro (⟨ds, rfl, hds⟩ | ⟨ds, rfl, hds⟩ | hds)
      · exact .plus hds
      · exact .minus hds
      · exact .unsigned hds

theorem exponentPart_marked {c : Cursor} {mark : Char} {tail : List Char}
    (hc : c.rest = mark :: tail) (hmark : mark = 'e' ∨ mark = 'E') :
    exponentPart c = (signedDigits >>= fun _ => pure true) (c.advanceBy 1) := by
  rw [exponentPart, get_bind, Cursor.peek?, hc, List.head?_cons]
  exact (congrFun (if_pos hmark) c).trans rfl

theorem exponentPart_bare {c : Cursor} (hc : Ahead (fun ch => ¬ (ch = 'e' ∨ ch = 'E')) c.rest) :
    exponentPart c = .ok false c := by
  rw [exponentPart, get_bind, Cursor.peek?]
  cases hrest : c.rest with
  | nil => rfl
  | cons ch tail => exact (congrFun (if_neg (hc ch (by rw [hrest]; rfl))) c).trans rfl

/-- A text without a property of its next character has one with the opposite property. -/
theorem exists_of_not_ahead {follow : Char → Prop} {l : List Char}
    (h : ¬ Ahead (fun ch => ¬ follow ch) l) : ∃ ch tail, l = ch :: tail ∧ follow ch := by
  cases l with
  | nil => simp [Ahead] at h
  | cons ch tail => exact ⟨ch, tail, rfl, by simpa [Ahead] using h⟩

theorem takes_exponentPart :
    Takes (· ∈ ['n', ' ']) exponentPart fun text b => ExponentText b text := by
  constructor
  · intro c b c' h
    by_cases hc : Ahead (fun ch => ¬ (ch = 'e' ∨ ch = 'E')) c.rest
    · rw [exponentPart_bare hc] at h
      cases h
      exact ⟨[], c.rest, rfl, rfl, .absent⟩
    · obtain ⟨mark, tail, hrest, hmark⟩ := exists_of_not_ahead hc
      rw [exponentPart_marked hrest hmark] at h
      obtain ⟨_, c'', hdigits, hpure⟩ := bind_eq_ok h
      cases hpure
      obtain ⟨text, rest, hc', rfl, htext⟩ := takes_signedDigits.sound hdigits
      rw [Cursor.advanceBy_rest, hrest] at hc'
      refine ⟨mark :: text, rest, by rw [hrest, List.cons_append, ← hc']; rfl, ?_,
        .digits hmark htext⟩
      rw [List.length_cons, Nat.add_comm, Cursor.advanceBy_add]
  · rintro c _ rest _ (_ | ⟨hmark, htext⟩) hrest hc
    · refine exponentPart_bare fun ch hch => ?_
      have hnext : ch ∈ ['n', ' '] := hrest ch (by rwa [hc] at hch)
      fin_cases hnext <;> decide
    · rw [exponentPart_marked hc hmark, bind_ok (takes_signedDigits.complete (a := ()) htext hrest
        (by rw [Cursor.advanceBy_rest, hc]; rfl)), List.length_cons, Nat.add_comm,
        Cursor.advanceBy_add]
      rfl

theorem takes_suffix (plain : Bool) : Takes (· = ' ') (if plain = true then
      eat 'n' >>= fun b => if b = true then pure .bigIntLiteral else pure .numericLiteral
    else pure .numericLiteral)
    fun text kind => SuffixText kind text ∧ (kind = .bigIntLiteral → plain = true) := by
  have hiff (text : List Char) (kind : TokenKind) : SuffixText kind text ↔
      (∃ t, text = 'n' :: t ∧ t = [] ∧ kind = .bigIntLiteral) ∨
        text = [] ∧ kind = .numericLiteral := by
    constructor
    · rintro (_ | _) <;> simp
    · rintro (⟨_, rfl, rfl, rfl⟩ | ⟨rfl, rfl⟩)
      · exact .big
      · exact .absent
  cases plain with
  | false =>
    refine (takes_pure _).conseq fun text kind => ?_
    rw [hiff]
    aesop
  | true =>
    refine Takes.eat (takes_pure _) (takes_pure _) (fun h => by simp [h.1, Ahead])
      (by rintro ch rfl; decide) fun text kind => ?_
    rw [hiff]
    simp

theorem ahead_suffix {text : List Char} {kind : TokenKind} (h : SuffixText kind text) :
    Ahead (· ∈ ['n', ' ']) text := by
  cases h <;> simp [Ahead]

theorem ahead_exponent_suffix {exponent suffix : List Char} {raised : Bool} {kind : TokenKind}
    (hexponent : ExponentText raised exponent) (hsuffix : SuffixText kind suffix) :
    Ahead AfterFraction (exponent ++ suffix) := by
  refine ((ahead_exponent hexponent).mono ?_).append ((ahead_suffix hsuffix).mono ?_)
  · rintro ch (rfl | rfl) <;> simp [AfterFraction]
  · intro ch h
    simp at h
    rcases h with rfl | rfl <;> simp [AfterFraction]

theorem takes_decimalRest {integer : List Char} (hoctal : isOctalText integer = false) :
    Takes (· = ' ') (decimalRest (hasLeadingZero integer)) (DecimalRest integer) := by
  have hexponent (pointed : Bool) : Takes (· = ' ') (exponentPart >>= fun raised =>
      if (!pointed && !raised && !hasLeadingZero integer) = true then
        eat 'n' >>= fun b => if b = true then pure .bigIntLiteral else pure .numericLiteral
      else pure .numericLiteral) fun text kind => ∃ exponent suffix raised,
        text = exponent ++ suffix ∧ ExponentText raised exponent ∧ SuffixText kind suffix ∧
        (kind = .bigIntLiteral → (!pointed && !raised && !hasLeadingZero integer) = true) :=
    takes_exponentPart.bind (fun _ => takes_suffix _) (fun h => ahead_suffix h.1) (by simp)
  refine Takes.conseq (takes_fractionPart.bind (fun _ => hexponent _) ?_ ?_) fun text kind => ?_
  · rintro _ pointed kind ⟨exponent, suffix, raised, rfl, hexponent, hsuffix, -⟩
    exact ahead_exponent_suffix hexponent hsuffix
  · rintro ch rfl
    simp [AfterFraction]
  · constructor
    · rintro ⟨fraction, _, pointed, rfl, hfraction, exponent, suffix, raised, rfl, hexponent,
        hsuffix, hplain⟩
      exact .decimal hoctal hfraction hexponent hsuffix hplain
    · rintro (hoctal' | ⟨-, hfraction, hexponent, hsuffix, hplain⟩)
      · exact absurd hoctal' (by simp [hoctal])
      · exact ⟨_, _, _, rfl, hfraction, _, _, _, rfl, hexponent, hsuffix, hplain⟩

theorem takes_decimalLiteral : Takes (· = ' ') decimalLiteral fun text kind =>
    ∃ integer rest, text = integer ++ rest ∧ IntegerText integer ∧
      DecimalRest integer rest kind := by
  have hrest (integer : List Char) : Takes (· = ' ')
      (if isOctalText integer = true then pure .numericLiteral
        else decimalRest (hasLeadingZero integer)) (DecimalRest integer) := by
    cases hoctal : isOctalText integer with
    | true =>
      rw [if_pos rfl]
      refine (takes_pure _).conseq fun text kind => ?_
      constructor
      · rintro ⟨rfl, rfl⟩
        exact .octal hoctal
      · rintro (- | ⟨hoctal', -⟩)
        · exact ⟨rfl, rfl⟩
        · exact absurd hoctal (by simp [hoctal'])
    | false =>
      rw [if_neg Bool.false_ne_true]
      exact takes_decimalRest hoctal
  unfold decimalLiteral
  refine Takes.run ?_ ?_ ?_ ?_
  · intro integer hall
    dsimp only
    by_cases hplain : (hasLeadingZero integer && integer.contains '_') = true
    · rw [if_pos hplain]
      refine (takes_fail_bind _).conseq fun text kind => ⟨False.elim, fun h => ?_⟩
      simp only [Bool.and_eq_true, List.contains_iff_mem] at hplain
      exact h.1.plain hplain.1 hplain.2
    · rw [if_neg hplain]
      refine Takes.conseq (Takes.checkedIf (by decide) hall fun _ => hrest integer)
        fun text kind => ?_
      simp only [Bool.and_eq_true, List.contains_iff_mem, not_and] at hplain
      exact and_congr_left fun _ => ⟨fun h => ⟨h, hplain⟩, IntegerText.digits⟩
  · rintro integer text kind ⟨hinteger, -⟩
    exact DigitRun.all_of_or hinteger.digits
  · rintro integer _ kind ⟨-, hoctal | ⟨-, hfraction, hexponent, hsuffix, -⟩⟩
    · simp [Ahead]
    · refine ((ahead_fraction hfraction).mono ?_).append
        ((ahead_exponent_suffix hexponent hsuffix).mono fun _ => AfterFraction.not_digit)
      rintro ch rfl
      rfl
  · rintro ch rfl
    rfl

theorem isDigitIn_separator (radix : Nat) : isDigitIn radix '_' = false := by
  rfl

theorem splitRadix?_eq_some {text rest : List Char} {radix : Nat}
    (h : splitRadix? text = some (radix, rest)) : ∃ mark, text = '0' :: mark :: rest ∧
      mark ≠ ' ' ∧ isDigitIn radix 'n' = false ∧ isDigitIn radix ' ' = false ∧
      ∀ tail, splitRadix? ('0' :: mark :: tail) = some (radix, tail) := by
  unfold splitRadix? at h
  split at h
  · next mark tail =>
    split_ifs at h with hx ho hb
    all_goals
      cases h
      refine ⟨mark, rfl, ?_, by decide, by decide, fun tail => by simp [splitRadix?, *]⟩
      rintro rfl
      simp at *
  · cases h

theorem takes_radixDigits {radix : Nat} (hn : isDigitIn radix 'n' = false)
    (hspace : isDigitIn radix ' ' = false) :
    Takes (· = ' ') (take (fun c => isDigitIn radix c || c == '_') >>= fun digits =>
      checkSeparators digits >>= fun _ =>
        eat 'n' >>= fun b => if b = true then pure .bigIntLiteral else pure .numericLiteral)
      fun text kind => ∃ digits suffix, text = digits ++ suffix ∧
        DigitRun (isDigitIn radix) digits ∧ SuffixText kind suffix := by
  refine (Takes.run (fun hall => Takes.checked (isDigitIn_separator radix) hall fun _ =>
    takes_suffix true) (fun h => h.1.all) (fun h => ?_) ?_).conseq (by simp)
  · intro ch hch
    have hfirst : ch ∈ ['n', ' '] := ahead_suffix h.2.1 ch hch
    fin_cases hfirst <;> simp [hn, hspace]
  · rintro ch rfl
    simp [hspace]

/-- Neither a digit nor the start of an identifier comes after a number. -/
theorem Takes.numberEnd [XidTable] {x : Scan TokenKind} {P : List Char → TokenKind → Prop}
    (hx : Takes (· = ' ') x P) : Takes (· = ' ') (x >>= fun kind => get >>= fun c =>
      if (c.peek?.any fun ch => isIdentifierStart ch || ch.isDigit) = true then
        (fail .invalidNumber : Scan Unit) >>= fun _ => pure kind
      else pure kind) P := by
  have hend (kind : TokenKind) : Takes (· = ' ') (get >>= fun c =>
      if (c.peek?.any fun ch => isIdentifierStart ch || ch.isDigit) = true then
        (fail .invalidNumber : Scan Unit) >>= fun _ => pure kind
      else pure kind) fun text k => text = [] ∧ k = kind := by
    constructor
    · intro c k c' h
      rw [get_bind] at h
      split at h
      · obtain ⟨_, _, _, _, hfalse⟩ := (takes_fail_bind _ : Takes (fun _ => True) _ _).sound h
        exact hfalse.elim
      · exact (takes_pure kind : Takes (fun _ => True) _ _).sound h
    · rintro c _ rest _ ⟨rfl, rfl⟩ hrest hc
      rw [get_bind, if_neg]
      · rfl
      · rw [Cursor.peek?, hc, List.nil_append]
        cases hhead : rest.head? with
        | none => simp
        | some ch =>
          rw [hrest ch hhead]
          exact Bool.false_ne_true
  refine (hx.bind (fun _ => hend _) (fun h => by simp [h.1, Ahead]) fun _ h => h).conseq
    fun text kind => ?_
  constructor
  · rintro ⟨t, _, _, rfl, hP, rfl, rfl⟩
    rwa [List.append_nil]
  · intro hP
    exact ⟨text, [], kind, by simp, hP, rfl, rfl⟩

theorem splitRadix?_append_of_some {text rest tail : List Char} {radix : Nat}
    (h : splitRadix? text = some (radix, tail)) :
    splitRadix? (text ++ rest) = some (radix, tail ++ rest) := by
  obtain ⟨mark, rfl, -, -, -, hsplits⟩ := splitRadix?_eq_some h
  exact hsplits _

theorem splitRadix?_append_of_none {text rest : List Char} (h : splitRadix? text = none)
    (hrest : Ahead (· = ' ') rest) : splitRadix? (text ++ rest) = none := by
  cases hsplit : splitRadix? (text ++ rest) with
  | none => rfl
  | some split =>
    obtain ⟨mark, htext, hmark, -, -, hsplits⟩ := splitRadix?_eq_some hsplit
    match text with
    | [] => exact absurd (hrest '0' (by rw [← List.nil_append rest, htext]; rfl)) (by decide)
    | [ch] =>
      obtain ⟨rfl, rfl⟩ := List.cons.inj htext
      exact absurd (hrest mark rfl) hmark
    | _ :: _ :: text =>
      simp only [List.cons_append, List.cons.injEq] at htext
      obtain ⟨rfl, rfl, -⟩ := htext
      rw [hsplits] at h
      cases h

theorem takes_numericLiteral [XidTable] :
    Takes (· = ' ') numericLiteral fun text kind => NumberText kind text := by
  constructor
  · intro c kind c' h
    rw [numericLiteral, get_bind] at h
    cases hsplit : splitRadix? c.rest with
    | none =>
      rw [hsplit] at h
      obtain ⟨_, rest, hc, rfl, integer, more, rfl, hinteger, hmore⟩ :=
        takes_decimalLiteral.numberEnd.sound h
      refine ⟨_, rest, hc, rfl, .unmarked ?_ hinteger hmore⟩
      cases htext : splitRadix? (integer ++ more) with
      | none => rfl
      | some split =>
        rw [hc, splitRadix?_append_of_some htext] at hsplit
        cases hsplit
    | some split =>
      obtain ⟨radix, tail⟩ := split
      rw [hsplit] at h
      obtain ⟨mark, hmark, -, hn, hspace, hsplits⟩ := splitRadix?_eq_some hsplit
      obtain ⟨_, rest, hc, rfl, digits, suffix, rfl, hdigits, hsuffix⟩ :=
        (takes_radixDigits hn hspace).numberEnd.sound (c := c.advanceBy 2) h
      rw [Cursor.advanceBy_rest, hmark] at hc
      refine ⟨'0' :: mark :: (digits ++ suffix), rest, ?_, ?_, .marked (hsplits _) hdigits hsuffix⟩
      · rw [hmark, List.cons_append, List.cons_append, ← hc]
        rfl
      · rw [← Cursor.advanceBy_add, Nat.add_comm]
        rfl
  · intro c text rest kind h hrest hc
    rw [numericLiteral, get_bind]
    cases h with
    | unmarked hmark hinteger hmore =>
      rw [hc, splitRadix?_append_of_none hmark hrest]
      exact takes_decimalLiteral.numberEnd.complete ⟨_, _, rfl, hinteger, hmore⟩ hrest hc
    | @marked _ digits suffix radix _ hmark hdigits hsuffix =>
      obtain ⟨mark, rfl, -, hn, hspace, -⟩ := splitRadix?_eq_some hmark
      rw [hc, splitRadix?_append_of_some hmark, List.length_cons, List.length_cons, Nat.add_assoc,
        Nat.add_comm, Cursor.advanceBy_add]
      exact (takes_radixDigits hn hspace).numberEnd.complete ⟨digits, suffix, rfl, hdigits, hsuffix⟩
        hrest (by rw [Cursor.advanceBy_rest, hc]; rfl)

end Scan

end Ecma
