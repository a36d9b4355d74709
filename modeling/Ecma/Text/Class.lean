import Ecma.Text.Xid

/-! Character classes of source text: white space, line terminators and the characters of
identifiers. -/

namespace Ecma

/-- A number lies in one of the closed ranges. -/
def inRanges (ranges : List (Nat × Nat)) (n : Nat) : Bool :=
  ranges.any fun r => decide (r.1 ≤ n) && decide (n ≤ r.2)

/-- No range of one list meets one of the other. -/
def disjointRanges (ranges ranges' : List (Nat × Nat)) : Bool :=
  ranges.all fun r => ranges'.all fun r' => decide (r'.2 < r.1) || decide (r.2 < r'.1)

theorem inRanges_eq_false {ranges ranges' : List (Nat × Nat)} {n : Nat}
    (h : disjointRanges ranges ranges' = true) (hn : inRanges ranges n = true) :
    inRanges ranges' n = false := by
  obtain ⟨r, hr, hin⟩ := List.any_eq_true.1 hn
  rw [inRanges, List.any_eq_false]
  intro r' hr'
  have := List.all_eq_true.1 (List.all_eq_true.1 h r hr) r' hr'
  simp at this hin ⊢
  omega

/-- The characters that end a line: LF, CR, LS and PS. -/
def isLineTerminator (c : Char) : Bool :=
  c == '\n' || c == '\r' || c == '\u2028' || c == '\u2029'

/-- White space: TAB, VT, FF, the byte order mark and the space separators of Unicode. -/
def isWhitespace (c : Char) : Bool :=
  c == '\t' || c == '\x0b' || c == '\x0c' || c == '\uFEFF' || c == ' ' || c == '\u00A0' ||
    c == '\u1680' || ('\u2000' ≤ c && c ≤ '\u200A') || c == '\u202F' || c == '\u205F' ||
    c == '\u3000'

/-- The characters with the Unicode property `White_Space`, which are trimmed from a line of
input. -/
def isSpace (c : Char) : Bool :=
  ('\t' ≤ c && c ≤ '\r') || c == ' ' || c == '\u0085' || c == '\u00A0' || c == '\u1680' ||
    ('\u2000' ≤ c && c ≤ '\u200A') || c == '\u2028' || c == '\u2029' || c == '\u202F' ||
    c == '\u205F' || c == '\u3000'

/-- ASCII letters and digits are classified without a table. -/
def isAscii (c : Char) : Bool :=
  c.toNat < 128

/-- The characters that are trimmed from the ends of a numeric string: some that are listed, and of
the others those with the property `White_Space` that are neither ASCII nor NEL. -/
def isBlank (c : Char) : Bool :=
  c == '\t' || c == '\x0b' || c == '\x0c' || c == ' ' || c == '\u00A0' || c == '\uFEFF' ||
    c == '\n' || c == '\r' || c == '\u2028' || c == '\u2029' ||
    (c != '\u0085' && isSpace c && !isAscii c)

/-- The tables of the Unicode properties `XID_Start` and `XID_Continue`: the first is contained in
the second, which has neither white space nor line terminators. -/
class XidTable where
  start : Char → Bool
  inside : Char → Bool
  inside_of_start {c : Char} (h : start c = true) : inside c = true
  isWhitespace_of_inside {c : Char} (h : inside c = true) : isWhitespace c = false
  isLineTerminator_of_inside {c : Char} (h : inside c = true) : isLineTerminator c = false

/-- The white space and the line terminators, as ranges. -/
def blankRanges : List (Nat × Nat) :=
  [(0x9, 0xD), (0x20, 0x20), (0xA0, 0xA0), (0x1680, 0x1680), (0x2000, 0x200A), (0x2028, 0x2029),
   (0x202F, 0x202F), (0x205F, 0x205F), (0x3000, 0x3000), (0xFEFF, 0xFEFF)]

theorem inRanges_blankRanges {c : Char}
    (h : isWhitespace c = true ∨ isLineTerminator c = true) :
    inRanges blankRanges c.toNat = true := by
  have hle {c d : Char} : c ≤ d ↔ c.toNat ≤ d.toNat := Iff.rfl
  simp only [isWhitespace, isLineTerminator, Bool.or_eq_true, Bool.and_eq_true, beq_iff_eq,
    decide_eq_true_eq, ← Char.toNat_inj, hle, Char.reduceToNat] at h
  simp only [inRanges, blankRanges, List.any_cons, List.any_nil, Bool.or_false, Bool.or_eq_true,
    Bool.and_eq_true, decide_eq_true_eq]
  omega

theorem not_blank_of_xid {c : Char}
    (h : (inRanges XidStart.ranges c.toNat || inRanges XidContinue.ranges c.toNat) = true) :
    ¬(isWhitespace c = true ∨ isLineTerminator c = true) := by
  intro hblank
  have hranges : inRanges blankRanges c.toNat = false := by
    rcases Bool.or_eq_true_iff.mp h with h | h
    · exact inRanges_eq_false (by decide +kernel) h
    · exact inRanges_eq_false (by decide +kernel) h
  exact Bool.false_ne_true (hranges.symm.trans (inRanges_blankRanges hblank))

/-- The tables that source text is read with. -/
instance XidTable.unicode : XidTable where
  start c := inRanges XidStart.ranges c.toNat
  inside c := inRanges XidStart.ranges c.toNat || inRanges XidContinue.ranges c.toNat
  inside_of_start h := by rw [h, Bool.true_or]
  isWhitespace_of_inside h := Bool.eq_false_iff.mpr fun hc => not_blank_of_xid h (.inl hc)
  isLineTerminator_of_inside h := Bool.eq_false_iff.mpr fun hc => not_blank_of_xid h (.inr hc)

/-- The code points with the property `ID_Start` that `XID_Start` leaves out, since their
compatibility forms are no identifiers. -/
def idNotXid : List (Nat × Nat) :=
  [(0x37A, 0x37A), (0xE33, 0xE33), (0xEB3, 0xEB3), (0x309B, 0x309C), (0xFC5E, 0xFC63),
   (0xFDFA, 0xFDFB), (0xFE70, 0xFE70), (0xFE72, 0xFE72), (0xFE74, 0xFE74), (0xFE76, 0xFE76),
   (0xFE78, 0xFE78), (0xFE7A, 0xFE7A), (0xFE7C, 0xFE7C), (0xFE7E, 0xFE7E), (0xFF9E, 0xFF9F)]

/-- The characters that may start an identifier. -/
def isIdentifierStart [XidTable] (c : Char) : Bool :=
  c == '_' || c == '$' || c.isAlpha ||
    (!isAscii c && (XidTable.start c || inRanges idNotXid c.toNat))

/-- The characters that may stand inside an identifier. -/
def isIdentifierContinue [XidTable] (c : Char) : Bool :=
  c == '_' || c == '$' || c.isAlphanum || c == '\u200C' || c == '\u200D' ||
    (!isAscii c && (XidTable.inside c || inRanges idNotXid c.toNat))

/-- Drops the characters of a class from both ends. -/
def trimBoth (p : Char → Bool) (text : List Char) : List Char :=
  ((text.dropWhile p).reverse.dropWhile p).reverse

end Ecma
