import DocRef.Text.Blank
import DocRef.Text.Digits
import DocRef.Text.Identifier
import DocRef.Arity

/-!
How the classes of characters lie to each other: white space begins no identifier, digits may stand
in one, and the tick and the characters of punctuation may not. From them names are made: identifiers
with their markers.
-/

namespace DocRef

/-- The code points of ranges, one by one. -/
def CharRange.codes (ranges : List CharRange) : List Nat :=
  ranges.flatMap fun range => List.range' range.1 (range.2 + 1 - range.1)

theorem CharRange.mem_codes_of_anyContains {ranges : List CharRange} {code : Nat}
    (h : anyContains ranges code = true) : code ∈ codes ranges := by
  induction ranges with
  | nil => cases h
  | cons range ranges ih =>
    obtain ⟨first, last⟩ := range
    rw [anyContains] at h
    rw [codes, List.flatMap_cons, List.mem_append, List.mem_range'_1]
    split at h
    · cases h
    · split at h
      · left
        omega
      · exact Or.inr (ih h)

theorem not_isAlphabetic_of_isBlank {c : Char} (h : isBlank c = true) : isAlphabetic c = false := by
  have hcodes : ∀ code ∈ CharRange.codes blankRanges,
      CharRange.anyContains alphabeticRanges code = false := by
    decide +kernel
  exact hcodes c.toNat (CharRange.mem_codes_of_anyContains h)

theorem not_isNumeric_of_isBlank {c : Char} (h : isBlank c = true) : isNumeric c = false := by
  have hcodes : ∀ code ∈ CharRange.codes blankRanges,
      CharRange.anyContains numericRanges code = false := by
    decide +kernel
  exact hcodes c.toNat (CharRange.mem_codes_of_anyContains h)

theorem not_isBlank_of_inIdentifier {c : Char} (h : inIdentifier c = true) : isBlank c = false := by
  rw [← Bool.not_eq_true]
  intro hblank
  rw [inIdentifier, not_isAlphabetic_of_isBlank hblank, not_isNumeric_of_isBlank hblank,
    Bool.or_false, Bool.false_or, Bool.or_eq_true, beq_iff_eq, beq_iff_eq] at h
  rcases h with rfl | rfl
  · exact absurd hblank (by decide)
  · exact absurd hblank (by decide)

theorem inIdentifier_of_startsIdentifier {c : Char} (h : startsIdentifier c = true) :
    inIdentifier c = true := by
  simp only [startsIdentifier, inIdentifier, Bool.or_eq_true] at h ⊢
  rcases h with (h | h) | h
  · exact .inl (.inl (.inl h))
  · exact .inl (.inr h)
  · exact .inr h

theorem not_isBlank_of_startsIdentifier {c : Char} (h : startsIdentifier c = true) :
    isBlank c = false :=
  not_isBlank_of_inIdentifier (inIdentifier_of_startsIdentifier h)

theorem isDigit_iff {c : Char} : isDigit c = true ↔ 48 ≤ c.toNat ∧ c.toNat ≤ 57 := by
  rw [isDigit, Bool.and_eq_true, decide_eq_true_eq, decide_eq_true_eq]
  exact Iff.rfl

theorem inIdentifier_of_isDigit {c : Char} (h : isDigit c = true) : inIdentifier c = true := by
  have hcodes : ∀ code ∈ List.range' 48 10, CharRange.anyContains numericRanges code = true := by
    decide
  have hnumeric : isNumeric c = true := by
    obtain ⟨hlow, hhigh⟩ := isDigit_iff.mp h
    exact hcodes c.toNat (List.mem_range'_1.mpr (by omega))
  rw [inIdentifier, hnumeric, Bool.or_true]
  rfl

theorem not_startsIdentifier_of_isDigit {c : Char} (h : isDigit c = true) :
    startsIdentifier c = false := by
  have hcodes : ∀ code ∈ List.range' 48 10,
      CharRange.anyContains alphabeticRanges code = false := by
    decide
  obtain ⟨hlow, hhigh⟩ := isDigit_iff.mp h
  have halphabetic : isAlphabetic c = false := hcodes c.toNat (List.mem_range'_1.mpr (by omega))
  rw [← Bool.not_eq_true]
  intro hstarts
  rw [startsIdentifier, halphabetic, Bool.false_or, Bool.or_eq_true, beq_iff_eq, beq_iff_eq]
    at hstarts
  rcases hstarts with rfl | rfl
  · exact absurd h (by decide)
  · exact absurd h (by decide)

theorem not_inIdentifier_tick : inIdentifier tick = false := by
  decide

theorem ne_tick_of_inIdentifier {c : Char} (h : inIdentifier c = true) : c ≠ tick := by
  rintro rfl
  rw [not_inIdentifier_tick] at h
  cases h

namespace Text

/-- Whether a text is an identifier. -/
def IsIdentifier (text : Text) : Prop :=
  ∃ first rest, text = first :: rest ∧ startsIdentifier first = true ∧
    ∀ c ∈ rest, inIdentifier c = true

theorem IsIdentifier.notMem {text : Text} (h : text.IsIdentifier) {c : Char}
    (hc : inIdentifier c = false) : c ∉ text := by
  obtain ⟨first, rest, rfl, hfirst, hrest⟩ := h
  have hin : ∀ d ∈ first :: rest, inIdentifier d = true :=
    List.forall_mem_cons.mpr ⟨inIdentifier_of_startsIdentifier hfirst, hrest⟩
  intro hmem
  rw [hin c hmem] at hc
  cases hc

theorem IsIdentifier.tick_notMem {text : Text} (h : text.IsIdentifier) : tick ∉ text :=
  h.notMem not_inIdentifier_tick

/-- Whether a text is one or two ticks with digits after them, or empty. -/
def IsMarker (text : Text) : Prop :=
  text = [] ∨ ∃ digits : Text, digits ≠ [] ∧ (∀ c ∈ digits, isDigit c = true) ∧
    (text = tick :: digits ∨ text = tick :: tick :: digits)

/-- Whether a text is an identifier with its marker, if it has one. -/
def IsName (text : Text) : Prop :=
  ∃ stem marker, text = stem ++ marker ∧ IsIdentifier stem ∧ IsMarker marker

/-- Besides ticks, a name has only characters of identifiers. -/
theorem IsName.notMem {text : Text} (h : text.IsName) {c : Char} (hc : inIdentifier c = false)
    (htick : c ≠ tick) : c ∉ text := by
  obtain ⟨stem, marker, rfl, hstem, hmarker⟩ := h
  rw [List.mem_append, not_or]
  refine ⟨hstem.notMem hc, ?_⟩
  rcases hmarker with rfl | ⟨digits, -, hdigits, hmarker⟩
  · exact List.not_mem_nil
  · have hnot : c ∉ digits := by
      intro hmem
      rw [inIdentifier_of_isDigit (hdigits c hmem)] at hc
      cases hc
    rcases hmarker with rfl | rfl
    · simp [htick, hnot]
    · simp [htick, hnot]

/-! ### Decimal numbers -/

theorem isDigit_of_mem_decimal {n : Nat} {c : Char} (h : c ∈ decimal n) : isDigit c = true := by
  have hdigit := Nat.isDigit_of_mem_toDigits (by decide) (by decide) h
  rw [Char.isDigit, Bool.and_eq_true, decide_eq_true_eq, decide_eq_true_eq] at hdigit
  exact isDigit_iff.mpr hdigit

theorem decimal_ne_nil (n : Nat) : decimal n ≠ [] :=
  Nat.toDigits_ne_nil

theorem number_decimal (n : Nat) : (decimal n).number = n :=
  Nat.ofDigitChars_ten_toDigits

end Text

end DocRef
