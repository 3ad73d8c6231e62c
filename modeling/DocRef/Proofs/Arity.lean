import DocRef.Catalog.Loading
import DocRef.Proofs.Text.Characters
import DocRef.Proofs.Text.Parts
import Mathlib.Data.List.Basic

/-!
Arity markers: how they are split off names that have one and names that have none, and how many
parameters the markers in the segments of a full name declare together.
-/

namespace DocRef

/-! ### Splitting off -/

/-- A name that ends in an identifier has no marker. -/
theorem splitArity_identifier (before : Text) {stem : Text} (h : stem.IsIdentifier) :
    splitArity (before ++ stem) = (before ++ stem, .none) := by
  obtain ⟨first, rest, rfl, hfirst, hrest⟩ := h
  have hreverse : (before ++ first :: rest).reverse = rest.reverse ++ first :: before.reverse := by
    rw [List.reverse_append, List.reverse_cons, List.append_assoc, List.singleton_append]
  have hdigit : isDigit first = false := by
    rw [← Bool.not_eq_true]
    intro hdigit
    rw [not_startsIdentifier_of_isDigit hdigit] at hfirst
    cases hfirst
  have hdrop : ∃ mark after, (before ++ first :: rest).reverse.dropWhile isDigit = mark :: after ∧
      mark ≠ tick := by
    rw [hreverse, List.dropWhile_append]
    split
    · rw [List.dropWhile_cons_of_neg (by rw [hdigit]; exact Bool.false_ne_true)]
      exact ⟨first, _, rfl, ne_tick_of_inIdentifier (inIdentifier_of_startsIdentifier hfirst)⟩
    · next hne =>
      obtain ⟨mark, after, heq⟩ := List.exists_cons_of_ne_nil
        (fun hnil => hne (List.isEmpty_iff.mpr hnil) : rest.reverse.dropWhile isDigit ≠ [])
      have hmark : mark ∈ rest.reverse.dropWhile isDigit := by
        rw [heq]
        exact List.mem_cons_self
      have hmem : mark ∈ rest := List.mem_reverse.mp ((List.dropWhile_sublist _).mem hmark)
      exact ⟨mark, _, by rw [heq]; rfl, ne_tick_of_inIdentifier (hrest mark hmem)⟩
  obtain ⟨mark, after, hdrop, hmark⟩ := hdrop
  rw [splitArity, hdrop]
  simp only [hmark, ne_eq, not_false_eq_true, true_or, if_true]

theorem splitArity_of_identifier {stem : Text} (h : stem.IsIdentifier) :
    splitArity stem = (stem, .none) :=
  splitArity_identifier [] h

section Numeral

variable {digits : Text} (hne : digits ≠ []) (hdigits : ∀ c ∈ digits, isDigit c = true)

include hdigits

/-- The digits of a marker are told apart from what stands before its last tick. -/
theorem reverse_marker (before : Text) :
    (before ++ tick :: digits).reverse.takeWhile isDigit = digits.reverse ∧
      (before ++ tick :: digits).reverse.dropWhile isDigit = tick :: before.reverse := by
  have hreverse : (before ++ tick :: digits).reverse = digits.reverse ++ tick :: before.reverse := by
    rw [List.reverse_append, List.reverse_cons, List.append_assoc, List.singleton_append]
  rw [hreverse]
  refine Text.takeWhile_append_of_stop ?_ ?_
  · exact fun c hc => hdigits c (List.mem_reverse.mp hc)
  · intro c hc
    cases hc
    decide

include hne

/-- One tick and a number behind a text are the marker of a type, unless the text ends in a tick. -/
theorem splitArity_tick {stem : Text} (hstem : stem.getLast? ≠ some tick)
    (hmax : digits.number ≤ maxArity) :
    splitArity (stem ++ tick :: digits) = (stem, .type digits.number) := by
  obtain ⟨htake, hdrop⟩ := reverse_marker hdigits stem
  rw [splitArity, htake, hdrop]
  simp only [List.reverse_reverse, hne, ne_eq, not_true_eq_false, false_or, Nat.not_lt.mpr hmax,
    if_false]
  split
  · next hreverse => rw [List.reverse_eq_nil_iff.mp hreverse]
  · next c rest hreverse =>
    rw [← List.head?_reverse, hreverse] at hstem
    rw [if_neg fun heq : c = tick => hstem (congrArg some heq)]

/-- Two ticks and a number are the marker of a method. -/
theorem splitArity_ticks (stem : Text) (hmax : digits.number ≤ maxArity) :
    splitArity (stem ++ tick :: tick :: digits) = (stem, .method digits.number) := by
  have happend : stem ++ tick :: tick :: digits = (stem ++ [tick]) ++ tick :: digits := by
    rw [List.append_assoc, List.singleton_append]
  obtain ⟨htake, hdrop⟩ := reverse_marker hdigits (stem ++ [tick])
  rw [happend, splitArity, htake, hdrop]
  simp only [List.reverse_reverse, hne, ne_eq, not_true_eq_false, false_or, Nat.not_lt.mpr hmax,
    if_false, List.reverse_append, List.reverse_singleton, List.singleton_append, if_true]

omit hne in
/-- A number that is too large is no marker. -/
theorem splitArity_overflow (before : Text) (hmax : maxArity < digits.number) :
    splitArity (before ++ tick :: digits) = (before ++ tick :: digits, .none) := by
  obtain ⟨htake, hdrop⟩ := reverse_marker hdigits before
  rw [splitArity, htake, hdrop]
  simp only [List.reverse_reverse, hmax, or_true, if_true]

end Numeral

section Marked

variable {stem : Text} {count : Nat}

/-- The marker at the end of an identifier is split off, also where the identifier ends a longer
name. -/
theorem splitArity_marked (before : Text) (hstem : stem.IsIdentifier) (hcount : count ≤ maxArity) :
    splitArity (before ++ stem ++ tick :: Text.decimal count) = (before ++ stem, .type count) := by
  have hnumber := Text.number_decimal count
  have hlast : (before ++ stem).getLast? ≠ some tick := by
    intro hlast
    have hne : stem ≠ [] := by
      obtain ⟨first, others, rfl, -, -⟩ := hstem
      exact List.cons_ne_nil first others
    rw [List.getLast?_append_of_ne_nil before hne] at hlast
    exact hstem.tick_notMem (List.mem_of_getLast? hlast)
  have hsplit := splitArity_tick (Text.decimal_ne_nil count) (fun c => Text.isDigit_of_mem_decimal)
    hlast (hnumber.symm ▸ hcount)
  rwa [hnumber] at hsplit

theorem splitArity_type (hstem : stem.IsIdentifier) (hcount : count ≤ maxArity) :
    splitArity (stem ++ tick :: Text.decimal count) = (stem, .type count) :=
  splitArity_marked [] hstem hcount

theorem splitArity_method (stem : Text) (hcount : count ≤ maxArity) :
    splitArity (stem ++ tick :: tick :: Text.decimal count) = (stem, .method count) := by
  have hnumber := Text.number_decimal count
  have hsplit := splitArity_ticks (Text.decimal_ne_nil count) (fun c => Text.isDigit_of_mem_decimal)
    stem (hnumber.symm ▸ hcount)
  rwa [hnumber] at hsplit

end Marked

/-- A name that does not stay whole has the marker of a type or of a method at its end. -/
theorem splitArity_whole_or_marked (name : Text) : splitArity name = (name, .none) ∨
    ∃ stem digits : Text, digits ≠ [] ∧ (∀ c ∈ digits, isDigit c = true) ∧ digits.number ≤ maxArity ∧
      (stem.getLast? ≠ some tick ∧ name = stem ++ tick :: digits ∨
        name = stem ++ tick :: tick :: digits) := by
  have hparts := List.takeWhile_append_dropWhile (p := isDigit) (l := name.reverse)
  have hdigits : ∀ c ∈ (name.reverse.takeWhile isDigit).reverse, isDigit c = true :=
    fun c hc => List.mem_takeWhile_imp (List.mem_reverse.mp hc)
  rw [splitArity]
  generalize name.reverse.takeWhile isDigit = run at hparts hdigits ⊢
  cases hdrop : name.reverse.dropWhile isDigit with
  | nil => exact .inl rfl
  | cons mark before =>
    have hname : name = before.reverse ++ mark :: run.reverse := by
      have hreverse := congrArg List.reverse hparts
      rw [hdrop, List.reverse_append, List.reverse_cons, List.reverse_reverse, List.append_assoc,
        List.singleton_append] at hreverse
      exact hreverse.symm
    dsimp only
    split
    · exact .inl rfl
    · next hmark =>
      rw [not_or, not_or, Decidable.not_not] at hmark
      obtain ⟨rfl, hne, hmax⟩ := hmark
      refine .inr ?_
      by_cases hlast : before.reverse.getLast? = some tick
      · -- The tick in front of the digits is the second one.
        obtain ⟨stem, hstem⟩ := List.getLast?_eq_some_iff.mp hlast
        rw [hstem, List.append_assoc, List.singleton_append] at hname
        exact ⟨stem, run.reverse, hne, hdigits, Nat.not_lt.mp hmax, .inr hname⟩
      · exact ⟨before.reverse, run.reverse, hne, hdigits, Nat.not_lt.mp hmax, .inl ⟨hlast, hname⟩⟩

/-- What is split off is the end of a name, from its last ticks on. -/
theorem splitArity_cases (name : Text) : splitArity name = (name, .none) ∨
    ∃ stem arity marker, splitArity name = (stem, arity) ∧ name = stem ++ tick :: marker := by
  rcases splitArity_whole_or_marked name with
    hwhole | ⟨stem, digits, hne, hdigits, hmax, ⟨hstem, rfl⟩ | rfl⟩
  · exact .inl hwhole
  · exact .inr ⟨stem, _, _, splitArity_tick hne hdigits hstem hmax, rfl⟩
  · exact .inr ⟨stem, _, _, splitArity_ticks hne hdigits stem hmax, rfl⟩

/-- Whether a text is a segment of a type's name: an identifier, and the marker of its own parameters
if there are any. -/
def Text.IsSegment (segment : Text) : Prop :=
  segment.IsIdentifier ∨ ∃ stem count, stem.IsIdentifier ∧ 1 ≤ count ∧ count ≤ maxArity ∧
    segment = stem ++ tick :: Text.decimal count

theorem Text.IsSegment.isName {segment : Text} (h : segment.IsSegment) : segment.IsName := by
  rcases h with h | ⟨stem, count, hstem, -, -, rfl⟩
  · exact ⟨segment, [], (List.append_nil _).symm, h, .inl rfl⟩
  · exact ⟨stem, tick :: Text.decimal count, rfl, hstem, .inr ⟨Text.decimal count,
      Text.decimal_ne_nil count, fun c => Text.isDigit_of_mem_decimal, .inl rfl⟩⟩

/-! ### Sums -/

/-- The number of parameters that a segment's own marker declares. -/
def ownArity (segment : Text) : Nat :=
  match (splitArity segment).2 with
  | .type count => count
  | _ => 0

/-- The number of parameters that the markers of several segments declare together. -/
def aritySum : List Text → Nat
  | [] => 0
  | segment :: segments => ownArity segment + aritySum segments

theorem foldl_eq_min {step : Nat → Text → Nat}
    (hstep : ∀ sum segment, sum ≤ maxArity → step sum segment = min (sum + ownArity segment) maxArity)
    (segments : List Text) {sum : Nat} (hsum : sum ≤ maxArity) :
    segments.foldl step sum = min (sum + aritySum segments) maxArity := by
  induction segments generalizing sum with
  | nil => exact (Nat.min_eq_left hsum).symm
  | cons segment segments ih =>
    rw [List.foldl_cons, hstep sum segment hsum, ih (Nat.min_le_right _ _), aritySum]
    omega

theorem declaredArity_eq_min (name : Text) :
    declaredArity name = min (aritySum (name.split '.')) maxArity := by
  rw [declaredArity, foldl_eq_min ?_ _ (Nat.zero_le _), Nat.zero_add]
  intro sum segment hsum
  rw [ownArity]
  generalize (splitArity segment).2 = arity
  cases arity with
  | type count => rfl
  | none => exact (Nat.min_eq_left hsum).symm
  | method count => exact (Nat.min_eq_left hsum).symm

/-- As long as it is not too large, the declared arity is the sum of the markers. -/
theorem aritySum_eq {name : Text} (h : declaredArity name < maxArity) :
    aritySum (name.split '.') = declaredArity name := by
  have hmin := declaredArity_eq_min name
  omega

end DocRef
