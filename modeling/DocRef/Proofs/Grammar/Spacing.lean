import DocRef.Proofs.Grammar.Positions
import DocRef.Proofs.Token.Tiling

/-!
White space between tokens never matters. Where a token begins, any white space may be put in front of
it: the text is tiled by the same tokens, each moved by the bytes that are put in up to its place
(`Tiled.spaced`), since white space continues no token and leaves all others whole. So the text is read
as the same reference, or has the same flaw, moved in the same way (`parse_spaced`).
-/

namespace DocRef

namespace Text

section Spacing

variable (blanks : Nat → Text)

/-- A text that begins at a byte position, with further texts put in: each in front of the character at
its byte position, or at the end. -/
def spacedFrom : Nat → Text → Text
  | position, [] => blanks position
  | position, c :: rest => blanks position ++ c :: spacedFrom (position + c.utf8Size) rest

/-- A text with further texts put in at their byte positions. -/
def spaced (text : Text) : Text :=
  spacedFrom blanks 0 text

/-- The number of bytes that are put in before a byte position. -/
def bytesBefore : Nat → Nat
  | 0 => 0
  | position + 1 => bytesBefore position + (blanks position).byteLength

/-- Where the character at a byte position stands with what is put in at it or before it. -/
def spacedPlace (position : Nat) : Nat :=
  position + bytesBefore blanks (position + 1)

/-- Whether nothing is put in along a stretch. -/
def NoneBetween (start stop : Nat) : Prop :=
  ∀ place, start ≤ place → place < stop → blanks place = []

end Spacing

variable {blanks : Nat → Text}

theorem NoneBetween.mono {start stop first last : Nat} (h : NoneBetween blanks start stop)
    (hfirst : start ≤ first) (hlast : last ≤ stop) : NoneBetween blanks first last :=
  fun place hle hlt => h place (hfirst.trans hle) (hlt.trans_le hlast)

/-- The number does not grow along a stretch where nothing is put in. -/
theorem bytesBefore_eq {start stop : Nat} (h : NoneBetween blanks start stop) (hle : start ≤ stop) :
    bytesBefore blanks stop = bytesBefore blanks start := by
  induction hle with
  | refl => rfl
  | @step last hle ih =>
    have hlast : blanks last = [] := h last hle last.lt_succ_self
    rw [bytesBefore, hlast, ih (h.mono le_rfl last.le_succ)]
    rfl

/-- What is put in behind a text that is left whole stands where the character behind it did. -/
theorem spacedPlace_append {position : Nat} (text : Text)
    (h : NoneBetween blanks position (position + text.byteLength)) :
    position + bytesBefore blanks position +
        byteLength (text ++ blanks (position + text.byteLength)) =
      spacedPlace blanks (position + text.byteLength) := by
  rw [spacedPlace, bytesBefore, bytesBefore_eq h (Nat.le_add_right _ _), byteLength_append]
  omega

/-- Behind a piece that is left whole, the text goes on as far from the start of the piece as before. -/
theorem spacedPlace_add {start length : Nat} (hpositive : 0 < length)
    (h : NoneBetween blanks (start + 1) (start + length)) :
    spacedPlace blanks start + length = start + length + bytesBefore blanks (start + length) := by
  rw [spacedPlace, bytesBefore_eq h (Nat.add_le_add_left hpositive start)]
  omega

/-- A text in which nothing is put in is left whole. -/
theorem spacedFrom_append {position : Nat} (text other : Text)
    (h : NoneBetween blanks position (position + text.byteLength)) :
    spacedFrom blanks position (text ++ other) =
      text ++ spacedFrom blanks (position + text.byteLength) other := by
  induction text generalizing position with
  | nil => rfl
  | cons c text ih =>
    have hpositive := c.utf8Size_pos
    rw [byteLength_cons, ← Nat.add_assoc] at h ⊢
    rw [List.cons_append, spacedFrom, h position le_rfl (by omega),
      ih (h.mono (Nat.le_add_right _ _) le_rfl)]
    rfl

/-- Where white space and a piece behind it are left whole, what is put in stands between them. -/
theorem spacedFrom_piece {position start : Nat} {blank : Text} (first : Char) (run other : Text)
    (hstart : position + blank.byteLength = start) (hbefore : NoneBetween blanks position start)
    (hinside : NoneBetween blanks (start + 1) (start + byteLength (first :: run))) :
    spacedFrom blanks position (blank ++ (first :: run) ++ other) =
      blank ++ blanks start ++ (first :: run) ++
        spacedFrom blanks (start + byteLength (first :: run)) other := by
  subst hstart
  have hpositive := first.utf8Size_pos
  rw [byteLength_cons, ← Nat.add_assoc] at hinside ⊢
  have hrun := spacedFrom_append run other (hinside.mono (by omega) le_rfl)
  calc spacedFrom blanks position (blank ++ (first :: run) ++ other)
    _ = blank ++ spacedFrom blanks (position + blank.byteLength) (first :: (run ++ other)) := by
      rw [List.append_assoc, spacedFrom_append blank _ hbefore, List.cons_append]
    _ = blank ++ (blanks (position + blank.byteLength) ++ first :: (run ++ spacedFrom blanks
          (position + blank.byteLength + first.utf8Size + run.byteLength) other)) := by
      rw [spacedFrom, hrun]
    _ = _ := by
      simp only [List.append_assoc, List.cons_append]

/-- What a text shows at its start once white space is put in, it has shown before. -/
theorem isPrefix_of_isPrefix_spacedFrom (hblanks : ∀ place, ∀ c ∈ blanks place, isBlank c = true)
    {more : Text} (hmore : ∀ c ∈ more, isBlank c = false) {position : Nat} {text : Text}
    (h : more <+: spacedFrom blanks position text) : more <+: text := by
  induction more generalizing position text with
  | nil => exact List.nil_prefix
  | cons c more ih =>
    have hc : isBlank c = false := hmore c List.mem_cons_self
    have hput : ∀ rest, c :: more <+: blanks position ++ rest → blanks position = [] := by
      intro rest hrest
      cases hfirst : blanks position with
      | nil => rfl
      | cons blank run =>
        rw [hfirst, List.cons_append, List.cons_prefix_cons] at hrest
        have hblank : isBlank blank = true := hblanks position blank (by simp [hfirst])
        rw [← hrest.1, hc] at hblank
        cases hblank
    cases text with
    | nil =>
      have hnil := hput [] (by rwa [List.append_nil])
      rw [spacedFrom, hnil] at h
      exact h
    | cons first rest =>
      rw [spacedFrom] at h
      rw [hput _ h, List.nil_append, List.cons_prefix_cons] at h
      rw [List.cons_prefix_cons]
      exact ⟨h.1, ih (fun d hd => hmore d (List.mem_cons_of_mem c hd)) h.2⟩

end Text

/-! ### Tokens -/

section Rest

variable {rest other : Text}

/-- Whether a text shows nothing at its start, white space aside, that another one does not. -/
def Text.ShowsLess (other rest : Text) : Prop :=
  ∀ more : Text, (∀ c ∈ more, isBlank c = false) → more <+: other → more <+: rest

theorem Text.ShowsLess.head? (hless : other.ShowsLess rest) {p : Char → Bool}
    (hp : ∀ c, p c = true → isBlank c = false) (h : ∀ c ∈ rest.head?, p c = false) :
    ∀ c ∈ other.head?, p c = false := by
  intro c hc
  rw [← Bool.not_eq_true]
  intro hpc
  obtain ⟨tail, rfl⟩ := List.head?_eq_some_iff.mp hc
  have hshown : [c] <+: rest :=
    hless [c] (List.forall_mem_singleton.mpr (hp c hpc)) ⟨tail, rfl⟩
  obtain ⟨after, rfl⟩ := hshown
  rw [h c rfl] at hpc
  cases hpc

theorem not_isBlank_of_isDigit {c : Char} (h : isDigit c = true) : isBlank c = false :=
  not_isBlank_of_inIdentifier (inIdentifier_of_isDigit h)

theorem Text.ShowsLess.stopsDigits (hless : other.ShowsLess rest) (h : rest.StopsDigits) :
    other.StopsDigits :=
  hless.head? (fun _ => not_isBlank_of_isDigit) h

theorem Text.ShowsLess.stopsName (hless : other.ShowsLess rest) (h : rest.StopsName) :
    other.StopsName := by
  have htick : isBlank tick = false := by decide
  have hmarker : ∀ c, isDigit c = true → ∀ d ∈ [tick, tick, c], isBlank d = false := by
    intro c hc
    simp [htick, not_isBlank_of_isDigit hc]
  refine ⟨hless.head? (fun _ => not_isBlank_of_inIdentifier) h.identifier, ?_, ?_⟩
  · intro c hc hshown
    exact h.typeMarker c hc (hless _ (fun d hd => hmarker c hc d (List.mem_cons_of_mem _ hd)) hshown)
  · intro c hc hshown
    exact h.methodMarker c hc (hless _ (hmarker c hc) hshown)

/-- A spelling stays exact if what follows shows no more than before. -/
theorem Lexeme.Exact.of_showsLess {token : Token} {spelling : Text}
    (h : Exact ⟨token, spelling, rest⟩) (hless : other.ShowsLess rest) :
    Exact ⟨token, spelling, other⟩ := by
  cases h with
  | name hstem hrest => exact .name hstem (hless.stopsName hrest)
  | markedName hstem hmarks hdigits hrest =>
    exact .markedName hstem hmarks hdigits (hless.stopsDigits hrest)
  | typeParam hdigits hmax hrest => exact .typeParam hdigits hmax (hless.stopsDigits hrest)
  | methodParam hdigits hmax hrest => exact .methodParam hdigits hmax (hless.stopsDigits hrest)
  | emptyBracket => exact .emptyBracket
  | bracket => exact .bracket
  | mark htoken => exact .mark htoken

end Rest

section Spaced

open Text

variable {blanks : Nat → Text}

/-- Nothing is put in along a stretch where no token begins. -/
theorem noneBetween_of_places {position start stop : Nat} {tokens : List PlacedToken}
    (hplaces : ∀ place, position ≤ place → blanks place ≠ [] →
      ∃ placed ∈ tokens, placed.position = place)
    (hstart : position ≤ start)
    (h : ∀ placed ∈ tokens, placed.position < start ∨ stop ≤ placed.position) :
    NoneBetween blanks start stop := by
  intro place hle hlt
  by_contra hput
  obtain ⟨placed, hplaced, rfl⟩ := hplaces place (hstart.trans hle) hput
  rcases h placed hplaced with hbefore | hbehind
  · exact absurd hle (Nat.not_le.mpr hbefore)
  · exact absurd hlt (Nat.not_lt.mpr hbehind)

/-- A text with white space put in where its tokens begin is tiled by the same tokens, each moved by what
is put in up to its place. -/
theorem Tiled.spaced {position : Nat} {text : Text} {tokens : List PlacedToken}
    (h : Tiled position text tokens) (hblanks : ∀ place, ∀ c ∈ blanks place, isBlank c = true)
    (hplaces : ∀ place, position ≤ place → blanks place ≠ [] →
      ∃ placed ∈ tokens, placed.position = place) :
    Tiled (position + bytesBefore blanks position) (spacedFrom blanks position text)
      (tokens.map (PlacedToken.move (spacedPlace blanks))) := by
  induction h with
  | @finish position blank hblank =>
    have hnone : NoneBetween blanks position (position + blank.byteLength) :=
      noneBetween_of_places hplaces le_rfl (List.forall_mem_singleton.mpr (.inr le_rfl))
    have htext := spacedFrom_append blank [] hnone
    rw [List.append_nil] at htext
    have hboth : ∀ c ∈ blank ++ blanks (position + blank.byteLength), isBlank c = true :=
      List.forall_mem_append.mpr ⟨hblank, hblanks _⟩
    rw [htext, List.map_singleton, PlacedToken.move, ← spacedPlace_append blank hnone]
    exact .finish hboth
  | @token position blank lexeme tokens hblank hexact hrest ih =>
    obtain ⟨token, spelling, rest⟩ := lexeme
    obtain ⟨first, run, hspelling⟩ := hexact.exists_spelling_cons
    obtain rfl : spelling = first :: run := hspelling
    simp only at hrest ih ⊢
    generalize hstart : position + blank.byteLength = start at hrest ih hplaces ⊢
    have hpositive := byteLength_cons_pos first run
    have hlater := hrest.le_position
    -- Of the places up to the next piece, only the start of this token has something put in.
    have hbefore : NoneBetween blanks position start :=
      noneBetween_of_places hplaces le_rfl
        (List.forall_mem_cons.mpr ⟨.inr le_rfl, fun placed hplaced => by
          have hle := hlater placed hplaced
          omega⟩)
    have hinside : NoneBetween blanks (start + 1) (start + byteLength (first :: run)) :=
      noneBetween_of_places hplaces (by omega)
        (List.forall_mem_cons.mpr ⟨.inl start.lt_succ_self, fun placed hplaced =>
          .inr (hlater placed hplaced)⟩)
    have htail := ih fun place hle hput => by
      obtain ⟨placed, hplaced, rfl⟩ := hplaces place (by omega) hput
      rcases List.mem_cons.mp hplaced with rfl | hplaced
      · simp only at hle
        omega
      · exact ⟨placed, hplaced, rfl⟩
    have hboth : ∀ c ∈ blank ++ blanks start, isBlank c = true :=
      List.forall_mem_append.mpr ⟨hblank, hblanks start⟩
    have hplace : position + bytesBefore blanks position + byteLength (blank ++ blanks start) =
        spacedPlace blanks start := by
      subst hstart
      exact spacedPlace_append blank hbefore
    have hless : (spacedFrom blanks (start + byteLength (first :: run)) rest).ShowsLess rest :=
      fun more hmore => isPrefix_of_isPrefix_spacedFrom hblanks hmore
    rw [← spacedPlace_add hpositive hinside, ← hplace] at htail
    rw [spacedFrom_piece first run rest hstart hbefore hinside, List.map_cons, PlacedToken.move,
      ← hplace]
    exact .token hboth (hexact.of_showsLess hless) htail

end Spaced

/-- White space that is put into a text where the tokens behind its kind begin changes nothing in what
the text is read as. If the text is no reference, neither is the other, for the same reason, and the flaw
is moved by the bytes that are put in at or before its place. -/
theorem parse_spaced {text body : Text} {kind : Option SymbolKind} {start : Nat}
    {tokens : List PlacedToken} (hsplit : splitKind text = .ok (kind, start, body))
    (htokens : tokensFrom start body = .ok tokens) {blanks : Nat → Text}
    (hblanks : ∀ place, ∀ c ∈ blanks place, isBlank c = true)
    (hplaces : ∀ place, blanks place ≠ [] → ∃ placed ∈ tokens, placed.position = place) :
    Reference.parse (text.spaced blanks) =
      (Reference.parse text).mapError (Malformed.move (Text.spacedPlace blanks)) := by
  have hfront : ∀ c ∈ text.takeWhile isBlank, isBlank c = true :=
    fun c hc => List.all_eq_true.mp List.all_takeWhile c hc
  have htext := eq_append_of_splitKind hsplit
  obtain rfl := start_of_splitKind hsplit
  generalize hhead : text.takeWhile isBlank ++ kindPrefix kind = head at htext htokens
  have htiled := tiled_of_tokensFrom htokens
  -- No token begins in the white space and the kind, so nothing is put in there.
  have hnone : Text.NoneBetween blanks 0 (Text.byteLength head) :=
    noneBetween_of_places (fun place _ => hplaces place) le_rfl
      fun placed hplaced => .inr (htiled.le_position placed hplaced)
  have hspaced : text.spaced blanks = head ++ Text.spacedFrom blanks (Text.byteLength head) body := by
    rw [← Nat.zero_add (Text.byteLength head)] at hnone
    have happend := Text.spacedFrom_append head body hnone
    rwa [← htext, Nat.zero_add] at happend
  have hbytes : Text.bytesBefore blanks (Text.byteLength head) = 0 :=
    Text.bytesBefore_eq hnone (Nat.zero_le _)
  have hmoved := (htiled.spaced hblanks fun place _ => hplaces place).tokensFrom
  rw [hbytes, Nat.add_zero] at hmoved
  obtain ⟨init, htokensEq, -⟩ := htiled.exists_init
  have hend : ∃ last ∈ tokens, last.token = .endOfInput :=
    ⟨_, by rw [htokensEq]; exact List.mem_append_right _ List.mem_cons_self, rfl⟩
  have hrun : (Reading.beforeSegment none).run
      (tokens.map (PlacedToken.move (Text.spacedPlace blanks))) =
        ((Reading.beforeSegment none).run tokens).mapError
          (Malformed.move (Text.spacedPlace blanks)) :=
    Reading.run_move (.beforeSegment none) hend
  subst hhead
  have hread := parse_of_tokensFrom hfront htokens
  rw [← htext] at hread
  rw [hspaced, parse_of_tokensFrom hfront hmoved, hread, hrun]
  cases (Reading.beforeSegment none).run tokens <;> rfl

/-- White space of three bytes and of one. -/
def wideBlanks (place : Nat) : Text :=
  if place = 2 then ['\u2003'] else if place = 5 then [' '] else []

/-- An opener that no closer follows is faulted four bytes further on. -/
theorem parse_spaced_openGroup :
    Reference.parse "M:A.B(C".toList = .error ⟨5, .unterminatedGroup '('⟩ ∧
    Text.spaced wideBlanks "M:A.B(C".toList = "M:\u2003A.B (C".toList ∧
    Reference.parse "M:\u2003A.B (C".toList = .error ⟨9, .unterminatedGroup '('⟩ := by
  have hparse : Reference.parse "M:A.B(C".toList = .error ⟨5, .unterminatedGroup '('⟩ := by
    decide +kernel
  have hsplit : splitKind "M:A.B(C".toList = .ok (some .method, 2, "A.B(C".toList) := by
    decide +kernel
  have htokens : tokensFrom 2 "A.B(C".toList = .ok [⟨.name ['A'], 2⟩, ⟨.dot, 3⟩, ⟨.name ['B'], 4⟩,
      ⟨.openParen, 5⟩, ⟨.name ['C'], 6⟩, ⟨.endOfInput, 7⟩] := by
    decide +kernel
  have hspaced : Text.spaced wideBlanks "M:A.B(C".toList = "M:\u2003A.B (C".toList := by
    decide +kernel
  have hblanks : ∀ place, ∀ c ∈ wideBlanks place, isBlank c = true := by
    intro place
    unfold wideBlanks
    split
    · exact List.forall_mem_singleton.mpr (by decide +kernel)
    · split
      · exact List.forall_mem_singleton.mpr (by decide +kernel)
      · exact List.forall_mem_nil _
  have hplaces : ∀ place, wideBlanks place ≠ [] → place = 2 ∨ place = 5 := by
    intro place hput
    unfold wideBlanks at hput
    split at hput
    · exact .inl ‹_›
    · split at hput
      · exact .inr ‹_›
      · exact absurd rfl hput
  have hmoved := parse_spaced hsplit htokens hblanks fun place hput => by
    rcases hplaces place hput with rfl | rfl
    · exact ⟨⟨.name ['A'], 2⟩, by simp, rfl⟩
    · exact ⟨⟨.openParen, 5⟩, by simp, rfl⟩
  rw [hspaced, hparse] at hmoved
  exact ⟨hparse, hspaced, hmoved⟩

end DocRef
