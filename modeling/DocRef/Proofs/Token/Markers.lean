import DocRef.Proofs.Arity
import DocRef.Proofs.Token.Tiling

/-!
Names are cut at one place. A name is read from its front: an identifier, and the marker right behind it.
Its arity is split off from its end, back over the digits to the ticks in front of them. What is split off
is a number behind one tick or two, which can be said of any text (`splitArity_eq_type_iff`,
`splitArity_eq_method_iff`); of a name that was read it is the marker that was read with it, unless its
number is too large (`splitArity_parts_names`).
-/

namespace DocRef

/-- What is split off a name that was read as an identifier and its marker: this marker, or nothing if
there is none or its number is too large. -/
inductive Text.SplitsAs (stem : Text) : Text → Text × Arity → Prop
  | unmarked : SplitsAs stem [] (stem, .none)
  | type {digits : Text} (hdigits : digits.IsNumeral) (hmax : digits.number ≤ maxArity) :
    SplitsAs stem ([tick] ++ digits) (stem, .type digits.number)
  | method {digits : Text} (hdigits : digits.IsNumeral) (hmax : digits.number ≤ maxArity) :
    SplitsAs stem ([tick, tick] ++ digits) (stem, .method digits.number)
  | tooLarge {marks digits : Text} (hmarks : marks = [tick] ∨ marks = [tick, tick])
      (hdigits : digits.IsNumeral) (hmax : maxArity < digits.number) :
    SplitsAs stem (marks ++ digits) (stem ++ (marks ++ digits), .none)

/-- Whether a name that is read at the start of a text is cut in the same place when its arity is split
off. -/
structure Text.CutsName (text name : Text) : Prop where
  read : name = text.takeWhile inIdentifier ++ (Lexeme.marker (text.dropWhile inIdentifier)).1
  identifier : IsIdentifier (text.takeWhile inIdentifier)
  tick_notMem : tick ∉ text.takeWhile inIdentifier
  split : SplitsAs (text.takeWhile inIdentifier)
    (Lexeme.marker (text.dropWhile inIdentifier)).1 (splitArity name)

/-! ### Any text -/

section Iff

variable {text stem : Text} {count : Nat}

/-- The arity of a method is a number behind two ticks. -/
theorem splitArity_eq_method_iff : splitArity text = (stem, .method count) ↔ count ≤ maxArity ∧
    ∃ digits : Text, digits.IsNumeral ∧ digits.number = count ∧ text = stem ++ [tick, tick] ++ digits := by
  constructor
  · intro h
    rcases splitArity_whole_or_marked text with
      hwhole | ⟨other, digits, hne, hdigits, hmax, ⟨hother, rfl⟩ | rfl⟩
    · cases h.symm.trans hwhole
    · cases h.symm.trans (splitArity_tick hne hdigits hother hmax)
    · cases h.symm.trans (splitArity_ticks hne hdigits other hmax)
      exact ⟨hmax, digits, ⟨hne, hdigits⟩, rfl, by simp⟩
  · rintro ⟨hmax, digits, ⟨hne, hdigits⟩, rfl, rfl⟩
    rw [List.append_assoc]
    exact splitArity_ticks hne hdigits stem hmax

/-- The arity of a type is a number behind a single tick. -/
theorem splitArity_eq_type_iff : splitArity text = (stem, .type count) ↔ count ≤ maxArity ∧
    stem.getLast? ≠ some tick ∧
      ∃ digits : Text, digits.IsNumeral ∧ digits.number = count ∧ text = stem ++ [tick] ++ digits := by
  constructor
  · intro h
    rcases splitArity_whole_or_marked text with
      hwhole | ⟨other, digits, hne, hdigits, hmax, ⟨hother, rfl⟩ | rfl⟩
    · cases h.symm.trans hwhole
    · cases h.symm.trans (splitArity_tick hne hdigits hother hmax)
      exact ⟨hmax, hother, digits, ⟨hne, hdigits⟩, rfl, by simp⟩
    · cases h.symm.trans (splitArity_ticks hne hdigits other hmax)
  · rintro ⟨hmax, hstem, digits, ⟨hne, hdigits⟩, rfl, rfl⟩
    rw [List.append_assoc]
    exact splitArity_tick hne hdigits hstem hmax

/-- Without an arity a text stays whole. -/
theorem splitArity_eq_none (hmethod : ∀ stem count, splitArity text ≠ (stem, .method count))
    (htype : ∀ stem count, splitArity text ≠ (stem, .type count)) :
    splitArity text = (text, .none) := by
  rcases splitArity_whole_or_marked text with
    hwhole | ⟨other, digits, hne, hdigits, hmax, ⟨hother, rfl⟩ | rfl⟩
  · exact hwhole
  · exact absurd (splitArity_tick hne hdigits hother hmax) (htype other _)
  · exact absurd (splitArity_ticks hne hdigits other hmax) (hmethod other _)

end Iff

/-! ### Names -/

variable {stem marks digits rest : Text}

/-- A marker behind an identifier is split off it, if its number is not too large. -/
theorem splitsAs_marker (hstem : stem.IsIdentifier) (hmarks : marks = [tick] ∨ marks = [tick, tick])
    (hdigits : digits.IsNumeral) :
    Text.SplitsAs stem (marks ++ digits) (splitArity (stem ++ (marks ++ digits))) := by
  obtain ⟨hne, hall⟩ := hdigits
  rcases Nat.lt_or_ge maxArity digits.number with hlarge | hmax
  · have hwhole : splitArity (stem ++ (marks ++ digits)) = (stem ++ (marks ++ digits), .none) := by
      rcases hmarks with rfl | rfl
      · exact splitArity_overflow hall stem hlarge
      · have hoverflow := splitArity_overflow hall (stem ++ [tick]) hlarge
        rwa [List.append_assoc] at hoverflow
    rw [hwhole]
    exact .tooLarge hmarks ⟨hne, hall⟩ hlarge
  · rcases hmarks with rfl | rfl
    · have hlast : stem.getLast? ≠ some tick := fun hlast =>
        hstem.tick_notMem (List.mem_of_getLast? hlast)
      show Text.SplitsAs stem _ (splitArity (stem ++ tick :: digits))
      rw [splitArity_tick hne hall hlast hmax]
      exact .type ⟨hne, hall⟩ hmax
    · show Text.SplitsAs stem _ (splitArity (stem ++ tick :: tick :: digits))
      rw [splitArity_ticks hne hall stem hmax]
      exact .method ⟨hne, hall⟩ hmax

/-- An identifier ends where no character of identifiers follows. -/
theorem Text.IsIdentifier.takeWhile_append (hstem : stem.IsIdentifier)
    (hrest : ∀ c ∈ rest.head?, inIdentifier c = false) :
    (stem ++ rest).takeWhile inIdentifier = stem ∧ (stem ++ rest).dropWhile inIdentifier = rest := by
  refine takeWhile_append_of_stop (fun c hc => ?_) hrest
  rw [← Bool.not_eq_false]
  exact fun hout => hstem.notMem hout hc

/-- A name that is spelled exactly is cut where its identifier ends. -/
theorem Lexeme.Exact.cutsName {lexeme : Lexeme} (h : lexeme.Exact) {name : Text}
    (hname : lexeme.token = .name name) : Text.CutsName (lexeme.spelling ++ lexeme.rest) name := by
  cases h with
  | @name stem rest hstem hrest =>
    cases hname
    obtain ⟨hidentifier, hmarker⟩ := (stopsName_iff rest).mp hrest
    obtain ⟨htake, hdrop⟩ := hstem.takeWhile_append hidentifier
    refine ⟨?_, ?_, ?_, ?_⟩ <;> simp only [htake, hdrop, hmarker]
    · rw [List.append_nil]
    · exact hstem
    · exact hstem.tick_notMem
    · rw [splitArity_of_identifier hstem]
      exact .unmarked
  | @markedName stem marks digits rest hstem hmarks hdigits hrest =>
    cases hname
    have hstop : ∀ c ∈ (marks ++ (digits ++ rest)).head?, inIdentifier c = false := by
      rcases hmarks with rfl | rfl <;> exact fun c hc => by cases hc; exact not_inIdentifier_tick
    obtain ⟨htake, hdrop⟩ := hstem.takeWhile_append hstop
    have hmarker := marker_numeral hmarks hdigits.1 hdigits.2 hrest
    simp only [List.append_assoc]
    refine ⟨?_, ?_, ?_, ?_⟩ <;> simp only [htake, hdrop, hmarker]
    · exact hstem
    · exact hstem.tick_notMem
    · exact splitsAs_marker hstem hmarks hdigits
  | @mark token rest htoken =>
    rw [show token = .name name from hname] at htoken
    simp [Token.marks] at htoken
  | _ => cases hname

/-- The arity of a method is split off a text if two ticks and a number end it, that of a type if a single
tick and a number do, and otherwise the text stays whole. A name that is read, also one among the tokens of
a text, is cut in this way between its identifier and the marker that is read with it. -/
theorem splitArity_parts_names :
    (∀ (text stem : Text) (count : Nat),
      (splitArity text = (stem, .method count) ↔ count ≤ maxArity ∧ ∃ digits : Text,
        digits.IsNumeral ∧ digits.number = count ∧ text = stem ++ [tick, tick] ++ digits) ∧
      (splitArity text = (stem, .type count) ↔ count ≤ maxArity ∧ stem.getLast? ≠ some tick ∧
        ∃ digits : Text, digits.IsNumeral ∧ digits.number = count ∧ text = stem ++ [tick] ++ digits)) ∧
    (∀ text : Text, (∀ stem count, splitArity text ≠ (stem, .method count)) →
      (∀ stem count, splitArity text ≠ (stem, .type count)) → splitArity text = (text, .none)) ∧
    (∀ (first : Char) (after name : Text) (lexeme : Lexeme), Lexeme.read first after = .ok lexeme →
      lexeme.token = .name name → Text.CutsName (first :: after) name) ∧
    ∀ (position : Nat) (text : Text) (tokens : List PlacedToken), tokensFrom position text = .ok tokens →
      ∀ placed ∈ tokens, ∀ name, placed.token = .name name → ∃ before after : Text,
        text = before ++ after ∧ placed.position = position + before.byteLength ∧
          after.CutsName name := by
  refine ⟨fun text stem count => ⟨splitArity_eq_method_iff, splitArity_eq_type_iff⟩,
    fun text => splitArity_eq_none, ?_, ?_⟩
  · intro first after name lexeme hread hname
    obtain ⟨hexact, hspelling⟩ := Lexeme.exact_of_read hread
    rw [hspelling]
    exact hexact.cutsName hname
  · intro position text tokens h placed hplaced name hname
    obtain ⟨before, after, htext, hposition, hstands⟩ :=
      (tiled_of_tokensFrom h).standsAt placed hplaced
    refine ⟨before, after, htext, hposition, ?_⟩
    generalize placed.token = token at hname hstands
    cases hstands with
    | endOfInput => cases hname
    | spelled hexact => exact hexact.cutsName hname

/-- A name whose number is too large. -/
def largeName : Text := "B`18446744073709551616".toList

/-- A name is cut as it was read, also the part of a text behind which no token can be read; and nothing
is split off a name with too large a number. -/
theorem splitArity_parts_names_large :
    splitArity "A``".toList = ("A``".toList, .none) ∧
    (∃ lexeme, Lexeme.read 'F' "``2`x".toList = .ok lexeme ∧
      Text.CutsName "F``2`x".toList "F``2".toList) ∧
    ∃ tokens, tokensFrom 0 ("F.".toList ++ largeName) = .ok tokens ∧
      ∃ placed ∈ tokens, placed.token = .name largeName ∧ ∃ before after : Text,
        "F.".toList ++ largeName = before ++ after ∧ placed.position = 0 + before.byteLength ∧
          after.CutsName largeName := by
  obtain ⟨-, hwhole, hread, htokens⟩ := splitArity_parts_names
  have hticks : (splitArity "A``".toList).2 = .none := by decide
  refine ⟨hwhole _ (fun stem count h => ?_) (fun stem count h => ?_), ⟨_, rfl, hread 'F' _ _ _ rfl rfl⟩, ?_⟩
  · rw [h] at hticks
    cases hticks
  · rw [h] at hticks
    cases hticks
  · have hcut : tokensFrom 0 ("F.".toList ++ largeName) =
        .ok [⟨.name ['F'], 0⟩, ⟨.dot, 1⟩, ⟨.name largeName, 2⟩, ⟨.endOfInput, 24⟩] := by
      decide +kernel
    exact ⟨_, hcut, ⟨.name largeName, 2⟩, by decide, rfl, htokens 0 _ _ hcut _ (by decide) _ rfl⟩

end DocRef
