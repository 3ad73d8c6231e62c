import DocRef.Text
import Mathlib.Data.List.TakeWhile

/-!
Cutting texts: a run of characters of one class off the front, and the parts between separators,
which can be put together again. Exchanged characters can be exchanged back.
-/

namespace DocRef.Text

theorem takeWhile_of_head? {p : Char → Bool} {text : Text} (h : ∀ c ∈ text.head?, p c = false) :
    text.takeWhile p = [] ∧ text.dropWhile p = text := by
  cases text with
  | nil => exact ⟨rfl, rfl⟩
  | cons c text =>
    have hc := h c rfl
    rw [List.takeWhile_cons_of_neg (by simp [hc]), List.dropWhile_cons_of_neg (by simp [hc])]
    exact ⟨rfl, rfl⟩

/-- Behind a run of characters of one class no further one stands. -/
theorem head?_dropWhile {p : Char → Bool} (text : Text) :
    ∀ c ∈ (text.dropWhile p).head?, p c = false := by
  intro c hc
  rw [← List.find?_not_eq_head?_dropWhile, Option.mem_def] at hc
  simpa using List.find?_some hc

/-- A run of characters of one class ends where a character of another class follows. -/
theorem takeWhile_append_of_stop {p : Char → Bool} {run rest : Text}
    (hrun : ∀ c ∈ run, p c = true) (hrest : ∀ c ∈ rest.head?, p c = false) :
    (run ++ rest).takeWhile p = run ∧ (run ++ rest).dropWhile p = rest := by
  obtain ⟨htake, hdrop⟩ := takeWhile_of_head? hrest
  rw [List.takeWhile_append_of_pos hrun, List.dropWhile_append_of_pos hrun, htake, hdrop,
    List.append_nil]
  exact ⟨rfl, rfl⟩

theorem join_cons (separator : Char) (part : Text) (parts : List Text) :
    join separator (part :: parts) = part ++ parts.flatMap (separator :: ·) := by
  induction parts generalizing part with
  | nil => simp [join]
  | cons next parts ih =>
    have hjoin : join separator (part :: next :: parts) =
        part ++ [separator] ++ join separator (next :: parts) :=
      List.intercalate_cons_cons
    rw [hjoin, ih]
    simp

/-- Between the separators stand the parts. -/
theorem mem_join {separator c : Char} {parts : List Text} (h : c ∈ join separator parts) :
    c = separator ∨ ∃ part ∈ parts, c ∈ part := by
  cases parts with
  | nil => cases h
  | cons part parts =>
    rw [join_cons, List.mem_append, List.mem_flatMap] at h
    rcases h with h | ⟨other, hother, h⟩
    · exact .inr ⟨part, List.mem_cons_self, h⟩
    · rcases List.mem_cons.mp h with rfl | h
      · exact .inl rfl
      · exact .inr ⟨other, List.mem_cons_of_mem _ hother, h⟩

theorem mem_join_of_mem {separator c : Char} {part : Text} {parts : List Text} (hpart : part ∈ parts)
    (hc : c ∈ part) : c ∈ join separator parts := by
  cases parts with
  | nil => cases hpart
  | cons first parts =>
    rw [join_cons, List.mem_append, List.mem_flatMap]
    rcases List.mem_cons.mp hpart with rfl | hpart
    · exact .inl hc
    · exact .inr ⟨part, hpart, List.mem_cons_of_mem _ hc⟩

theorem join_append_separator (separator : Char) {parts : List Text} (h : parts ≠ []) :
    join separator parts ++ [separator] = parts.flatMap (· ++ [separator]) := by
  induction parts with
  | nil => exact absurd rfl h
  | cons part parts ih =>
    rw [join_cons, List.flatMap_cons]
    cases parts with
    | nil => simp
    | cons next parts =>
      rw [← ih (List.cons_ne_nil _ _), join_cons]
      simp

theorem split_ne_nil (separator : Char) (text : Text) : split separator text ≠ [] := by
  induction text with
  | nil => exact List.cons_ne_nil _ _
  | cons c text ih =>
    rw [split]
    split
    · exact List.cons_ne_nil _ _
    · split
      · exact List.cons_ne_nil _ _
      · exact List.cons_ne_nil _ _

/-- The parts of a text make up the text. -/
theorem join_split (separator : Char) (text : Text) :
    join separator (split separator text) = text := by
  induction text with
  | nil => rfl
  | cons c text ih =>
    obtain ⟨part, parts, hsplit⟩ := List.exists_cons_of_ne_nil (split_ne_nil separator text)
    rw [hsplit, join_cons] at ih
    rw [split]
    split
    · next hc =>
      rw [hsplit, join_cons, List.flatMap_cons, List.cons_append, ih, hc]
      rfl
    · rw [hsplit]
      show join separator ((c :: part) :: parts) = c :: text
      rw [join_cons, List.cons_append, ih]

theorem mem_of_mem_split {separator c : Char} {text part : Text} (hpart : part ∈ split separator text)
    (hc : c ∈ part) : c ∈ text := by
  rw [← join_split separator text]
  exact mem_join_of_mem hpart hc

theorem split_cons_of_ne {separator c : Char} (h : c ≠ separator) (text : Text) :
    ∃ part parts, split separator (c :: text) = (c :: part) :: parts := by
  obtain ⟨part, parts, hsplit⟩ := List.exists_cons_of_ne_nil (split_ne_nil separator text)
  refine ⟨part, parts, ?_⟩
  rw [split, if_neg h, hsplit]

theorem split_of_notMem {separator : Char} {part : Text} (h : separator ∉ part) :
    split separator part = [part] := by
  induction part with
  | nil => rfl
  | cons c part ih =>
    obtain ⟨hc, hpart⟩ := List.ne_and_not_mem_of_not_mem_cons h
    rw [split, if_neg hc.symm, ih hpart]

theorem split_append_separator {separator : Char} {part : Text} (h : separator ∉ part) (rest : Text) :
    split separator (part ++ separator :: rest) = part :: split separator rest := by
  induction part with
  | nil => rw [List.nil_append, split, if_pos rfl]
  | cons c part ih =>
    obtain ⟨hc, hpart⟩ := List.ne_and_not_mem_of_not_mem_cons h
    rw [List.cons_append, split, if_neg hc.symm, ih hpart]

/-- Parts without the separator are found again between the separators. -/
theorem split_join {separator : Char} {parts : List Text} (hne : parts ≠ [])
    (h : ∀ part ∈ parts, separator ∉ part) : split separator (join separator parts) = parts := by
  induction parts with
  | nil => exact absurd rfl hne
  | cons part parts ih =>
    obtain ⟨hpart, hparts⟩ := List.forall_mem_cons.mp h
    cases parts with
    | nil => rw [join_cons, List.flatMap_nil, List.append_nil, split_of_notMem hpart]
    | cons next parts =>
      rw [join_cons, List.flatMap_cons, List.cons_append, split_append_separator hpart, ← join_cons,
        ih (List.cons_ne_nil _ _) hparts]

/-- Putting a character in the place of another one can be undone if it did not occur before. -/
theorem exchange_exchange {old new : Char} {text : Text} (h : new ∉ text) :
    (text.exchange old new).exchange new old = text := by
  rw [exchange, exchange, List.map_map]
  refine (List.map_congr_left fun c hc => ?_).trans (List.map_id text)
  have hne : c ≠ new := fun heq => h (heq ▸ hc)
  by_cases hold : c = old
  · simp [hold]
  · simp [hold, hne]

end DocRef.Text
