import DocRef.Proofs.Text.Parts
import DocRef.Text.Lines
import Mathlib.Data.List.Basic

/-!
The lines of a text. Up to a line feed stands one line, but for the carriage return at its end
(`lines_part`), and what stands behind the last line feed is a line as well if it is not empty
(`lines_last`). So a text that ends in a line feed has as many lines as it has line feeds, and what is put
behind it does not change them.
-/

namespace DocRef.Text

/-- Line by line: a text has no line feed, or it is a part without one, a line feed and more text. -/
@[elab_as_elim]
theorem line_induction {motive : Text → Prop} (last : ∀ part, '\n' ∉ part → motive part)
    (line : ∀ part rest, '\n' ∉ part → motive rest → motive (part ++ '\n' :: rest)) (text : Text) :
    motive text := by
  suffices h : ∀ front, '\n' ∉ front → motive (front ++ text) from h [] List.not_mem_nil
  induction text with
  | nil =>
    intro front hfront
    rw [List.append_nil]
    exact last front hfront
  | cons c text ih =>
    intro front hfront
    by_cases hc : c = '\n'
    · rw [hc]
      exact line front text hfront (ih [] List.not_mem_nil)
    · rw [List.append_cons]
      refine ih _ fun hmem => ?_
      rcases List.mem_append.mp hmem with hmem | hmem
      · exact hfront hmem
      · exact hc (List.mem_singleton.mp hmem).symm

/-- A part of a text without the carriage return at its end. -/
def withoutReturn (part : Text) : Text :=
  if part.getLast? = some '\r' then part.dropLast else part

theorem withoutReturn_singleton {c : Char} (h : c ≠ '\r') : withoutReturn [c] = [c] := by
  rw [withoutReturn, List.getLast?_singleton, if_neg (by simpa using h)]

theorem withoutReturn_cons_cons (c d : Char) (part : Text) :
    withoutReturn (c :: d :: part) = c :: withoutReturn (d :: part) := by
  rw [withoutReturn, withoutReturn, List.getLast?_cons_cons, List.dropLast_cons_cons,
    apply_ite (c :: ·)]

/-- A part of a text is its line, or its line and a carriage return. -/
theorem withoutReturn_append (part : Text) :
    ∃ behind, (behind = [] ∨ behind = ['\r']) ∧ withoutReturn part ++ behind = part := by
  unfold withoutReturn
  split
  · next h => exact ⟨_, .inr rfl, List.dropLast_append_getLast? _ h⟩
  · exact ⟨_, .inl rfl, List.append_nil part⟩

/-- A character that is not at the end of a line belongs to it. -/
theorem lines_cons {c : Char} {rest line : Text} {more : List Text} (hfeed : c ≠ '\n')
    (hreturn : c = '\r' → rest.head? ≠ some '\n') (h : lines rest = line :: more) :
    lines (c :: rest) = (c :: line) :: more := by
  rw [lines.eq_4 c rest hfeed fun after hc hrest => hreturn hc (hrest ▸ rfl), h]

/-- Up to the first line feed stands the first line, but for the carriage return at its end. -/
theorem lines_part {part : Text} (h : '\n' ∉ part) (rest : Text) :
    lines (part ++ '\n' :: rest) = withoutReturn part :: lines rest := by
  induction part with
  | nil => rfl
  | cons c part ih =>
    obtain ⟨hfeed, hpart⟩ := List.ne_and_not_mem_of_not_mem_cons h
    cases part with
    | nil =>
      by_cases hreturn : c = '\r'
      · rw [hreturn]
        rfl
      · rw [withoutReturn_singleton hreturn]
        exact lines_cons hfeed.symm (absurd · hreturn) rfl
    | cons d part =>
      have hnext := (List.ne_and_not_mem_of_not_mem_cons hpart).1
      rw [withoutReturn_cons_cons]
      exact lines_cons hfeed.symm (fun _ hhead => hnext (Option.some.inj hhead).symm) (ih hpart)

/-- Behind the last line feed stands the last line, if there is anything. -/
theorem lines_last {part : Text} (h : '\n' ∉ part) (hne : part ≠ []) : lines part = [part] := by
  induction part with
  | nil => exact absurd rfl hne
  | cons c part ih =>
    obtain ⟨hfeed, hpart⟩ := List.ne_and_not_mem_of_not_mem_cons h
    cases part with
    | nil => exact lines.eq_4 c [] hfeed.symm nofun
    | cons d part =>
      have hnext := (List.ne_and_not_mem_of_not_mem_cons hpart).1
      exact lines_cons hfeed.symm (fun _ hhead => hnext (Option.some.inj hhead).symm)
        (ih hpart (List.cons_ne_nil _ _))

/-- What stands behind a line feed does not change the lines in front of it. -/
theorem lines_append (text rest : Text) :
    lines (text ++ ['\n'] ++ rest) = lines (text ++ ['\n']) ++ lines rest := by
  rw [List.append_assoc, List.singleton_append]
  induction text using line_induction with
  | last part hpart =>
    rw [lines_part hpart, lines_part hpart]
    rfl
  | line part more hpart ih =>
    rw [List.append_assoc, List.append_assoc, List.cons_append, List.cons_append, lines_part hpart,
      lines_part hpart, ih, List.cons_append]

/-- A text that ends in a line feed has as many lines as it has line feeds. -/
theorem length_lines (text : Text) :
    (lines (text ++ ['\n'])).length = (text ++ ['\n']).count '\n' := by
  induction text using line_induction with
  | last part hpart =>
    rw [lines_part hpart, List.count_append, List.count_eq_zero_of_not_mem hpart]
    rfl
  | line part more hpart ih =>
    rw [List.append_assoc, List.cons_append, lines_part hpart, List.count_append,
      List.count_eq_zero_of_not_mem hpart, List.count_cons_self, ← ih, Nat.zero_add]
    rfl

end DocRef.Text
