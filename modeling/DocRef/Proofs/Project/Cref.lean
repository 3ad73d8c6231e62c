import DocRef.Project.Cref
import DocRef.Proofs.Text.Lines
import Mathlib.Data.List.Pairwise

/-!
The references of a file are all of its `cref` attributes. An attribute stands at a place of a line
(`Citation`). A search from left to right takes the first one and goes on behind it, so it leaves out only
attributes that begin within one it has taken (`Citation.Leftmost`). Each text has one such list of
attributes, and the values of these are what is reported (`Occurrence.ofText_leftmost`). Text that is put
behind a line feed adds what is reported of it alone, further down.
-/

namespace DocRef

/-- Whether a text is an attribute with a value, in which the quote around it does not occur. -/
inductive Text.IsAttribute : Text → Text → Prop
  | quoted {before behind value : Text} {quote : Char} (hbefore : ∀ c ∈ before, isBlank c = true)
      (hbehind : ∀ c ∈ behind, isBlank c = true) (hquote : quote = '"' ∨ quote = '\'')
      (hvalue : quote ∉ value) :
    IsAttribute ("cref".toList ++ before ++ ['='] ++ behind ++ [quote] ++ value ++ [quote]) value

/-- An attribute where it stands in a text. -/
@[ext]
structure Citation where
  /-- How many lines stand above its own. -/
  line : Nat
  /-- How many characters of its line stand in front of it. -/
  start : Nat
  /-- The attribute as it is written. -/
  written : Text
  /-- What stands between its quotes. -/
  value : Text

namespace Citation

/-- The place on the line where the attribute ends. -/
def stop (citation : Citation) : Nat :=
  citation.start + citation.written.length

/-- Whether the attribute stands at its place of a line. -/
def StandsOn (line : Text) (citation : Citation) : Prop :=
  citation.written.IsAttribute citation.value ∧ citation.written <+: line.drop citation.start

/-- Whether the attribute stands in a text, whose lines are its parts between the line feeds. -/
def StandsIn (text : Text) (citation : Citation) : Prop :=
  ∃ part ∈ (text.split '\n')[citation.line]?, citation.StandsOn part

/-- Whether an attribute ends before another one begins, on an earlier line or on the same one. -/
def Before (earlier later : Citation) : Prop :=
  earlier.line < later.line ∨ earlier.line = later.line ∧ earlier.stop ≤ later.start

/-- Whether an attribute begins within another one. -/
def Covers (earlier later : Citation) : Prop :=
  earlier.line = later.line ∧ earlier.start < later.start ∧ later.start < earlier.stop

/-- What is reported of an attribute of a file. -/
def occurrence (file : Text) (citation : Citation) : Occurrence :=
  ⟨file, citation.line + 1, citation.value⟩

/-- Whether a search from left to right finds these attributes among all that stand somewhere. -/
structure Leftmost (stands : Citation → Prop) (found : List Citation) : Prop where
  /-- Each one stands there. -/
  sound : ∀ citation ∈ found, stands citation
  /-- They are in order and do not overlap. -/
  ordered : found.Pairwise Before
  /-- What is left out begins within an earlier one. -/
  complete : ∀ citation, stands citation →
    citation ∈ found ∨ ∃ earlier ∈ found, earlier.Covers citation

end Citation

/-! ### One attribute -/

namespace Occurrence

theorem quoted?_append {quote : Char} {value : Text} (h : quote ∉ value) (rest : Text) :
    quoted? quote (value ++ quote :: rest) = some (value, rest) := by
  have hvalue : ∀ c ∈ value, (c ≠ quote : Bool) = true := fun c hc => by
    simpa using fun heq : c = quote => h (heq ▸ hc)
  obtain ⟨htake, hdrop⟩ := @Text.takeWhile_append_of_stop (· ≠ quote) value (quote :: rest) hvalue
    (by simp)
  rw [quoted?, hdrop, htake]

theorem eq_of_quoted? {quote : Char} {text value rest : Text}
    (h : quoted? quote text = some (value, rest)) : quote ∉ value ∧ text = value ++ quote :: rest := by
  have htext : text.takeWhile (· ≠ quote) ++ text.dropWhile (· ≠ quote) = text :=
    List.takeWhile_append_dropWhile
  unfold quoted? at h
  split at h
  · next c after hdrop =>
    cases h
    obtain rfl : c = quote := by
      simpa using @Text.head?_dropWhile (· ≠ quote) text c (by rw [hdrop]; rfl)
    rw [hdrop] at htext
    exact ⟨fun hmem => by simpa using List.mem_takeWhile_imp hmem, htext.symm⟩
  · cases h

theorem dropWhile_blank_append {blank : Text} {c : Char} (hblank : ∀ c ∈ blank, isBlank c = true)
    (hc : isBlank c = false) (rest : Text) : (blank ++ c :: rest).dropWhile isBlank = c :: rest := by
  rw [List.dropWhile_append_of_pos hblank, List.dropWhile_cons_of_neg (by simp [hc])]

theorem attribute?_append {written value : Text} (h : written.IsAttribute value) (rest : Text) :
    attribute? (written ++ rest) = some (value, rest) := by
  cases h with
  | @quoted before behind _ quote hbefore hbehind hquote hvalue =>
    have hblank : isBlank quote = false := by
      rcases hquote with rfl | rfl <;> decide
    have hopen := dropWhile_blank_append hbehind hblank (value ++ quote :: rest)
    have hsign := @dropWhile_blank_append before '=' hbefore (by decide)
      (behind ++ quote :: (value ++ quote :: rest))
    have htext : "cref".toList ++ before ++ ['='] ++ behind ++ [quote] ++ value ++ [quote] ++ rest =
        'c' :: 'r' :: 'e' :: 'f' :: (before ++ '=' :: (behind ++ quote :: (value ++ quote :: rest))) := by
      simp
    rw [htext]
    rcases hquote with rfl | rfl <;> simp only [attribute?, hsign, hopen, quoted?_append hvalue]

/-- White space up to a sign, white space up to a quote, and a quoted value make up an attribute. -/
theorem exists_of_quoted? {quote : Char} {first second third value rest : Text}
    (hquote : quote = '"' ∨ quote = '\'') (hsign : first.dropWhile isBlank = '=' :: second)
    (hopen : second.dropWhile isBlank = quote :: third) (h : quoted? quote third = some (value, rest)) :
    ∃ written : Text, written.IsAttribute value ∧
      'c' :: 'r' :: 'e' :: 'f' :: first = written ++ rest := by
  have hblank : ∀ text : Text, ∀ c ∈ text.takeWhile isBlank, isBlank c = true :=
    fun _ c hc => List.mem_takeWhile_imp hc
  obtain ⟨hvalue, rfl⟩ := eq_of_quoted? h
  refine ⟨_, .quoted (hblank first) (hblank second) hquote hvalue, ?_⟩
  have hfirst : first.takeWhile isBlank ++
      '=' :: (second.takeWhile isBlank ++ quote :: (value ++ quote :: rest)) = first := by
    rw [← hopen, List.takeWhile_append_dropWhile, ← hsign, List.takeWhile_append_dropWhile]
  simpa using hfirst.symm

/-- A text begins with the attribute that is read from it. -/
theorem exists_of_attribute? {text value rest : Text} (h : attribute? text = some (value, rest)) :
    ∃ written : Text, written.IsAttribute value ∧ text = written ++ rest := by
  unfold attribute? at h
  split at h
  · split at h
    · next hsign =>
      split at h
      · next hopen => exact exists_of_quoted? (.inl rfl) hsign hopen h
      · next hopen => exact exists_of_quoted? (.inr rfl) hsign hopen h
      · cases h
    · cases h
  · cases h

theorem values_of_attribute {text value rest : Text} (h : attribute? text = some (value, rest)) :
    values text = value :: values rest := by
  cases text with
  | nil => cases h
  | cons c text =>
    rw [values]
    split
    · next hread =>
      cases hread.symm.trans h
      rfl
    · next hread => cases hread.symm.trans h

theorem values_cons_of_none {c : Char} {text : Text} (h : attribute? (c :: text) = none) :
    values (c :: text) = values text := by
  rw [values]
  split
  · next hread => cases hread.symm.trans h
  · rfl

end Occurrence

namespace Text.IsAttribute

variable {written value : Text}

theorem ne_nil (h : written.IsAttribute value) : written ≠ [] := by
  cases h with
  | quoted => simp

theorem getLast?_ne_return (h : written.IsAttribute value) : written.getLast? ≠ some '\r' := by
  cases h with
  | quoted hbefore hbehind hquote hvalue =>
    rw [List.getLast?_concat]
    rcases hquote with rfl | rfl <;> decide

end Text.IsAttribute

namespace Citation

/-- An attribute on a line is the one that is read at its place. -/
theorem StandsOn.attribute? {line : Text} {citation : Citation} (h : citation.StandsOn line) :
    ∃ rest, line.drop citation.start = citation.written ++ rest ∧
      Occurrence.attribute? (line.drop citation.start) = some (citation.value, rest) := by
  obtain ⟨hattribute, rest, hrest⟩ := h
  exact ⟨rest, hrest.symm, hrest ▸ Occurrence.attribute?_append hattribute rest⟩

/-- The carriage return at the end of a line is no part of an attribute. -/
theorem standsOn_withoutReturn_iff {part : Text} {citation : Citation} :
    citation.StandsOn part.withoutReturn ↔ citation.StandsOn part := by
  obtain ⟨behind, hbehind, hpart⟩ := Text.withoutReturn_append part
  have hdrop : part.drop citation.start = part.withoutReturn.drop citation.start ++
      behind.drop (citation.start - part.withoutReturn.length) := by
    rw [← List.drop_append, hpart]
  have hend : ∀ count, behind.drop count = [] ∨ behind.drop count = ['\r'] := by
    rcases hbehind with rfl | rfl
    · exact fun count => .inl List.drop_nil
    · exact fun | 0 => .inr rfl | _ + 1 => .inl List.drop_nil
  unfold StandsOn
  rw [hdrop]
  refine and_congr_right fun hattribute => ⟨fun h => h.trans (List.prefix_append _ _), fun h => ?_⟩
  rcases hend (citation.start - part.withoutReturn.length) with heq | heq
  · rwa [heq, List.append_nil] at h
  · rw [heq] at h
    rcases List.prefix_concat_iff.mp h with hwhole | h
    · exact absurd (by rw [hwhole, List.getLast?_concat]) hattribute.getLast?_ne_return
    · exact h

theorem not_standsOn_nil (citation : Citation) : ¬ citation.StandsOn [] := fun ⟨hattribute, h⟩ =>
  hattribute.ne_nil (List.prefix_nil.mp (List.drop_nil ▸ h))

/-- The attributes on the lines of a text are those in the text. -/
theorem standsIn_iff {text : Text} {citation : Citation} :
    citation.StandsIn text ↔ ∃ line ∈ (Text.lines text)[citation.line]?, citation.StandsOn line := by
  unfold StandsIn
  generalize citation.line = index
  induction text using Text.line_induction generalizing index with
  | last part hpart =>
    rw [Text.split_of_notMem hpart]
    by_cases hne : part = []
    · subst hne
      cases index <;> simp [Text.lines, not_standsOn_nil]
    · rw [Text.lines_last hpart hne]
  | line part rest hpart ih =>
    rw [Text.split_append_separator hpart, Text.lines_part hpart]
    cases index with
    | zero => simp [standsOn_withoutReturn_iff]
    | succ index => exact ih index

theorem StandsOn.start_lt_stop {line : Text} {citation : Citation} (h : citation.StandsOn line) :
    citation.start < citation.stop :=
  Nat.lt_add_of_pos_right (List.length_pos_iff.mpr h.1.ne_nil)

/-- At each place of a line there is one attribute at most. -/
theorem StandsOn.unique {line : Text} {citation other : Citation} (h : citation.StandsOn line)
    (hother : other.StandsOn line) (hline : citation.line = other.line)
    (hstart : citation.start = other.start) : citation = other := by
  obtain ⟨rest, hsplit, hread⟩ := h.attribute?
  obtain ⟨after, hsplit', hread'⟩ := hother.attribute?
  rw [hstart] at hsplit hread
  obtain ⟨hvalue, hrest⟩ := Prod.ext_iff.mp (Option.some.inj (hread.symm.trans hread'))
  have hwritten : citation.written ++ rest = other.written ++ rest := by
    rw [← hsplit, hsplit', show rest = after from hrest]
  exact Citation.ext hline hstart (List.append_cancel_right hwritten) hvalue

theorem Before.trans {first second third : Citation} (h : first.Before second)
    (hnext : second.Before third) : first.Before third := by
  unfold Before stop at *
  omega

theorem Before.written_eq_nil {citation : Citation} (h : citation.Before citation) :
    citation.written = [] := by
  unfold Before stop at h
  exact List.eq_nil_of_length_eq_zero (by omega)

theorem Before.not_covers {first second : Citation} (h : first.Before second) :
    ¬ first.Covers second ∧ ¬ second.Covers first := by
  unfold Before at h
  unfold Covers stop at *
  omega

/-! ### Searches -/

variable {stands others : Citation → Prop} {found other : List Citation}

namespace Leftmost

theorem congr (h : Leftmost stands found) (hiff : ∀ citation, stands citation ↔ others citation) :
    Leftmost others found :=
  (funext fun citation => propext (hiff citation) : stands = others) ▸ h

/-- Searches behind one another. -/
theorem append (h : Leftmost stands found) (hothers : Leftmost others other)
    (hbefore : ∀ first ∈ found, ∀ second ∈ other, first.Before second) :
    Leftmost (fun citation => stands citation ∨ others citation) (found ++ other) where
  sound citation hmem := (List.mem_append.mp hmem).imp (h.sound citation) (hothers.sound citation)
  ordered := List.pairwise_append.mpr ⟨h.ordered, hothers.ordered, hbefore⟩
  complete citation hstands := by
    rcases hstands with hstands | hstands
    · rcases h.complete citation hstands with hmem | ⟨earlier, hmem, hcovers⟩
      · exact .inl (List.mem_append_left _ hmem)
      · exact .inr ⟨earlier, List.mem_append_left _ hmem, hcovers⟩
    · rcases hothers.complete citation hstands with hmem | ⟨earlier, hmem, hcovers⟩
      · exact .inl (List.mem_append_right _ hmem)
      · exact .inr ⟨earlier, List.mem_append_right _ hmem, hcovers⟩

theorem not_covers (h : Leftmost stands found) {earlier later : Citation} (hearlier : earlier ∈ found)
    (hlater : later ∈ found) : ¬ earlier.Covers later := by
  have : Std.Symm fun first second : Citation => ¬ first.Covers second ∧ ¬ second.Covers first :=
    ⟨fun _ _ => And.symm⟩
  have hself : ∀ citation : Citation, ¬ citation.Covers citation := fun _ hcovers =>
    hcovers.2.1.false
  exact ((h.ordered.imp Before.not_covers).forall_of_forall
    (fun citation _ => ⟨hself citation, hself citation⟩) hearlier hlater).1

/-- What one search finds another one finds as well, if it finds all that begins further to the left. -/
theorem mem_of_mem (h : Leftmost stands found) (hother : Leftmost stands other) {citation : Citation}
    (hleft : ∀ earlier : Citation, earlier.start < citation.start → earlier ∈ other → earlier ∈ found)
    (hmem : citation ∈ found) : citation ∈ other := by
  rcases hother.complete citation (h.sound citation hmem) with hmem' | ⟨earlier, hearlier, hcovers⟩
  · exact hmem'
  · exact absurd hcovers (h.not_covers (hleft earlier hcovers.2.1 hearlier) hmem)

theorem mem_iff (h : Leftmost stands found) (hother : Leftmost stands other) (citation : Citation) :
    citation ∈ found ↔ citation ∈ other := by
  -- On the place of the line: both searches agree on what begins further to the left.
  induction hplace : citation.start using Nat.strongRecOn generalizing citation with
  | ind place ih =>
    subst hplace
    exact ⟨h.mem_of_mem hother fun earlier hstart => (ih _ hstart earlier rfl).mpr,
      hother.mem_of_mem h fun earlier hstart => (ih _ hstart earlier rfl).mp⟩

/-- There is only one search among the same attributes, if each of them is written with a character. -/
theorem unique (h : Leftmost stands found) (hother : Leftmost stands other)
    (hwritten : ∀ citation, stands citation → citation.written ≠ []) : found = other := by
  have hnodup : ∀ {found : List Citation}, Leftmost stands found → found.Nodup := fun h =>
    h.ordered.imp_of_mem fun hfirst _ hbefore heq =>
      hwritten _ (h.sound _ hfirst) (heq ▸ hbefore : Before _ _).written_eq_nil
  have hperm := (List.perm_ext_iff_of_nodup (hnodup h) (hnodup hother)).mpr (h.mem_iff hother)
  refine hperm.eq_of_pairwise (fun first second hfirst _ hforth hback => ?_) h.ordered hother.ordered
  exact absurd (hforth.trans hback).written_eq_nil (hwritten first (h.sound first hfirst))

end Leftmost

/-! ### Lines -/

/-- Whether an attribute stands on the line with an index, from a place on. -/
def StandsFrom (line : Text) (index place : Nat) (citation : Citation) : Prop :=
  citation.line = index ∧ place ≤ citation.start ∧ citation.StandsOn line

/-- Where no attribute begins, a search can begin at the next place. -/
theorem standsFrom_succ_iff {line : Text} {index place : Nat} {citation : Citation}
    (h : Occurrence.attribute? (line.drop place) = none) :
    citation.StandsFrom line index (place + 1) ↔ citation.StandsFrom line index place := by
  refine ⟨fun ⟨hline, hplace, hstands⟩ => ⟨hline, by omega, hstands⟩,
    fun ⟨hline, hplace, hstands⟩ => ⟨hline, ?_, hstands⟩⟩
  refine Nat.lt_of_le_of_ne hplace fun heq => ?_
  obtain ⟨rest, -, hread⟩ := hstands.attribute?
  rw [← heq, h] at hread
  cases hread

/-- From a place on there stand the attributes that begin before a later place, and those from it on. -/
theorem standsFrom_split_iff {line : Text} {index place stop : Nat} {citation : Citation}
    (h : place ≤ stop) :
    citation.StandsFrom line index place ∧ citation.start < stop ∨ citation.StandsFrom line index stop ↔
      citation.StandsFrom line index place := by
  constructor
  · rintro (⟨hplace, -⟩ | ⟨hline, hstop, hstands⟩)
    · exact hplace
    · exact ⟨hline, Nat.le_trans h hstop, hstands⟩
  · rintro ⟨hline, hplace, hstands⟩
    rcases Nat.lt_or_ge citation.start stop with hlt | hge
    · exact .inl ⟨⟨hline, hplace, hstands⟩, hlt⟩
    · exact .inr ⟨hline, hge, hstands⟩

/-- Of the attributes that begin at the first one or within it, a search finds the first one. -/
theorem leftmost_singleton {line : Text} {first : Citation} (h : first.StandsOn line) :
    Leftmost (fun citation => citation.StandsFrom line first.line first.start ∧
      citation.start < first.stop) [first] where
  sound := List.forall_mem_singleton.mpr ⟨⟨rfl, Nat.le_refl _, h⟩, h.start_lt_stop⟩
  ordered := List.pairwise_singleton _ _
  complete := by
    rintro citation ⟨⟨hline, hplace, hstands⟩, hstop⟩
    rcases Nat.eq_or_lt_of_le hplace with heq | hlt
    · exact .inl (List.mem_singleton.mpr (hstands.unique h hline heq.symm))
    · exact .inr ⟨first, List.mem_singleton_self _, hline.symm, hlt, hstop⟩

/-- The values that are read from a place of a line on are those of the attributes that a search finds
from there. -/
theorem exists_values (line : Text) (index place : Nat) : ∃ found : List Citation,
    Occurrence.values (line.drop place) = found.map value ∧
      Leftmost (StandsFrom line index place) found := by
  -- Along the search: it goes on at the next place, or at the end of the attribute it has taken.
  induction htext : line.drop place using Occurrence.values.induct generalizing place with
  | case1 =>
    refine ⟨[], Occurrence.values.eq_1, nofun, .nil, fun citation ⟨_, hplace, hstands⟩ => ?_⟩
    have hbehind : line.drop citation.start = [] := by
      rw [← Nat.add_sub_cancel' hplace, ← List.drop_drop, htext, List.drop_nil]
    exact absurd (List.prefix_nil.mp (hbehind ▸ hstands.2)) hstands.1.ne_nil
  | case2 c rest value after hattribute ih =>
    obtain ⟨written, hwritten, hsplit⟩ := Occurrence.exists_of_attribute? hattribute
    have hafter : line.drop (place + written.length) = after := by
      rw [← List.drop_drop, htext, hsplit, List.drop_left]
    obtain ⟨found, hvalues, hfound⟩ := ih _ hafter
    let first : Citation := ⟨index, place, written, value⟩
    have hfirst : first.StandsOn line :=
      ⟨hwritten, after, hsplit.symm.trans htext.symm⟩
    refine ⟨first :: found, ?_, ((leftmost_singleton hfirst).append hfound ?_).congr ?_⟩
    · rw [Occurrence.values_of_attribute hattribute, hvalues, List.map_cons]
    · intro earlier hearlier later hlater
      obtain rfl := List.mem_singleton.mp hearlier
      obtain ⟨hline, hplace, -⟩ := hfound.sound later hlater
      exact .inr ⟨hline.symm, hplace⟩
    · exact fun citation => standsFrom_split_iff (Nat.le_add_right _ _)
  | case3 c rest hattribute ih =>
    have hrest : line.drop (place + 1) = rest := by
      rw [← List.drop_drop, htext, List.drop_one, List.tail_cons]
    obtain ⟨found, hvalues, hfound⟩ := ih _ hrest
    refine ⟨found, ?_, hfound.congr fun citation => standsFrom_succ_iff (htext ▸ hattribute)⟩
    rw [Occurrence.values_cons_of_none hattribute, hvalues]

/-- Whether an attribute stands on one of some lines, which are counted from an index on. -/
def StandsAmong (lines : List Text) (index : Nat) (citation : Citation) : Prop :=
  index ≤ citation.line ∧ ∃ line ∈ lines[citation.line - index]?, citation.StandsOn line

theorem standsAmong_cons_iff {line : Text} {lines : List Text} {index : Nat} {citation : Citation} :
    citation.StandsFrom line index 0 ∨ citation.StandsAmong lines (index + 1) ↔
      citation.StandsAmong (line :: lines) index := by
  unfold StandsFrom StandsAmong
  rcases Nat.lt_or_ge index citation.line with hbelow | habove
  · obtain ⟨distance, hdistance⟩ := Nat.exists_eq_add_of_lt hbelow
    have hall : citation.line - index = distance + 1 := by omega
    have hlines : citation.line - (index + 1) = distance := by omega
    rw [hall, hlines, List.getElem?_cons_succ]
    constructor
    · rintro (⟨hline, -⟩ | ⟨-, hlines⟩)
      · omega
      · exact ⟨hbelow.le, hlines⟩
    · exact fun ⟨_, hlines⟩ => .inr ⟨hbelow, hlines⟩
  · constructor
    · rintro (⟨hline, -, hstands⟩ | ⟨hbelow, -⟩)
      · exact ⟨hline.ge, line, by rw [hline, Nat.sub_self]; rfl, hstands⟩
      · omega
    · rintro ⟨hindex, other, hother, hstands⟩
      have hline := Nat.le_antisymm habove hindex
      rw [hline, Nat.sub_self] at hother
      obtain rfl := Option.some.inj hother
      exact .inl ⟨hline, Nat.zero_le _, hstands⟩

/-- What is reported of some lines is what a search on them finds. -/
theorem exists_occurrences (file : Text) (lines : List Text) (index : Nat) : ∃ found : List Citation,
    ((lines.zipIdx index).flatMap fun (line, index) =>
      (Occurrence.values line).map fun value => Occurrence.mk file (index + 1) value) =
        found.map (occurrence file) ∧
      Leftmost (StandsAmong lines index) found := by
  induction lines generalizing index with
  | nil => exact ⟨[], rfl, nofun, .nil, by simp [StandsAmong]⟩
  | cons line lines ih =>
    obtain ⟨first, hvalues, hfirst⟩ := exists_values line index 0
    obtain ⟨rest, hrest, hlater⟩ := ih (index + 1)
    refine ⟨first ++ rest, ?_, (hfirst.append hlater ?_).congr fun _ => standsAmong_cons_iff⟩
    · have hline : first.map (occurrence file) =
          (first.map value).map (Occurrence.mk file (index + 1)) := by
        rw [List.map_map]
        refine List.map_congr_left fun citation hmem => ?_
        rw [occurrence, (hfirst.sound citation hmem).1]
        rfl
      rw [List.zipIdx_cons, List.flatMap_cons, hrest, List.map_append, hline, ← hvalues]
      rfl
    · intro earlier hearlier later hmem
      obtain ⟨hline, -⟩ := hfirst.sound earlier hearlier
      obtain ⟨hbelow, -⟩ := hlater.sound later hmem
      exact .inl (hline ▸ hbelow)

end Citation

namespace Occurrence

/-- What is reported of a text behind a line feed is what is reported of it alone, further down. -/
theorem ofText_append (file text more : Text) :
    ofText file (text ++ ['\n'] ++ more) =
      ofText file (text ++ ['\n']) ++ (ofText file more).map fun occurrence =>
        { occurrence with line := occurrence.line + (text ++ ['\n']).count '\n' } := by
  have hraised : (Text.lines more).zipIdx (0 + (text ++ ['\n']).count '\n') =
      (Text.lines more).zipIdx.map fun (line, index) => (line, (text ++ ['\n']).count '\n' + index) := by
    rw [Nat.zero_add, List.zipIdx_eq_map_add]
  rw [ofText, Text.lines_append, List.zipIdx_append, List.flatMap_append, Text.length_lines, hraised,
    List.flatMap_map, ofText, ofText, List.map_flatMap]
  congr 2
  funext ⟨line, index⟩
  dsimp only
  rw [List.map_map]
  refine List.map_congr_left fun value _ => ?_
  simp only [Function.comp_apply, Occurrence.mk.injEq, true_and, and_true]
  omega

/-- What is reported of a text are the values of the attributes that a search from left to right finds, and
there is one such search. What is reported of two texts behind one another is what is reported of each of
them, the second one's further down by the line feeds of the first one. -/
theorem ofText_leftmost (file : Text) :
    (∀ text : Text, ∃ found : List Citation,
      ofText file text = found.map (·.occurrence file) ∧
        ∀ other, Citation.Leftmost (·.StandsIn text) other ↔ other = found) ∧
    ∀ text more : Text, ofText file (text ++ ['\n'] ++ more) =
      ofText file (text ++ ['\n']) ++ (ofText file more).map fun occurrence =>
        { occurrence with line := occurrence.line + (text ++ ['\n']).count '\n' } := by
  refine ⟨fun text => ?_, ofText_append file⟩
  obtain ⟨found, hreported, hfound⟩ := Citation.exists_occurrences file (Text.lines text) 0
  have hleftmost : Citation.Leftmost (·.StandsIn text) found :=
    hfound.congr fun citation => by
      rw [Citation.standsIn_iff, Citation.StandsAmong, Nat.sub_zero, and_iff_right (Nat.zero_le _)]
  refine ⟨found, hreported, fun other => ⟨fun hother => ?_, fun heq => heq ▸ hleftmost⟩⟩
  exact hother.unique hleftmost fun citation ⟨_, _, hstands⟩ => hstands.1.ne_nil

/-- An attribute within the value of another one is left out, and so is the carriage return. -/
example : ofText [] "<see cref=\"cref='B'\"/>\r\n cref = 'C'".toList =
    [⟨[], 1, "cref='B'".toList⟩, ⟨[], 2, ['C']⟩] := by
  decide +kernel

end Occurrence

end DocRef
