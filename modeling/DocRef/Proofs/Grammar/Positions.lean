import DocRef.Proofs.Grammar.Parsing

/-!
The reader looks at no position. It keeps those of the openers and gives them back when it refuses a
token, so tokens at other places are read as the same tree, or refused for the same reason at the other
place (`Reading.run_move`). What is read off a text is therefore settled by the tokens behind its kind
(`parse_of_tokensFrom`), up to the place of a flaw.
-/

namespace DocRef

variable (place : Nat → Nat)

/-- A token at another place. -/
def PlacedToken.move (placed : PlacedToken) : PlacedToken :=
  ⟨placed.token, place placed.position⟩

/-- A flaw at another place. -/
def Malformed.move (malformed : Malformed) : Malformed :=
  ⟨place malformed.position, malformed.flaw⟩

/-- A frame whose group is opened at another place. -/
def Frame.move : Frame → Frame
  | .argument generic opened before => .argument generic (place opened) before
  | .parameter member opened before => .parameter member (place opened) before
  | .returns member parameters => .returns member parameters

namespace Reading

/-- A state whose groups are opened at other places. -/
def move : Reading → Reading
  | .beforeSegment scope => .beforeSegment scope
  | .afterSegment chain => .afterSegment chain
  | .afterParen member opened => .afterParen member (place opened)
  | .afterParameters member parameters => .afterParameters member parameters
  | .beforeType frames => .beforeType (frames.map (Frame.move place))
  | .afterDot frames scope => .afterDot (frames.map (Frame.move place)) scope
  | .afterType frames node extent => .afterType (frames.map (Frame.move place)) node extent

variable {place}

section Steps

variable (frames : List Frame) (node : Node) (token : Token)

theorem begin_move : begin (frames.map (Frame.move place)) token =
    (begin frames token).map (Reading.move place) := by
  cases token <;> rfl

theorem leave_move : leave (frames.map (Frame.move place)) node token =
    (leave frames node token).map (Reading.move place) := by
  cases frames with
  | nil => cases token <;> rfl
  | cons frame frames =>
    cases frame with
    | argument generic opened before => cases token <;> rfl
    | parameter member opened before => cases frames <;> cases token <;> rfl
    | returns member parameters => cases token <;> rfl

theorem resume_move (extent : Extent) (placed : PlacedToken) :
    resume (frames.map (Frame.move place)) node extent (placed.move place) =
      (resume frames node extent placed).map (Reading.move place) := by
  obtain ⟨token, position⟩ := placed
  have hleave : ∀ token, leave (frames.map (Frame.move place)) node token =
      (leave frames node token).map (Reading.move place) := leave_move frames node
  cases extent <;> cases token <;> first | rfl | exact hleave _

/-- A token at another place is taken in the same way. -/
theorem step_move (reading : Reading) (placed : PlacedToken) :
    (reading.move place).step (placed.move place) = (reading.step placed).map (Reading.move place) := by
  obtain ⟨token, position⟩ := placed
  cases reading with
  | beforeType frames => exact begin_move frames token
  | afterType frames node extent => exact resume_move frames node extent ⟨token, position⟩
  | _ => cases token <;> rfl

end Steps

theorem result?_move (reading : Reading) : (reading.move place).result? = reading.result? := by
  cases reading with
  | afterType frames node extent =>
    rcases frames with _ | ⟨frame, _ | ⟨other, frames⟩⟩
    · rfl
    · cases frame <;> rfl
    · cases frame <;> rfl
  | _ => rfl

theorem openGroup?_move (reading : Reading) : (reading.move place).openGroup? =
    reading.openGroup?.map fun group => (group.1, place group.2) := by
  have hopener : ∀ frames : List Frame, opener? (frames.map (Frame.move place)) =
      (opener? frames).map fun group => (group.1, place group.2) := by
    rintro (_ | ⟨frame, frames⟩)
    · rfl
    · cases frame <;> rfl
  cases reading with
  | beforeType frames => exact hopener frames
  | afterDot frames scope => exact hopener frames
  | afterType frames node extent => exact hopener frames
  | _ => rfl

theorem expected?_move (reading : Reading) : (reading.move place).expected? = reading.expected? := by
  cases reading with
  | afterType frames node extent =>
    rcases frames with _ | ⟨frame, frames⟩
    · rfl
    · cases frame <;> rfl
  | _ => rfl

theorem refuse_move (reading : Reading) (placed : PlacedToken) :
    (reading.move place).refuse (placed.move place) = (reading.refuse placed).move place := by
  obtain ⟨token, position⟩ := placed
  rw [refuse, refuse, openGroup?_move, expected?_move]
  cases reading.openGroup? <;> cases reading.expected? <;> cases token <;> rfl

/-- Tokens at other places are read as the same tree, or there is the same flaw at the other place. -/
theorem run_move (reading : Reading) {placed : List PlacedToken}
    (hend : ∃ last ∈ placed, last.token = .endOfInput) :
    (reading.move place).run (placed.map (PlacedToken.move place)) =
      (reading.run placed).mapError (Malformed.move place) := by
  induction placed generalizing reading with
  | nil =>
    obtain ⟨last, hlast, -⟩ := hend
    cases hlast
  | cons first rest ih =>
    by_cases hfirst : first.token = .endOfInput
    · obtain ⟨token, position⟩ := first
      obtain rfl : token = .endOfInput := hfirst
      rw [List.map_cons, PlacedToken.move, run, run, result?_move]
      cases reading.result? with
      | some node => rfl
      | none => exact congrArg Except.error (refuse_move reading ⟨.endOfInput, position⟩)
    · have hrest : ∃ last ∈ rest, last.token = .endOfInput := by
        obtain ⟨last, hlast, htoken⟩ := hend
        rcases List.mem_cons.mp hlast with rfl | hlast
        · exact absurd htoken hfirst
        · exact ⟨last, hlast, htoken⟩
      have hmoved : (first.move place).token ≠ .endOfInput := hfirst
      rw [List.map_cons, run_cons _ hfirst, run_cons _ hmoved, step_move, refuse_move]
      cases reading.step first with
      | none => rfl
      | some next => exact ih next hrest

end Reading

/-! ### Texts -/

/-- The end of a kind, white space in front of it included, is where the rest begins. -/
theorem start_of_splitKind {text body : Text} {kind : Option SymbolKind} {start : Nat}
    (h : splitKind text = .ok (kind, start, body)) :
    start = Text.byteLength (text.takeWhile isBlank ++ kindPrefix kind) := by
  rw [Text.byteLength_append]
  unfold splitKind at h
  split at h
  · next hfront =>
    split at h
    · next hkind =>
      cases h
      rw [SymbolKind.letter_of_ofLetter? hkind, Nat.add_assoc]
      rfl
    · cases h
  · cases h
    rfl

/-- A text whose rest behind the kind can be cut into tokens is read by these tokens. -/
theorem parse_of_tokensFrom {blank body : Text} {kind : Option SymbolKind} {tokens : List PlacedToken}
    (hblank : ∀ c ∈ blank, isBlank c = true)
    (htokens : tokensFrom (blank ++ kindPrefix kind).byteLength body = .ok tokens) :
    Reference.parse (blank ++ kindPrefix kind ++ body) =
      ((Reading.beforeSegment none).run tokens).map (⟨kind, ·⟩) := by
  rw [Text.byteLength_append] at htokens
  cases kind with
  | some kind =>
    have hstart : blank.byteLength + kind.letter.utf8Size + 1 =
        blank.byteLength + Text.byteLength (kindPrefix (some kind)) := Nat.add_assoc _ _ _
    rw [parse_of_splitKind (splitKind_some hblank kind body), hstart, htokens]
    rfl
  | none =>
    rw [kindPrefix, List.append_nil]
    -- Both the white space in front and that of the rest are split off together.
    have hwhole : tokensFrom 0 (blank ++ body) = .ok tokens := by
      rw [tokensFrom_blank_append hblank, Nat.zero_add]
      exact htokens
    have hsplit := splitKind_none (blank ++ body) fun first after hfront =>
      not_tokensFrom_of_colon hfront tokens hwhole
    have hfront : tokensFrom 0 ((blank ++ body).takeWhile isBlank ++
        (blank ++ body).dropWhile isBlank) = .ok tokens := by
      rwa [List.takeWhile_append_dropWhile]
    rw [tokensFrom_blank_append fun c hc => List.all_eq_true.mp List.all_takeWhile c hc,
      Nat.zero_add] at hfront
    rw [parse_of_splitKind hsplit, hfront]
    rfl

end DocRef
