import DocRef.Proofs.Grammar.Parsing
import Mathlib.Data.Set.Operations

/-!
Which token is faulted in a text that is no reference (`parse_error_faultedBy`). The reader keeps the
viable-prefix property: the tokens that it has taken begin a sentence (`Recognizes.viable_iff`), for a
type in the innermost group and the closers of all complete them (`completes_of_shaped`). So the token
that it cannot take is the first one that no sentence has there. The groups that it counts as open are
those that the tokens themselves leave open (`groups_step`), so a text that ends too early is faulted at
the innermost one.
-/

namespace DocRef

/-- Whether tokens begin a sentence. -/
def Viable (sentences : Set (List Token)) (tokens : List Token) : Prop :=
  ∃ rest, tokens ++ rest ∈ sentences

/-- Whether tokens begin a sentence that does not end with them. -/
def ProperlyViable (sentences : Set (List Token)) (tokens : List Token) : Prop :=
  ∃ rest, rest ≠ [] ∧ tokens ++ rest ∈ sentences

/-- Whether a token is the first that no sentence has in its place: the tokens before it begin a
sentence, and with it they begin none. At the end of the input, the tokens before it are no sentence. -/
def FirstImpossible (sentences : Set (List Token)) (before : List Token) (token : Token) : Prop :=
  Viable sentences before ∧
    if token = .endOfInput then before ∉ sentences else ¬ Viable sentences (before ++ [token])

/-- The open groups behind one more token, the innermost first, each with its opener and the position
of that. A closer ends the innermost. -/
def trackGroups (groups : List (Char × Nat)) (placed : PlacedToken) : List (Char × Nat) :=
  match placed.token with
  | .openParen => ('(', placed.position) :: groups
  | .openBrace => ('\x7b', placed.position) :: groups
  | .closeParen | .closeBrace => groups.tail
  | _ => groups

/-- The groups that tokens leave open. -/
def openGroups (placed : List PlacedToken) : List (Char × Nat) :=
  placed.foldl trackGroups []

/-- Whether a flaw states that a certain token was found. -/
def Flaw.Finds (flaw : Flaw) (found : String) : Prop :=
  (∃ expected, flaw = .unexpectedToken expected found) ∨ flaw = .trailingInput found

/-- Whether tokens, the last of them `endOfInput`, are faulted as a grammar asks. -/
structure FaultedBy (sentences : Set (List Token)) (placed : List PlacedToken)
    (malformed : Malformed) : Prop where
  /-- Either a token or a group is faulted. -/
  cause : (∃ found, malformed.flaw.Finds found) ∨
    ∃ opener, malformed.flaw = .unterminatedGroup opener
  /-- A token that is faulted is the first impossible one. -/
  token : ∀ found, malformed.flaw.Finds found → ∃ before bad after,
    placed = before ++ bad :: after ∧ malformed.position = bad.position ∧
      found = bad.token.description ∧ FirstImpossible sentences (before.map (·.token)) bad.token
  /-- A group is faulted exactly if it is the innermost of those that are open where the input ends
  within a sentence. -/
  group : ∀ opener position, malformed = ⟨position, .unterminatedGroup opener⟩ ↔
    ∃ init last, placed = init ++ [last] ∧ last.token = .endOfInput ∧
      ProperlyViable sentences (init.map (·.token)) ∧
      (openGroups init).head? = some (opener, position)

namespace Reading

/-! ### Open groups -/

/-- The open groups that frames stand for, the innermost first. -/
def frameGroups : List Frame → List (Char × Nat)
  | .argument _ opened _ :: frames => ('\x7b', opened) :: frameGroups frames
  | .parameter _ opened _ :: frames => ('(', opened) :: frameGroups frames
  | _ => []

/-- The open groups around the place where a reader stands. -/
def groups : Reading → List (Char × Nat)
  | .afterParen _ opened => [('(', opened)]
  | .beforeType frames | .afterDot frames _ | .afterType frames _ _ => frameGroups frames
  | _ => []

theorem opener?_eq (frames : List Frame) : opener? frames = (frameGroups frames).head? := by
  rcases frames with _ | ⟨frame, frames⟩
  · rfl
  · cases frame <;> rfl

theorem openGroup?_eq (reading : Reading) : reading.openGroup? = reading.groups.head? := by
  cases reading with
  | beforeType frames => exact opener?_eq frames
  | afterDot frames scope => exact opener?_eq frames
  | afterType frames node extent => exact opener?_eq frames
  | _ => rfl

section Steps

variable {frames : List Frame} {node : Node} {token : Token} {placed : PlacedToken}
  {next : Reading}

theorem groups_begin (h : begin frames token = some next) (position : Nat) :
    next.groups = trackGroups (frameGroups frames) ⟨token, position⟩ := by
  unfold begin at h
  split at h <;> cases h <;> rfl

theorem groups_leave (h : leave frames node token = some next) (position : Nat) :
    next.groups = trackGroups (frameGroups frames) ⟨token, position⟩ := by
  unfold leave at h
  split at h <;> cases h <;> rfl

theorem groups_resume {extent : Extent} (h : resume frames node extent placed = some next) :
    next.groups = trackGroups (frameGroups frames) placed := by
  unfold resume at h
  split at h
  · cases h
    rfl
  · cases h
    rfl
  · cases h
    rfl
  · exact groups_leave h _
  · cases h
    rfl
  · cases h
    rfl
  · cases h
    rfl
  · exact groups_leave h _

/-- A step opens and closes the groups that its token does. -/
theorem groups_step {reading : Reading} (h : reading.step placed = some next) :
    next.groups = trackGroups reading.groups placed := by
  unfold step at h
  split at h
  · cases h
    rfl
  · cases h
    rfl
  · cases h
    rfl
  · cases h
    rfl
  · exact groups_begin h _
  · cases h
    rfl
  · exact groups_begin h _
  · cases h
    rfl
  · exact groups_resume h
  · cases h

end Steps

theorem groups_steps {reading final : Reading} {placed : List PlacedToken}
    (h : reading.steps placed = some final) :
    final.groups = placed.foldl trackGroups reading.groups := by
  induction placed generalizing reading with
  | nil =>
    cases h
    rfl
  | cons first placed ih =>
    rw [steps, List.foldlM_cons] at h
    obtain ⟨next, hstep, hsteps⟩ := Option.bind_eq_some_iff.mp h
    rw [List.foldl_cons, ← groups_step hstep]
    exact ih hsteps

/-- Where a text may end, no group is open. -/
theorem groups_of_result {reading : Reading} {node : Node} (h : reading.result? = some node) :
    reading.groups = [] := by
  unfold result? at h
  split at h <;> first | rfl | cases h

/-! ### The viable-prefix property -/

theorem steps_cons {reading next final : Reading} {first : PlacedToken} {placed : List PlacedToken}
    (hstep : reading.step first = some next) (h : next.steps placed = some final) :
    reading.steps (first :: placed) = some final := by
  rw [steps, List.foldlM_cons, hstep]
  exact h

/-- Whether some tokens lead on to where the text may end. -/
def Completes (reading : Reading) : Prop :=
  ∃ placed final node, reading.steps placed = some final ∧ final.result? = some node

theorem Completes.of_result {reading : Reading} {node : Node} (h : reading.result? = some node) :
    reading.Completes :=
  ⟨[], reading, node, rfl, h⟩

theorem Completes.of_step {reading next : Reading} {first : PlacedToken}
    (hstep : reading.step first = some next) (h : next.Completes) : reading.Completes := by
  obtain ⟨placed, final, node, hsteps, hresult⟩ := h
  exact ⟨first :: placed, final, node, steps_cons hstep hsteps, hresult⟩

variable {whole : Bool}

/-- After a type, the closers of the open groups complete a sentence. -/
theorem completes_afterType (frames : List Frame) (hframes : Nested whole frames) (node : Node)
    (extent : Extent) : (afterType frames node extent).Completes := by
  induction frames generalizing node extent with
  | nil => exact .of_result rfl
  | cons frame frames ih =>
    cases frame with
    | argument generic opened before =>
      have hclose := (collects_argument generic opened frames).closer before node extent 0
      exact .of_step hclose (ih hframes.2.2.2 _ _)
    | parameter member opened before =>
      obtain ⟨-, rfl, -⟩ := hframes
      have hclose := (collects_parameter member opened).closer before node extent 0
      exact .of_step hclose (.of_result rfl)
    | returns member parameters =>
      obtain ⟨-, rfl, -⟩ := hframes
      exact .of_result rfl

/-- From every state that the reader can be in, some tokens complete a sentence. -/
theorem completes_of_shaped {reading : Reading} (h : reading.Shaped whole) : reading.Completes := by
  have hstep : ∀ (token : Token) {scope next : Reading}, scope.step ⟨token, 0⟩ = some next →
      next.Completes → scope.Completes := fun _ _ _ hstep => .of_step hstep
  cases reading with
  | beforeSegment scope => exact hstep (.name ['A']) rfl (.of_result rfl)
  | afterSegment chain => exact .of_result rfl
  | afterParen member opened => exact hstep .closeParen rfl (.of_result rfl)
  | afterParameters member parameters => exact .of_result rfl
  | beforeType frames => exact hstep (.name ['A']) rfl (completes_afterType frames h _ _)
  | afterDot frames scope => exact hstep (.name ['A']) rfl (completes_afterType frames h.1 _ _)
  | afterType frames node extent => exact completes_afterType frames h.1 node extent

/-- A grammar whose sentences lead from a state to where the text may end. -/
structure Recognizes (whole : Bool) (start : Reading) (sentences : Set (List Token)) : Prop where
  shaped : start.Shaped whole
  groups : start.groups = []
  mem_iff : ∀ placed : List PlacedToken, placed.map (·.token) ∈ sentences ↔
    ∃ final node, start.steps placed = some final ∧ final.result? = some node

section Recognizing

variable {start reached : Reading} {sentences : Set (List Token)}

theorem Recognizes.openGroups_eq (h : Recognizes whole start sentences) {placed : List PlacedToken}
    (hsteps : start.steps placed = some reached) : openGroups placed = reached.groups := by
  rw [groups_steps hsteps, h.groups, openGroups]

/-- Tokens begin a sentence if and only if the reader takes them. -/
theorem Recognizes.viable_iff (h : Recognizes whole start sentences) (placed : List PlacedToken) :
    Viable sentences (placed.map (·.token)) ↔ ∃ reached, start.steps placed = some reached := by
  constructor
  · rintro ⟨rest, hrest⟩
    have hplaced : (placed ++ rest.map (PlacedToken.mk · 0)).map (·.token) =
        placed.map (·.token) ++ rest := by
      simp [Function.comp_def]
    rw [← hplaced, h.mem_iff] at hrest
    obtain ⟨final, -, hsteps, -⟩ := hrest
    rw [steps_append] at hsteps
    obtain ⟨reached, hreached, -⟩ := Option.bind_eq_some_iff.mp hsteps
    exact ⟨reached, hreached⟩
  · rintro ⟨reached, hreached⟩
    obtain ⟨rest, final, node, hrest, hresult⟩ :=
      completes_of_shaped (steps_follows h.shaped hreached).1
    refine ⟨rest.map (·.token), ?_⟩
    rw [← List.map_append, h.mem_iff]
    refine ⟨final, node, ?_, hresult⟩
    rw [steps_append, hreached]
    exact hrest

/-- Tokens that leave a group open are no sentence. -/
theorem Recognizes.properlyViable (h : Recognizes whole start sentences)
    {placed : List PlacedToken} (hsteps : start.steps placed = some reached)
    (hopen : reached.groups ≠ []) : ProperlyViable sentences (placed.map (·.token)) := by
  obtain ⟨rest, hrest⟩ := (h.viable_iff placed).mpr ⟨reached, hsteps⟩
  refine ⟨rest, ?_, hrest⟩
  rintro rfl
  rw [List.append_nil, h.mem_iff, hsteps] at hrest
  obtain ⟨final, node, hfinal, hresult⟩ := hrest
  cases hfinal
  exact hopen (groups_of_result hresult)

end Recognizing

/-! ### What is faulted -/

/-- A list of tokens that is not accepted holds one that cannot be taken, or it ends too early. -/
theorem run_eq_error (reading : Reading) {placed : List PlacedToken} (position : Nat)
    (h : ∀ p ∈ placed, p.token ≠ .endOfInput) {malformed : Malformed}
    (hrun : reading.run (placed ++ [⟨.endOfInput, position⟩]) = .error malformed) :
    (∃ before bad after reached, placed = before ++ bad :: after ∧
      reading.steps before = some reached ∧ reached.step bad = none ∧
      malformed = reached.refuse bad) ∨
    ∃ reached, reading.steps placed = some reached ∧ reached.result? = none ∧
      malformed = reached.refuse ⟨.endOfInput, position⟩ := by
  induction placed generalizing reading with
  | nil =>
    refine .inr ⟨reading, rfl, ?_⟩
    rw [List.nil_append, run] at hrun
    cases hresult : reading.result? with
    | none =>
      rw [hresult] at hrun
      cases hrun
      exact ⟨rfl, rfl⟩
    | some node =>
      rw [hresult] at hrun
      cases hrun
  | cons first placed ih =>
    rw [List.cons_append, run_cons reading (h first List.mem_cons_self)] at hrun
    cases hstep : reading.step first with
    | none =>
      rw [hstep] at hrun
      cases hrun
      exact .inl ⟨[], first, placed, reading, rfl, rfl, hstep, rfl⟩
    | some next =>
      rw [hstep] at hrun
      rcases ih next (fun p hp => h p (List.mem_cons_of_mem _ hp)) hrun with
        ⟨before, bad, after, reached, rfl, hsteps, hbad, hrefuse⟩ | ⟨reached, hsteps, hend⟩
      · exact .inl ⟨first :: before, bad, after, reached, rfl, steps_cons hstep hsteps, hbad, hrefuse⟩
      · exact .inr ⟨reached, steps_cons hstep hsteps, hend⟩

/-- A refusal names the token, but for an end of the input within a group. -/
theorem refuse_finds (reading : Reading) {placed : PlacedToken}
    (h : placed.token = .endOfInput → reading.groups = []) :
    (reading.refuse placed).position = placed.position ∧
      (reading.refuse placed).flaw.Finds placed.token.description := by
  rw [refuse]
  split
  · next hend hopen =>
    rw [openGroup?_eq, h hend] at hopen
    cases hopen
  · exact ⟨rfl, .inl ⟨_, rfl⟩⟩
  · exact ⟨rfl, .inr rfl⟩

theorem refuse_group {reading : Reading} {opener : Char} {start : Nat}
    (h : reading.groups.head? = some (opener, start)) (position : Nat) :
    reading.refuse ⟨.endOfInput, position⟩ = ⟨start, .unterminatedGroup opener⟩ := by
  rw [refuse, openGroup?_eq, h]

end Reading

theorem Flaw.Finds.unique {flaw : Flaw} {found other : String} (h : flaw.Finds found)
    (hother : flaw.Finds other) : found = other := by
  rcases h with ⟨expected, rfl⟩ | rfl
  · obtain ⟨_, heq⟩ | heq := hother <;> cases heq
    rfl
  · obtain ⟨_, heq⟩ | heq := hother <;> cases heq
    rfl

theorem Flaw.not_finds_unterminatedGroup (opener : Char) (found : String) :
    ¬ (Flaw.unterminatedGroup opener).Finds found := by
  rintro (⟨_, heq⟩ | heq) <;> cases heq

section Faults

open Reading

variable {whole : Bool} {start reached : Reading} {sentences : Set (List Token)}
  {init : List PlacedToken} {position : Nat}

/-- A token is faulted as the grammar asks if it is the first impossible one, and no group is open where
the input ends within a sentence. -/
theorem FaultedBy.of_finds {placed before after : List PlacedToken} {bad : PlacedToken}
    {malformed : Malformed} (hplaced : placed = before ++ bad :: after)
    (hposition : malformed.position = bad.position)
    (hfinds : malformed.flaw.Finds bad.token.description)
    (himpossible : FirstImpossible sentences (before.map (·.token)) bad.token)
    (hclosed : ∀ init last, placed = init ++ [last] → ProperlyViable sentences (init.map (·.token)) →
      openGroups init = []) :
    FaultedBy sentences placed malformed where
  cause := .inl ⟨_, hfinds⟩
  token _ hfound := ⟨before, bad, after, hplaced, hposition, hfound.unique hfinds, himpossible⟩
  group opener place := by
    constructor
    · rintro rfl
      exact absurd hfinds (Flaw.not_finds_unterminatedGroup opener _)
    · rintro ⟨init, last, hinit, -, hviable, hgroup⟩
      rw [hclosed init last hinit hviable] at hgroup
      cases hgroup

/-- A group is faulted as the grammar asks if it is the innermost open one where the input ends within a
sentence. -/
theorem FaultedBy.of_group {opener : Char} {place : Nat}
    (hviable : ProperlyViable sentences (init.map (·.token)))
    (hopen : (openGroups init).head? = some (opener, place)) :
    FaultedBy sentences (init ++ [⟨.endOfInput, position⟩]) ⟨place, .unterminatedGroup opener⟩ where
  cause := .inr ⟨opener, rfl⟩
  token found hfound := absurd hfound (Flaw.not_finds_unterminatedGroup opener found)
  group other otherPlace := by
    constructor
    · intro heq
      cases heq
      exact ⟨init, _, rfl, rfl, hviable, hopen⟩
    · rintro ⟨tokens, last, hplaced, -, -, hgroup⟩
      obtain ⟨rfl, -⟩ := List.append_inj' hplaced rfl
      rw [hopen] at hgroup
      cases hgroup
      rfl

/-- What is faulted at a token before the end of the input. -/
theorem Reading.Recognizes.faultedBy_token (h : Recognizes whole start sentences)
    {before after : List PlacedToken} {bad : PlacedToken} (hbad : bad.token ≠ .endOfInput)
    (hsteps : start.steps before = some reached) (hstep : reached.step bad = none) :
    FaultedBy sentences (before ++ bad :: after ++ [⟨.endOfInput, position⟩])
      (reached.refuse bad) := by
  have himpossible : ∀ rest, ¬ Viable sentences ((before ++ bad :: rest).map (·.token)) := by
    intro rest hviable
    obtain ⟨final, hfinal⟩ := (h.viable_iff _).mp hviable
    rw [steps_append, hsteps, Option.bind_some, steps, List.foldlM_cons, hstep] at hfinal
    cases hfinal
  obtain ⟨hposition, hfinds⟩ := reached.refuse_finds fun hend => absurd hend hbad
  refine .of_finds (List.append_assoc _ _ _) hposition hfinds ⟨?_, ?_⟩ ?_
  · exact (h.viable_iff before).mpr ⟨reached, hsteps⟩
  · rw [if_neg hbad]
    simpa using himpossible []
  · rintro init last hplaced ⟨rest, -, hrest⟩
    obtain ⟨rfl, -⟩ := List.append_inj' hplaced rfl
    exact absurd ⟨rest, hrest⟩ (himpossible after)

/-- What is faulted at the end of the input. -/
theorem Reading.Recognizes.faultedBy_end (h : Recognizes whole start sentences)
    (hsteps : start.steps init = some reached) (hresult : reached.result? = none) :
    FaultedBy sentences (init ++ [⟨.endOfInput, position⟩])
      (reached.refuse ⟨.endOfInput, position⟩) := by
  have hopen := h.openGroups_eq hsteps
  cases hhead : reached.groups.head? with
  | none =>
    have hnil : reached.groups = [] := List.head?_eq_none_iff.mp hhead
    obtain ⟨hposition, hfinds⟩ :=
      @refuse_finds reached ⟨.endOfInput, position⟩ fun _ => hnil
    refine .of_finds rfl hposition hfinds ⟨(h.viable_iff init).mpr ⟨reached, hsteps⟩, ?_⟩ ?_
    · rw [if_pos rfl, h.mem_iff, hsteps]
      rintro ⟨final, node, hfinal, hnode⟩
      cases hfinal
      rw [hresult] at hnode
      cases hnode
    · intro tokens last hplaced _
      obtain ⟨rfl, -⟩ := List.append_inj' hplaced rfl
      rw [hopen, hnil]
  | some group =>
    obtain ⟨opener, place⟩ := group
    have hgroups : reached.groups ≠ [] := by
      intro hnil
      rw [hnil] at hhead
      cases hhead
    rw [refuse_group hhead position]
    exact .of_group (h.properlyViable hsteps hgroups) (hopen ▸ hhead)

theorem Reading.Recognizes.faultedBy (h : Recognizes whole start sentences)
    (hinit : ∀ p ∈ init, p.token ≠ .endOfInput) {malformed : Malformed}
    (hrun : start.run (init ++ [⟨.endOfInput, position⟩]) = .error malformed) :
    FaultedBy sentences (init ++ [⟨.endOfInput, position⟩]) malformed := by
  rcases start.run_eq_error position hinit hrun with
    ⟨before, bad, after, reached, rfl, hsteps, hstep, rfl⟩ | ⟨reached, hsteps, hresult, rfl⟩
  · exact h.faultedBy_token (hinit bad (by simp)) hsteps hstep
  · exact h.faultedBy_end hsteps hresult

/-- The reader of references recognizes what the grammar derives from a reference. -/
theorem recognizes_reference :
    Recognizes true (.beforeSegment none) (Set.range ReferenceDerivation.tokens) where
  shaped := ⟨rfl, by simp⟩
  groups := rfl
  mem_iff placed := by
    constructor
    · rintro ⟨reference, htokens⟩
      have hnode := (steps_reference_iff placed reference.node).mpr
        ⟨reference.node_isReference, by rw [reference.node_tokens, htokens]⟩
      obtain ⟨final, hsteps, hresult⟩ := hnode
      exact ⟨final, _, hsteps, hresult⟩
    · rintro ⟨final, node, hsteps, hresult⟩
      obtain ⟨hreference, htokens⟩ := (steps_reference_iff placed node).mp ⟨final, hsteps, hresult⟩
      refine ⟨node.deriveReference, ?_⟩
      rw [htokens, ← ReferenceDerivation.node_tokens, Node.node_deriveReference hreference]

/-- The reader of types recognizes what the grammar derives from a type. -/
theorem recognizes_type : Recognizes false (.beforeType []) (Set.range TypeDerivation.tokens) where
  shaped := rfl
  groups := rfl
  mem_iff placed := by
    constructor
    · rintro ⟨type, htokens⟩
      have hnode := (steps_type_iff placed type.node).mpr
        ⟨type.node_isType, by rw [type.node_tokens, htokens]⟩
      obtain ⟨final, hsteps, hresult⟩ := hnode
      exact ⟨final, _, hsteps, hresult⟩
    · rintro ⟨final, node, hsteps, hresult⟩
      obtain ⟨htype, htokens⟩ := (steps_type_iff placed node).mp ⟨final, hsteps, hresult⟩
      refine ⟨node.derive, ?_⟩
      rw [htokens, ← TypeDerivation.node_tokens, node.node_derive htype]

/-- Where a reader recognizes a grammar, so it does for the tokens of a text. -/
theorem Reading.Recognizes.faultedBy_of_tokensFrom (h : Recognizes whole start sentences) {text : Text}
    {placed : List PlacedToken} (htokens : tokensFrom position text = .ok placed)
    {malformed : Malformed} (hrun : start.run placed = .error malformed) :
    FaultedBy sentences placed malformed := by
  obtain ⟨init, last, rfl, hwritable⟩ := tokensFrom_writable htokens
  refine h.faultedBy (fun p hp hend => ?_) hrun
  have hp := hwritable p hp
  rw [hend] at hp
  exact hp

end Faults

/-- If a text can be cut into tokens behind its kind and is no reference, it is faulted at the first
token that no reference has there, or, where it ends within a reference, at the innermost open group if
there is one. The same holds of a text that is no type, and the grammar of types. -/
theorem parse_error_faultedBy :
    (∀ (text body : Text) (kind : Option SymbolKind) (start : Nat) (placed : List PlacedToken)
      (malformed : Malformed), splitKind text = .ok (kind, start, body) →
      tokensFrom start body = .ok placed → Reference.parse text = .error malformed →
        FaultedBy (Set.range ReferenceDerivation.tokens) placed malformed) ∧
    ∀ (text : Text) (placed : List PlacedToken) (malformed : Malformed),
      tokenize text = .ok placed → Node.parseType text = .error malformed →
        FaultedBy (Set.range TypeDerivation.tokens) placed malformed := by
  constructor
  · intro text body kind start placed malformed hsplit htokens hparse
    rw [parse_of_splitKind hsplit, htokens, Except.bind] at hparse
    cases hrun : (Reading.beforeSegment none).run placed with
    | ok node =>
      rw [hrun] at hparse
      cases hparse
    | error other =>
      rw [hrun] at hparse
      cases hparse
      exact recognizes_reference.faultedBy_of_tokensFrom htokens hrun
  · intro text placed malformed htokens hparse
    change (tokenize text).bind (Reading.beforeType []).run = .error malformed at hparse
    rw [htokens] at hparse
    exact recognizes_type.faultedBy_of_tokensFrom htokens hparse

/-- The text `M:A.B(C{D` ends within a reference, and its brace is faulted as the innermost open group.
In the type `A{B)`, the parenthesis is faulted. -/
theorem parse_error_faultedBy_innermost :
    Reference.parse "M:A.B(C\x7bD".toList = .error ⟨7, .unterminatedGroup '\x7b'⟩ ∧
    FaultedBy (Set.range ReferenceDerivation.tokens)
      [⟨.name ['A'], 2⟩, ⟨.dot, 3⟩, ⟨.name ['B'], 4⟩, ⟨.openParen, 5⟩, ⟨.name ['C'], 6⟩,
        ⟨.openBrace, 7⟩, ⟨.name ['D'], 8⟩, ⟨.endOfInput, 9⟩] ⟨7, .unterminatedGroup '\x7b'⟩ ∧
    Node.parseType "A\x7bB)".toList = .error ⟨3, .unexpectedToken "`,` or `\x7d`" "`)`"⟩ ∧
    FaultedBy (Set.range TypeDerivation.tokens)
      [⟨.name ['A'], 0⟩, ⟨.openBrace, 1⟩, ⟨.name ['B'], 2⟩, ⟨.closeParen, 3⟩, ⟨.endOfInput, 4⟩]
      ⟨3, .unexpectedToken "`,` or `\x7d`" "`)`"⟩ := by
  have hreference : Reference.parse "M:A.B(C\x7bD".toList = .error ⟨7, .unterminatedGroup '\x7b'⟩ := by
    decide +kernel
  have hsplit : splitKind "M:A.B(C\x7bD".toList = .ok (some .method, 2, "A.B(C\x7bD".toList) := by
    decide +kernel
  have htype : Node.parseType "A\x7bB)".toList =
      .error ⟨3, .unexpectedToken "`,` or `\x7d`" "`)`"⟩ := by decide +kernel
  refine ⟨hreference, ?_, htype, ?_⟩
  · exact parse_error_faultedBy.1 _ _ _ _ _ _ hsplit (by decide +kernel) hreference
  · exact parse_error_faultedBy.2 _ _ _ (by decide +kernel) htype

end DocRef
