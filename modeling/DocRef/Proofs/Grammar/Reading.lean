import DocRef.Proofs.Grammar.Shape

/-!
The reader of tokens accepts what the grammar derives, and nothing else. A state of the reader
accounts for the tokens it has taken (`Reading.taken`) and holds only trees of the right shapes
(`Reading.Shaped`); one step keeps both, so an accepted run ends with a tree whose tokens are those
of the text. In the other direction, the tokens of a tree lead from the state before a type to the
state after that tree, whatever frames stand around it.
-/

namespace DocRef

/-- How far a tree may be continued as a type. -/
def Node.extent : Node → Extent
  | .root _ | .child .. => .name
  | .closed .. => .segment
  | .array .. | .typeParam _ | .methodParam _ => .element
  | .byRef _ | .pointer _ | .method .. => .complete

/-- The tokens of several trees, each before a comma. -/
def Node.tokensBefore (nodes : List Node) : List Token :=
  nodes.flatMap fun node => node.tokens ++ [.comma]

theorem Node.tokensAll_append (nodes : List Node) (node : Node) :
    tokensAll (nodes ++ [node]) = tokensBefore nodes ++ node.tokens := by
  have hafter : ∀ nodes : List Node, .comma :: tokensBefore nodes ++ node.tokens =
      tokensAfter (nodes ++ [node]) := by
    intro nodes
    induction nodes with
    | nil => simp [tokensBefore, tokensAfter]
    | cons first nodes ih =>
      simp only [List.cons_append, tokensAfter, ← ih]
      simp [tokensBefore]
  cases nodes with
  | nil => simp [tokensAll, tokensAfter, tokensBefore]
  | cons first nodes =>
    simp only [List.cons_append, tokensAll, ← hafter]
    simp [tokensBefore]

/-- The tokens of a group up to the type that is being read. -/
def Frame.tokens : Frame → List Token
  | .argument generic _ before => generic.tokens ++ .openBrace :: Node.tokensBefore before
  | .parameter member _ before => member.tokens ++ .openParen :: Node.tokensBefore before
  | .returns member parameters => (Node.method member parameters none).tokens ++ [.tilde]

namespace Reading

/-- The tokens of nested groups, the outermost first. -/
def frameTokens : List Frame → List Token
  | [] => []
  | frame :: frames => frameTokens frames ++ frame.tokens

/-- The tokens that a reading has taken. -/
def taken : Reading → List Token
  | .beforeSegment none => []
  | .beforeSegment (some scope) => scope.tokens ++ [.dot]
  | .afterSegment chain => chain.tokens
  | .afterParen member _ => member.tokens ++ [.openParen]
  | .afterParameters member parameters => (Node.method member parameters none).tokens
  | .beforeType frames => frameTokens frames
  | .afterDot frames scope => frameTokens frames ++ scope.tokens ++ [.dot]
  | .afterType frames node _ => frameTokens frames ++ node.tokens

/-- Whether frames nest as they do within a reference, or, if `whole` is false, within a type that
stands alone. -/
def Nested (whole : Bool) : List Frame → Prop
  | [] => whole = false
  | .argument generic _ before :: frames =>
    generic.IsType ∧ generic.isSegment ∧ Node.AllTypes before ∧ Nested whole frames
  | .parameter member _ before :: frames =>
    whole = true ∧ frames = [] ∧ member.IsMember ∧ Node.AllTypes before
  | .returns member parameters :: frames =>
    whole = true ∧ frames = [] ∧ member.IsMember ∧ Node.AllTypes parameters

/-- Whether a reading holds trees of the shapes that its place asks for. -/
def Shaped (whole : Bool) : Reading → Prop
  | .beforeSegment scope => whole = true ∧ ∀ node ∈ scope, node.IsMember
  | .afterSegment chain => whole = true ∧ chain.IsMember
  | .afterParen member _ => whole = true ∧ member.IsMember
  | .afterParameters member parameters =>
    whole = true ∧ member.IsMember ∧ Node.AllTypes parameters
  | .beforeType frames => Nested whole frames
  | .afterDot frames scope => Nested whole frames ∧ scope.IsType ∧ scope.isScope
  | .afterType frames node extent => Nested whole frames ∧ node.IsType ∧ extent = node.extent

/-- Whether `next` has taken one token more, and is still in shape. -/
def Follows (whole : Bool) (before : List Token) (token : Token) (next : Reading) : Prop :=
  next.Shaped whole ∧ next.taken = before ++ [token]

/-! ### Soundness of a step -/

variable {whole : Bool} {frames : List Frame} {node : Node} {token : Token} {next : Reading}

theorem begin_follows (hframes : Nested whole frames) (h : begin frames token = some next) :
    Follows whole (frameTokens frames) token next := by
  unfold begin at h
  split at h
  · cases h
    exact ⟨⟨hframes, trivial, rfl⟩, rfl⟩
  · cases h
    exact ⟨⟨hframes, trivial, rfl⟩, rfl⟩
  · cases h
    exact ⟨⟨hframes, trivial, rfl⟩, rfl⟩
  · cases h

theorem leave_follows (hframes : Nested whole frames) (htype : node.IsType)
    (h : leave frames node token = some next) :
    Follows whole (frameTokens frames ++ node.tokens) token next := by
  unfold leave at h
  split at h
  · -- a comma, and a further argument
    cases h
    obtain ⟨hgeneric, hsegment, hbefore, hframes⟩ := hframes
    refine ⟨⟨hgeneric, hsegment, ?_, hframes⟩, ?_⟩
    · exact (Node.allTypes_append _ _).mpr ⟨hbefore, htype, trivial⟩
    · simp [taken, frameTokens, Frame.tokens, Node.tokensBefore]
  · -- the brace that closes the arguments
    cases h
    obtain ⟨hgeneric, hsegment, hbefore, hframes⟩ := hframes
    refine ⟨⟨hframes, ⟨hgeneric, hsegment, by simp, ?_⟩, rfl⟩, ?_⟩
    · exact (Node.allTypes_append _ _).mpr ⟨hbefore, htype, trivial⟩
    · simp [taken, frameTokens, Frame.tokens, Node.tokens, Node.tokensAll_append]
  · -- a comma, and a further parameter
    cases h
    obtain ⟨hwhole, hframes, hmember, hbefore⟩ := hframes
    refine ⟨⟨hwhole, hframes, hmember, ?_⟩, ?_⟩
    · exact (Node.allTypes_append _ _).mpr ⟨hbefore, htype, trivial⟩
    · simp [taken, frameTokens, Frame.tokens, Node.tokensBefore]
  · -- the parenthesis that closes the parameters
    cases h
    obtain ⟨hwhole, -, hmember, hbefore⟩ := hframes
    refine ⟨⟨hwhole, hmember, ?_⟩, ?_⟩
    · exact (Node.allTypes_append _ _).mpr ⟨hbefore, htype, trivial⟩
    · simp [taken, frameTokens, Frame.tokens, Node.tokens, Node.tokensReturn,
        Node.tokensAll_append]
  · cases h

theorem isSegment_of_extent (h : node.extent = .name) : node.isSegment := by
  cases node <;> first | rfl | cases h

theorem isScope_of_extent (h : node.extent = .name ∨ node.extent = .segment) : node.isScope := by
  cases node <;> first | rfl | simp [Node.extent] at h

theorem isElement_of_extent (h : node.extent ≠ .complete) : node.isElement := by
  cases node <;> first | rfl | exact absurd rfl h

theorem resume_follows {extent : Extent} {placed : PlacedToken} (hframes : Nested whole frames)
    (htype : node.IsType) (hextent : extent = node.extent)
    (h : resume frames node extent placed = some next) :
    Follows whole (frameTokens frames ++ node.tokens) placed.token next := by
  unfold resume at h
  split at h
  · -- arguments follow a name
    cases h
    refine ⟨⟨htype, isSegment_of_extent hextent.symm, trivial, hframes⟩, ?_⟩
    simp [taken, frameTokens, Frame.tokens, Node.tokensBefore]
  · cases h
    refine ⟨⟨hframes, htype, isScope_of_extent (.inl hextent.symm)⟩, ?_⟩
    simp [taken]
  · cases h
    refine ⟨⟨hframes, htype, isScope_of_extent (.inr hextent.symm)⟩, ?_⟩
    simp [taken]
  · exact leave_follows hframes htype h
  · next hcomplete =>
    cases h
    have helement := isElement_of_extent fun hnode => hcomplete (hextent.trans hnode)
    exact ⟨⟨hframes, ⟨htype, helement⟩, rfl⟩, by simp [taken, Node.tokens]⟩
  · next hcomplete =>
    cases h
    have helement := isElement_of_extent fun hnode => hcomplete (hextent.trans hnode)
    exact ⟨⟨hframes, ⟨htype, helement⟩, rfl⟩, by simp [taken, Node.tokens]⟩
  · next hcomplete =>
    cases h
    have helement := isElement_of_extent fun hnode => hcomplete (hextent.trans hnode)
    exact ⟨⟨hframes, ⟨htype, helement⟩, rfl⟩, by simp [taken, Node.tokens]⟩
  · exact leave_follows hframes htype h

/-- One step takes one token and keeps the shapes. -/
theorem step_follows {reading : Reading} {placed : PlacedToken} (hshaped : reading.Shaped whole)
    (h : reading.step placed = some next) : Follows whole reading.taken placed.token next := by
  unfold step at h
  split at h
  · next scope text _ =>
    cases h
    cases scope with
    | none => exact ⟨⟨hshaped.1, trivial⟩, rfl⟩
    | some scope =>
      refine ⟨⟨hshaped.1, hshaped.2 scope rfl⟩, ?_⟩
      simp [taken, Node.segment, Node.tokens]
  · cases h
    refine ⟨⟨hshaped.1, ?_⟩, rfl⟩
    rintro node hnode
    cases hnode
    exact hshaped.2
  · cases h
    exact ⟨hshaped, rfl⟩
  · cases h
    refine ⟨⟨hshaped.1, hshaped.2, trivial⟩, ?_⟩
    simp [taken, Node.tokens, Node.tokensAll, Node.tokensReturn]
  · next member opened token _ _ =>
    have hnested : Nested whole [.parameter member opened []] :=
      ⟨hshaped.1, rfl, hshaped.2, trivial⟩
    have hbegin := begin_follows hnested h
    simpa [Follows, taken, frameTokens, Frame.tokens, Node.tokensBefore] using hbegin
  · cases h
    refine ⟨⟨hshaped.1, rfl, hshaped.2⟩, ?_⟩
    simp [taken, frameTokens, Frame.tokens]
  · exact begin_follows hshaped h
  · cases h
    refine ⟨⟨hshaped.1, hshaped.2, rfl⟩, ?_⟩
    simp [taken, Node.tokens]
  · exact resume_follows hshaped.1 hshaped.2.1 hshaped.2.2 h
  · cases h

/-! ### Runs -/

/-- Takes several tokens. -/
def steps (reading : Reading) (placed : List PlacedToken) : Option Reading :=
  placed.foldlM step reading

theorem steps_append (reading : Reading) (placed others : List PlacedToken) :
    reading.steps (placed ++ others) = (reading.steps placed).bind (·.steps others) := by
  rw [steps, List.foldlM_append]
  rfl

/-- A run keeps the shapes and takes all the tokens. -/
theorem steps_follows {reading final : Reading} {placed : List PlacedToken}
    (hshaped : reading.Shaped whole) (h : reading.steps placed = some final) :
    final.Shaped whole ∧ final.taken = reading.taken ++ placed.map (·.token) := by
  induction placed generalizing reading with
  | nil =>
    cases h
    exact ⟨hshaped, by simp⟩
  | cons first placed ih =>
    rw [steps, List.foldlM_cons] at h
    obtain ⟨next, hstep, hsteps⟩ := Option.bind_eq_some_iff.mp h
    obtain ⟨hnext, htaken⟩ := step_follows hshaped hstep
    obtain ⟨hfinal, hrest⟩ := ih hnext hsteps
    exact ⟨hfinal, by simp [hrest, htaken]⟩

theorem run_cons (reading : Reading) {first : PlacedToken} (h : first.token ≠ .endOfInput)
    (rest : List PlacedToken) :
    reading.run (first :: rest) =
      (reading.step first).elim (.error (reading.refuse first)) (·.run rest) := by
  obtain ⟨token, start⟩ := first
  cases token with
  | endOfInput => exact absurd rfl h
  | _ =>
    rw [run]
    · cases reading.step ⟨_, start⟩ <;> rfl
    · simp

/-- A list of tokens is accepted if its tokens lead to a state in which the text may end. -/
theorem run_eq_ok_iff (reading : Reading) {placed : List PlacedToken} (position : Nat)
    (h : ∀ p ∈ placed, p.token ≠ .endOfInput) (node : Node) :
    reading.run (placed ++ [⟨.endOfInput, position⟩]) = .ok node ↔
      ∃ final, reading.steps placed = some final ∧ final.result? = some node := by
  induction placed generalizing reading with
  | nil =>
    simp only [List.nil_append, run, steps, List.foldlM_nil, Option.pure_def, Option.some.injEq,
      exists_eq_left']
    cases reading.result? <;> simp
  | cons first placed ih =>
    rw [List.cons_append, run_cons reading (h first List.mem_cons_self), steps, List.foldlM_cons]
    cases reading.step first with
    | none => simp
    | some next => exact ih next fun p hp => h p (List.mem_cons_of_mem _ hp)

/-- What a reference is read as has the shape of a reference and the tokens of the text. -/
theorem isReference_of_result {final : Reading} (hshaped : final.Shaped true)
    (h : final.result? = some node) : node.IsReference ∧ node.tokens = final.taken := by
  unfold result? at h
  split at h
  · cases h
    exact ⟨hshaped.2.isReference, rfl⟩
  · cases h
    exact ⟨⟨hshaped.2.1, hshaped.2.2, by simp⟩, rfl⟩
  · exact absurd hshaped.1 (by simp [Nested])
  · cases h
    obtain ⟨⟨-, -, hmember, hparameters⟩, htype, -⟩ := hshaped
    refine ⟨⟨hmember, hparameters, ?_⟩, ?_⟩
    · rintro type htype'
      cases htype'
      exact htype
    · simp [taken, frameTokens, Frame.tokens, Node.tokens, Node.tokensReturn]
  · cases h

theorem isType_of_result {final : Reading} (hshaped : final.Shaped false)
    (h : final.result? = some node) : node.IsType ∧ node.tokens = final.taken := by
  unfold result? at h
  split at h
  · exact absurd hshaped.1 Bool.false_ne_true
  · exact absurd hshaped.1 Bool.false_ne_true
  · cases h
    exact ⟨hshaped.2.1, by simp [taken, frameTokens]⟩
  · exact absurd hshaped.1.1 Bool.false_ne_true
  · cases h

/-! ### Completeness -/

/-- Whether tokens, wherever they are placed, lead from one state to another. -/
def Leads (reading : Reading) (tokens : List Token) (final : Reading) : Prop :=
  ∀ placed : List PlacedToken, placed.map (·.token) = tokens → reading.steps placed = some final

theorem Leads.append {reading middle final : Reading} {tokens others : List Token}
    (hfirst : reading.Leads tokens middle) (hsecond : middle.Leads others final) :
    reading.Leads (tokens ++ others) final := by
  intro placed h
  obtain ⟨first, second, rfl, htokens, hothers⟩ := List.map_eq_append_iff.mp h
  rw [steps_append, hfirst first htokens]
  exact hsecond second hothers

/-- The state after the first token may depend on the place of the token. -/
theorem Leads.cons {reading final : Reading} {token : Token} {tokens : List Token}
    (h : ∀ position, ∃ next, reading.step ⟨token, position⟩ = some next ∧
      next.Leads tokens final) :
    reading.Leads (token :: tokens) final := by
  intro placed hplaced
  obtain ⟨⟨first, position⟩, rest, rfl, htoken, hrest⟩ := List.map_eq_cons_iff.mp hplaced
  obtain ⟨next, hstep, hleads⟩ := h position
  cases htoken
  rw [steps, List.foldlM_cons, hstep]
  exact hleads rest hrest

theorem Leads.singleton {reading final : Reading} {token : Token}
    (h : ∀ position, reading.step ⟨token, position⟩ = some final) :
    reading.Leads [token] final := by
  refine Leads.cons fun position => ⟨final, h position, ?_⟩
  intro placed hplaced
  rw [List.map_eq_nil_iff.mp hplaced]
  rfl

/-- A frame collects types: a comma makes place for one more, and the closer ends the group. -/
structure Collects (frame : List Node → Frame) (frames : List Frame) (closer : Token)
    (close : List Node → Reading) : Prop where
  comma : ∀ before node extent position,
    resume (frame before :: frames) node extent ⟨.comma, position⟩ =
      some (.beforeType (frame (before ++ [node]) :: frames))
  closer : ∀ before node extent position,
    resume (frame before :: frames) node extent ⟨closer, position⟩ =
      some (close (before ++ [node]))

theorem collects_argument (generic : Node) (opened : Nat) (frames : List Frame) :
    Collects (.argument generic opened) frames .closeBrace
      (fun arguments => .afterType frames (.closed generic arguments) .segment) where
  comma _ _ extent _ := by cases extent <;> rfl
  closer _ _ extent _ := by cases extent <;> rfl

theorem collects_parameter (member : Node) (opened : Nat) :
    Collects (.parameter member opened) [] .closeParen (.afterParameters member) where
  comma _ _ extent _ := by cases extent <;> rfl
  closer _ _ extent _ := by cases extent <;> rfl

theorem resume_openBrace (h : node.isSegment) (position : Nat) :
    resume frames node node.extent ⟨.openBrace, position⟩ =
      some (.beforeType (.argument node position [] :: frames)) := by
  cases node <;> first | rfl | exact absurd h Bool.false_ne_true

theorem resume_dot (h : node.isScope) (position : Nat) :
    resume frames node node.extent ⟨.dot, position⟩ = some (.afterDot frames node) := by
  cases node <;> first | rfl | exact absurd h Bool.false_ne_true

theorem resume_arraySuffix (h : node.isElement) (rank position : Nat) :
    resume frames node node.extent ⟨.arraySuffix rank, position⟩ =
      some (.afterType frames (.array node rank) .element) := by
  cases node <;> first | rfl | exact absurd h Bool.false_ne_true

theorem resume_byRefMark (h : node.isElement) (position : Nat) :
    resume frames node node.extent ⟨.byRefMark, position⟩ =
      some (.afterType frames (.byRef node) .complete) := by
  cases node <;> first | rfl | exact absurd h Bool.false_ne_true

theorem resume_pointerMark (h : node.isElement) (position : Nat) :
    resume frames node node.extent ⟨.pointerMark, position⟩ =
      some (.afterType frames (.pointer node) .complete) := by
  cases node <;> first | rfl | exact absurd h Bool.false_ne_true

mutual

/-- The tokens of a type lead from before the type to after it. -/
theorem leads_type : (node : Node) → node.IsType → (frames : List Frame) →
    (beforeType frames).Leads node.tokens (.afterType frames node node.extent)
  | .root _, _, _ | .typeParam _, _, _ | .methodParam _, _, _ => Leads.singleton fun _ => rfl
  | .child scope text, htype, frames => by
    refine (leads_type scope htype.1 frames).append (Leads.cons fun position => ?_)
    exact ⟨_, resume_dot htype.2 position, Leads.singleton fun _ => rfl⟩
  | .closed generic [], htype, frames => absurd rfl htype.2.2.1
  | .closed generic (first :: rest), htype, frames => by
    obtain ⟨hgeneric, hsegment, -, hfirst, hrest⟩ := htype
    rw [Node.tokens, List.append_assoc]
    refine (leads_type generic hgeneric frames).append (Leads.cons fun position => ?_)
    refine ⟨_, resume_openBrace hsegment position, ?_⟩
    have hall := (leads_type first hfirst (.argument generic position [] :: frames)).append
      (leads_tokensAfter rest hrest (collects_argument generic position frames) [] first
        first.extent)
    rw [← List.append_assoc] at hall
    exact hall
  | .array element rank, htype, frames =>
    (leads_type element htype.1 frames).append
      (Leads.singleton (resume_arraySuffix htype.2 rank))
  | .byRef target, htype, frames =>
    (leads_type target htype.1 frames).append (Leads.singleton (resume_byRefMark htype.2))
  | .pointer target, htype, frames =>
    (leads_type target htype.1 frames).append (Leads.singleton (resume_pointerMark htype.2))

/-- The rest of a group and its closer lead from after a type in it to after the group. -/
theorem leads_tokensAfter : (nodes : List Node) → Node.AllTypes nodes →
    {frame : List Node → Frame} → {frames : List Frame} → {closer : Token} →
    {close : List Node → Reading} → Collects frame frames closer close →
    (before : List Node) → (node : Node) → (extent : Extent) →
    (afterType (frame before :: frames) node extent).Leads (Node.tokensAfter nodes ++ [closer])
      (close (before ++ node :: nodes))
  | [], _, _, _, _, _, hframe, before, node, extent =>
    Leads.singleton (hframe.closer before node extent)
  | first :: rest, htypes, frame, frames, closer, close, hframe, before, node, extent => by
    rw [Node.tokensAfter, List.cons_append, List.cons_append, List.append_assoc]
    refine Leads.cons fun position => ⟨_, hframe.comma before node extent position, ?_⟩
    have hrest := leads_tokensAfter rest htypes.2 hframe (before ++ [node]) first first.extent
    rw [List.append_assoc, List.singleton_append] at hrest
    exact (leads_type first htypes.1 _).append hrest

end

theorem leads_member : {node : Node} → node.IsMember →
    (beforeSegment none).Leads node.tokens (.afterSegment node)
  | .root _, _ => Leads.singleton fun _ => rfl
  | .child scope _, h => by
    have hscope : (beforeSegment none).Leads scope.tokens (.afterSegment scope) := leads_member h
    exact hscope.append (Leads.cons fun _ => ⟨_, rfl, Leads.singleton fun _ => rfl⟩)

/-- After the parenthesis a type is read as it is within the list. -/
theorem Leads.afterParen {member : Node} {opened : Nat} {token : Token} {tokens : List Token}
    {final : Reading} (hword : token.isWord)
    (h : (beforeType [.parameter member opened []]).Leads (token :: tokens) final) :
    (afterParen member opened).Leads (token :: tokens) final := by
  intro placed hplaced
  obtain ⟨⟨first, position⟩, rest, rfl, htoken, -⟩ := List.map_eq_cons_iff.mp hplaced
  cases htoken
  have hstep : (Reading.afterParen member opened).step ⟨first, position⟩ =
      (beforeType [.parameter member opened []]).step ⟨first, position⟩ := by
    cases first <;> first | rfl | exact absurd hword Bool.false_ne_true
  rw [steps, List.foldlM_cons, hstep]
  exact h _ hplaced

theorem leads_parameters (member : Node) {parameters : List Node}
    (htypes : Node.AllTypes parameters) (opened : Nat) :
    (afterParen member opened).Leads (Node.tokensAll parameters ++ [.closeParen])
      (.afterParameters member parameters) := by
  cases parameters with
  | nil => exact Leads.singleton fun _ => rfl
  | cons first rest =>
    have hall := (leads_type first htypes.1 [.parameter member opened []]).append
      (leads_tokensAfter rest htypes.2 (collects_parameter member opened) [] first first.extent)
    obtain ⟨token, tokens, hfirst, hword⟩ := first.tokens_eq_cons
    rw [Node.tokensAll, List.append_assoc, hfirst]
    rw [hfirst] at hall
    exact hall.afterParen hword

/-- The tokens of a member with a parameter list lead on from wherever the list leads. -/
theorem Leads.call {member : Node} {parameters : List Node} {final : Reading}
    {tokens : List Token} (hmember : member.IsMember) (hparameters : Node.AllTypes parameters)
    (h : (afterParameters member parameters).Leads tokens final) :
    (beforeSegment none).Leads
      (member.tokens ++ .openParen :: Node.tokensAll parameters ++ .closeParen :: tokens) final := by
  rw [List.append_assoc, List.cons_append, List.append_cons (Node.tokensAll parameters)]
  refine (leads_member hmember).append (Leads.cons fun position => ⟨_, rfl, ?_⟩)
  exact (leads_parameters member hparameters position).append h

/-- The tokens of a reference lead to a state in which the text may end with that reference. -/
theorem leads_reference {node : Node} (h : node.IsReference) :
    ∃ final, (beforeSegment none).Leads node.tokens final ∧ final.result? = some node := by
  cases node with
  | method member parameters returns =>
    obtain ⟨hmember, hparameters, hreturns⟩ := h
    cases returns with
    | none =>
      refine ⟨.afterParameters member parameters, Leads.call hmember hparameters ?_, rfl⟩
      intro placed hplaced
      rw [List.map_eq_nil_iff.mp hplaced]
      rfl
    | some type =>
      refine ⟨.afterType [.returns member parameters] type type.extent, ?_, rfl⟩
      refine Leads.call hmember hparameters (Leads.cons fun position => ⟨_, rfl, ?_⟩)
      exact leads_type type (hreturns type rfl) [.returns member parameters]
  | _ => exact ⟨_, leads_member h, rfl⟩

/-! ### What is accepted -/

/-- A run from before a reference ends with one exactly if it takes its tokens. -/
theorem steps_reference_iff (placed : List PlacedToken) (node : Node) :
    (∃ final, (beforeSegment none).steps placed = some final ∧ final.result? = some node) ↔
      node.IsReference ∧ placed.map (·.token) = node.tokens := by
  constructor
  · rintro ⟨final, hsteps, hresult⟩
    have hstart : (beforeSegment none).Shaped true := ⟨rfl, by simp⟩
    obtain ⟨hshaped, htaken⟩ := steps_follows hstart hsteps
    obtain ⟨hreference, htokens⟩ := isReference_of_result hshaped hresult
    exact ⟨hreference, (htokens.trans htaken).symm⟩
  · rintro ⟨hreference, htokens⟩
    obtain ⟨final, hleads, hresult⟩ := leads_reference hreference
    exact ⟨final, hleads placed htokens, hresult⟩

theorem steps_type_iff (placed : List PlacedToken) (node : Node) :
    (∃ final, (beforeType []).steps placed = some final ∧ final.result? = some node) ↔
      node.IsType ∧ placed.map (·.token) = node.tokens := by
  constructor
  · rintro ⟨final, hsteps, hresult⟩
    have hstart : (beforeType []).Shaped false := rfl
    obtain ⟨hshaped, htaken⟩ := steps_follows hstart hsteps
    obtain ⟨htype, htokens⟩ := isType_of_result hshaped hresult
    exact ⟨htype, (htokens.trans htaken).symm⟩
  · rintro ⟨htype, htokens⟩
    exact ⟨_, leads_type node htype [] placed htokens, rfl⟩

/-- Tokens are read as a reference exactly if they are its tokens. -/
theorem run_reference_iff {placed : List PlacedToken} (position : Nat)
    (h : ∀ p ∈ placed, p.token ≠ .endOfInput) (node : Node) :
    (beforeSegment none).run (placed ++ [⟨.endOfInput, position⟩]) = .ok node ↔
      node.IsReference ∧ placed.map (·.token) = node.tokens :=
  (run_eq_ok_iff _ position h node).trans (steps_reference_iff placed node)

theorem run_type_iff {placed : List PlacedToken} (position : Nat)
    (h : ∀ p ∈ placed, p.token ≠ .endOfInput) (node : Node) :
    (beforeType []).run (placed ++ [⟨.endOfInput, position⟩]) = .ok node ↔
      node.IsType ∧ placed.map (·.token) = node.tokens :=
  (run_eq_ok_iff _ position h node).trans (steps_type_iff placed node)

theorem Leads.unique {reading final other : Reading} {tokens : List Token}
    (h : reading.Leads tokens final) (hother : reading.Leads tokens other) : final = other := by
  let placed : List PlacedToken := tokens.map fun token => ⟨token, 0⟩
  have hplaced : placed.map (·.token) = tokens := by simp [placed, Function.comp_def]
  exact Option.some.inj ((h placed hplaced).symm.trans (hother placed hplaced))

end Reading

/-- The grammar is unambiguous: types with the same tokens are the same. -/
theorem TypeDerivation.tokens_injective : Function.Injective TypeDerivation.tokens := by
  intro type other h
  have hother := Reading.leads_type other.node other.node_isType []
  rw [other.node_tokens, ← h, ← type.node_tokens] at hother
  have hfinal := (Reading.leads_type type.node type.node_isType []).unique hother
  have hnode : type.node = other.node := by injection hfinal
  rw [← type.derive_node, hnode, other.derive_node]

/-- The grammar is unambiguous: references with the same tokens are the same. -/
theorem ReferenceDerivation.tokens_injective : Function.Injective ReferenceDerivation.tokens := by
  intro reference other h
  obtain ⟨final, hleads, hresult⟩ := Reading.leads_reference reference.node_isReference
  obtain ⟨otherFinal, hother, hotherResult⟩ := Reading.leads_reference other.node_isReference
  rw [other.node_tokens, ← h, ← reference.node_tokens] at hother
  rw [← hleads.unique hother, hresult] at hotherResult
  rw [← reference.derive_node, Option.some.inj hotherResult, other.derive_node]

end DocRef
