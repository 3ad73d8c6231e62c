import DocRef.Proofs.Arity
import DocRef.Proofs.Catalog.Loading

/-!
Writing types never fails in a catalog that a listing describes, as long as the parameters can be
written (`typeText_ok`). What could fail is spreading the arguments of a generic type over the markers
in its name (`closeSegments_eq`), but there are as many of them as the markers ask for together.
-/

namespace DocRef.Catalog

/-! ### Spreading arguments -/

/-- The segments of a name without their markers, and what stands in the place of each marker. -/
def spread {α : Type} : List Text → List α → List (Text × Option (List α))
  | [], _ => []
  | segment :: segments, arguments =>
    match splitArity segment with
    | (stem, .type count) =>
      (stem, some (arguments.take count)) :: spread segments (arguments.drop count)
    | _ => (segment, none) :: spread segments arguments

/-- A segment with its arguments in braces. -/
def closedText : Text × Option (List Text) → Text
  | (text, none) => text
  | (stem, some arguments) => stem ++ '\x7b' :: Text.join ',' arguments ++ ['\x7d']

section Spread

variable {α : Type} {segment stem : Text} {count : Nat}

theorem spread_of_type (h : splitArity segment = (stem, .type count)) (segments : List Text)
    (arguments : List α) :
    spread (segment :: segments) arguments =
      (stem, some (arguments.take count)) :: spread segments (arguments.drop count) := by
  rw [spread, h]

theorem spread_of_not_type (h : ∀ count, (splitArity segment).2 ≠ .type count)
    (segments : List Text) (arguments : List α) :
    spread (segment :: segments) arguments = (segment, none) :: spread segments arguments := by
  rw [spread]
  split
  · next heq =>
    rw [heq] at h
    exact absurd rfl (h _)
  · rfl

theorem aritySum_of_type (h : splitArity segment = (stem, .type count)) (segments : List Text) :
    aritySum (segment :: segments) = count + aritySum segments := by
  rw [aritySum, ownArity, h]

theorem aritySum_of_not_type (h : ∀ count, (splitArity segment).2 ≠ .type count)
    (segments : List Text) : aritySum (segment :: segments) = aritySum segments := by
  have hown : ownArity segment = 0 := by
    rw [ownArity]
    split
    · next heq => exact absurd heq (h _)
    · rfl
  rw [aritySum, hown, Nat.zero_add]

theorem marker_cases (segment : Text) :
    (∃ stem count, splitArity segment = (stem, .type count)) ∨
      ∀ count, (splitArity segment).2 ≠ .type count := by
  rcases hsplit : splitArity segment with ⟨stem, marker⟩
  cases marker with
  | type count => exact .inl ⟨stem, count, rfl⟩
  | none => exact .inr nofun
  | method count => exact .inr nofun

end Spread

theorem allTexts_map_ok (texts : List Text) : allTexts (texts.map .ok) = .ok texts := by
  induction texts with
  | nil => rfl
  | cons text texts ih =>
    rw [List.map_cons, allTexts, ih]
    rfl

theorem closeSegments_of_type {name segment stem : Text} {given count : Nat}
    {segments : List Text} {own : List Text} {arguments : List (Except Inconsistency Text)}
    (h : splitArity segment = (stem, .type count))
    (hown : allTexts (arguments.take count) = .ok own) (hcount : own.length = count) :
    closeSegments name given (segment :: segments) arguments =
      (closeSegments name given segments (arguments.drop count)).map
        (closedText (stem, some own) :: ·) := by
  rw [closeSegments, h]
  simp only [hown]
  show (if own.length = count then _ else _) = _
  rw [if_pos hcount]
  cases closeSegments name given segments (arguments.drop count) <;> rfl

theorem closeSegments_of_not_type {name segment : Text} {given : Nat} {segments : List Text}
    {arguments : List (Except Inconsistency Text)}
    (h : ∀ count, (splitArity segment).2 ≠ .type count) :
    closeSegments name given (segment :: segments) arguments =
      (closeSegments name given segments arguments).map (segment :: ·) := by
  rw [closeSegments]
  split
  · next heq =>
    rw [heq] at h
    exact absurd rfl (h _)
  · cases closeSegments name given segments arguments <;> rfl

/-- As many arguments as the markers ask for can be spread over the segments. -/
theorem closeSegments_eq (name : Text) (given : Nat) {segments texts : List Text}
    (h : aritySum segments = texts.length) :
    closeSegments name given segments (texts.map .ok) =
      .ok ((spread segments texts).map closedText) := by
  induction segments generalizing texts with
  | nil =>
    rw [List.eq_nil_of_length_eq_zero h.symm]
    rfl
  | cons segment segments ih =>
    rcases marker_cases segment with ⟨stem, count, hsplit⟩ | hsplit
    · rw [aritySum_of_type hsplit] at h
      have htake : (texts.take count).length = count :=
        List.length_take_of_le (by omega)
      have hdrop : aritySum segments = (texts.drop count).length := by
        rw [List.length_drop]
        omega
      rw [closeSegments_of_type hsplit (by rw [← List.map_take, allTexts_map_ok]) htake,
        ← List.map_drop, ih hdrop, spread_of_type hsplit]
      rfl
    · rw [aritySum_of_not_type hsplit] at h
      rw [closeSegments_of_not_type hsplit, ih h, spread_of_not_type hsplit]
      rfl

/-! ### Types and members -/

/-- Whether all lists of generic parameters have fewer than 2³² entries. -/
def ListsBounded (catalog : Catalog) : Prop :=
  (∀ type ∈ catalog.types, type.genericParams.length < 0x100000000) ∧
    ∀ member ∈ catalog.members, member.genericParams.length < 0x100000000

/-- The markers in the name of a type add up to its parameters. -/
theorem Loaded.aritySum_name {catalog : Catalog} (h : catalog.Loaded)
    (hbounded : catalog.ListsBounded) {id : TypeId} {type : TypeDef}
    (htype : catalog.typeDef? id = some type) :
    aritySum (type.name.split '.') = type.genericParams.length := by
  have hmem : type ∈ catalog.types := List.mem_of_getElem? htype
  have hlength := hbounded.1 type hmem
  have hdeclared := h.declared type hmem
  have hmax : maxArity = 2 ^ 64 - 1 := rfl
  rw [aritySum_eq (by omega), hdeclared]

theorem exists_map_ok {α ε β : Type} {f : α → Except ε β} {items : List α}
    (h : ∀ item ∈ items, ∃ result, f item = .ok result) :
    ∃ results : List β, items.map f = results.map .ok := by
  induction items with
  | nil => exact ⟨[], rfl⟩
  | cons item items ih =>
    obtain ⟨result, hresult⟩ := h item List.mem_cons_self
    obtain ⟨results, hresults⟩ := ih fun other hother => h other (List.mem_cons_of_mem _ hother)
    exact ⟨result :: results, by rw [List.map_cons, List.map_cons, hresult, hresults]⟩

section Texts

variable {catalog : Catalog} {paramText : GenericParam → Except Inconsistency Text}

theorem typeTexts_eq_map (types : List TypeExpr) :
    catalog.typeTexts paramText types = types.map (catalog.typeText paramText) := by
  induction types with
  | nil => rfl
  | cons type types ih => rw [typeTexts, ih, List.map_cons]

theorem typeName_eq {id : TypeId} {type : TypeDef} (h : catalog.typeDef? id = some type) :
    catalog.typeName id = .ok type.name := by
  rw [typeName, h]

theorem typeText_generic (hloaded : catalog.Loaded) (hbounded : catalog.ListsBounded)
    {definition : TypeId} {type : TypeDef} {arguments : List TypeExpr} {texts : List Text}
    (htype : catalog.typeDef? definition = some type)
    (hcount : type.genericParams.length = arguments.length)
    (htexts : arguments.map (catalog.typeText paramText) = texts.map .ok) :
    catalog.typeText paramText (.generic definition arguments) =
      .ok (Text.join '.' ((spread (type.name.split '.') texts).map closedText)) := by
  have hsum : aritySum (type.name.split '.') = texts.length := by
    rw [hloaded.aritySum_name hbounded htype, hcount]
    have hlength := congrArg List.length htexts
    rwa [List.length_map, List.length_map] at hlength
  rw [typeText, typeName_eq htype, typeTexts_eq_map, htexts]
  show (closeSegments type.name arguments.length (type.name.split '.') (texts.map .ok) >>=
    fun segments => pure (Text.join '.' segments)) = _
  rw [closeSegments_eq _ _ hsum]
  rfl

/-- A type in scope has a text if the parameters have. -/
theorem typeText_ok (hloaded : catalog.Loaded) (hbounded : catalog.ListsBounded)
    {owns : GenericParam → Prop} (hparams : ∀ param, owns param → ∃ text, paramText param = .ok text)
    {type : TypeExpr} (h : type.WellScoped catalog.arity? owns) :
    ∃ text, catalog.typeText paramText type = .ok text := by
  induction h with
  | named harity =>
    obtain ⟨type, htype, -⟩ := typeDef?_of_arity? harity
    exact ⟨_, typeName_eq htype⟩
  | generic _ harity _ ih =>
    obtain ⟨type, htype, hcount⟩ := typeDef?_of_arity? harity
    obtain ⟨texts, htexts⟩ := exists_map_ok ih
    exact ⟨_, typeText_generic hloaded hbounded htype hcount htexts⟩
  | array _ ih =>
    obtain ⟨text, htext⟩ := ih
    exact ⟨text ++ ['[', ']'], by rw [typeText, htext]; rfl⟩
  | byRef _ ih =>
    obtain ⟨text, htext⟩ := ih
    exact ⟨text ++ ['@'], by rw [typeText, htext]; rfl⟩
  | pointer _ ih =>
    obtain ⟨text, htext⟩ := ih
    exact ⟨text ++ ['*'], by rw [typeText, htext]; rfl⟩
  | param hparam => exact hparams _ hparam

/-- A member in scope has a text if the parameters have. -/
theorem memberText_ok (hloaded : catalog.Loaded) (hbounded : catalog.ListsBounded) {id : MemberId}
    {member : MemberDef} (hmember : catalog.memberDef? id = some member)
    (hparams : ∀ param, Owns member.declaringType (catalog.genericArity member.declaringType) id
      member.genericParams.length param → ∃ text, paramText param = .ok text) :
    ∃ text, catalog.memberText id member paramText = .ok text := by
  have hscope := (hloaded.member hmember).scope
  have htypes : ∀ type ∈ member.types, ∃ text, catalog.typeText paramText type = .ok text :=
    fun type htype => typeText_ok hloaded hbounded hparams (hscope type htype)
  obtain ⟨texts, htexts⟩ := exists_map_ok fun type htype =>
    htypes type (List.mem_append_left _ htype)
  have hreturns : ∃ text, catalog.returnsText member paramText = .ok text := by
    rw [returnsText]
    split
    · next type htype =>
      split
      · obtain ⟨text, htext⟩ := htypes type (List.mem_append_right _ (by rw [htype]; simp))
        exact ⟨'~' :: text, by rw [htext]; rfl⟩
      · exact ⟨[], rfl⟩
    · exact ⟨[], rfl⟩
  obtain ⟨text, htext⟩ := hreturns
  rw [memberText, typeTexts_eq_map, htexts, allTexts_map_ok, htext]
  exact ⟨_, rfl⟩

theorem encodeMember_of_memberDef? {id : MemberId} {member : MemberDef}
    (hmember : catalog.memberDef? id = some member) :
    catalog.encodeMember id =
      match (do
        let declaring ← catalog.typeName member.declaringType
        let text ← catalog.memberText id member (ownParam [.type member.declaringType, .method id])
        return declaring ++ '.' :: text) with
      | .ok text => .ok (member.kind.symbolKind.letter :: ':' :: text)
      | .error cause => .error ⟨member.name, cause⟩ := by
  rw [Catalog.encodeMember, Catalog.knownMember, hmember]
  rfl

theorem encodeSignature_of_memberDef? {id : MemberId} {member : MemberDef}
    (hmember : catalog.memberDef? id = some member) (σ : Substitution) :
    catalog.encodeSignature id σ =
      match catalog.memberText id member
        (catalog.substitutedParam [.type σ.target, .method id] σ σ.bindings.length) with
      | .ok text => .ok (member.kind.symbolKind.letter :: ':' :: text)
      | .error cause => .error ⟨member.name, cause⟩ := by
  rw [Catalog.encodeSignature, Catalog.knownMember, hmember]
  rfl

theorem encodeMember_of_memberText {id : MemberId} {member : MemberDef} {declaring : TypeDef}
    {text : Text} (hmember : catalog.memberDef? id = some member)
    (hdeclaring : catalog.typeDef? member.declaringType = some declaring)
    (h : catalog.memberText id member (ownParam [.type member.declaringType, .method id]) = .ok text) :
    catalog.encodeMember id =
      .ok (member.kind.symbolKind.letter :: ':' :: (declaring.name ++ '.' :: text)) := by
  rw [encodeMember_of_memberDef? hmember, typeName_eq hdeclaring, h]
  rfl

theorem encodeSignature_of_memberText {id : MemberId} {member : MemberDef} {σ : Substitution}
    {text : Text} (hmember : catalog.memberDef? id = some member)
    (h : catalog.memberText id member
      (catalog.substitutedParam [.type σ.target, .method id] σ σ.bindings.length) = .ok text) :
    catalog.encodeSignature id σ = .ok (member.kind.symbolKind.letter :: ':' :: text) := by
  rw [encodeSignature_of_memberDef? hmember, h]

end Texts

end DocRef.Catalog
