import DocRef.Proofs.Inheritance.Merging
import DocRef.Proofs.Renumbering.Texts

/-!
Inheritance under other numbers. The chain of a type and its bases is the same chain wherever the
catalog is found (`Embeds.levels`): a larger catalog lets the walk go on for longer, but it has ended
before (`levelsFrom_of_length_lt`). As signatures are the same too, so is what is merged along the
chain (`Embeds.mergedMembers`).
-/

namespace DocRef

variable {ρ : Renumbering}

/-! ### Views -/

namespace Substitution

mutual

theorem apply_renumber (σ : Substitution) : (type : TypeExpr) →
    (σ.renumber ρ).apply (type.renumber ρ) = (σ.apply type).renumber ρ
  | .named _ => rfl
  | .generic _ arguments => by
    rw [TypeExpr.renumber, apply, apply, TypeExpr.renumber, applyAll_renumber σ arguments]
  | .array element _ => by
    rw [TypeExpr.renumber, apply, apply, TypeExpr.renumber, apply_renumber σ element]
  | .byRef target => by
    rw [TypeExpr.renumber, apply, apply, TypeExpr.renumber, apply_renumber σ target]
  | .pointer target => by
    rw [TypeExpr.renumber, apply, apply, TypeExpr.renumber, apply_renumber σ target]
  | .param p => by
    rw [TypeExpr.renumber, apply, apply, find?_renumber]
    cases σ.find? p <;> rfl

theorem applyAll_renumber (σ : Substitution) : (types : List TypeExpr) →
    (σ.renumber ρ).applyAll (TypeExpr.renumberAll ρ types) =
      TypeExpr.renumberAll ρ (σ.applyAll types)
  | [] => rfl
  | type :: types => by
    rw [TypeExpr.renumberAll, applyAll, applyAll, TypeExpr.renumberAll, apply_renumber σ type,
      applyAll_renumber σ types]

end

theorem ofBase_renumber (view : Substitution) (definition : TypeId) (arguments : List TypeExpr) :
    (view.renumber ρ).ofBase (ρ.type definition) (arguments.map (TypeExpr.renumber ρ)) =
      (view.ofBase definition arguments).renumber ρ := by
  simp only [ofBase, renumber, List.zipIdx_map, List.map_map]
  refine congrArg (Substitution.mk _) (List.map_congr_left fun entry _ => ?_)
  exact Prod.ext rfl (apply_renumber view entry.1)

end Substitution

namespace Catalog

variable {catalog other : Catalog}

/-! ### Chains -/

theorem Embeds.baseLevel? (h : catalog.Embeds ρ other) {level : Level} {count : Nat}
    (harity : catalog.arity? level.type = some count) :
    other.baseLevel? (level.renumber ρ) = (catalog.baseLevel? level).map (Level.renumber ρ) := by
  have hbase : other.baseType? (level.renumber ρ).type =
      (catalog.baseType? level.type).map (TypeExpr.renumber ρ) := h.baseType? harity
  rw [Catalog.baseLevel?, Catalog.baseLevel?, hbase]
  cases catalog.baseType? level.type with
  | none => rfl
  | some base =>
    cases base with
    | generic definition arguments =>
      rw [Option.map_some, TypeExpr.renumber, TypeExpr.renumberAll_eq_map]
      exact congrArg (fun view => some (Level.mk (ρ.type definition) view))
        (Substitution.ofBase_renumber level.view definition arguments)
    | _ => rfl

/-- A walk goes the same way elsewhere. -/
theorem Embeds.levelsFrom (h : catalog.Embeds ρ other) (hloaded : catalog.Loaded) (count : Nat)
    (seen : List TypeId) {level : Level} {arity : Nat}
    (harity : catalog.arity? level.type = some arity) :
    other.levelsFrom count (seen.map ρ.type) (level.renumber ρ) =
      (catalog.levelsFrom count seen level).map (Level.renumber ρ) := by
  induction count generalizing seen level arity with
  | zero => rfl
  | succ count ih =>
    have hseen : (level.renumber ρ).type ∈ seen.map ρ.type ↔ level.type ∈ seen :=
      List.mem_map_of_injective ρ.type_injective
    rw [Catalog.levelsFrom, Catalog.levelsFrom, h.baseLevel? harity]
    by_cases hmem : level.type ∈ seen
    · rw [if_pos hmem, if_pos (hseen.mpr hmem)]
      rfl
    · rw [if_neg hmem, if_neg (mt hseen.mp hmem), List.map_cons]
      refine congrArg (List.cons _) ?_
      cases hbase : catalog.baseLevel? level with
      | none => rfl
      | some base =>
        obtain ⟨baseArity, hbaseArity⟩ := arity?_of_baseLevel? hloaded hbase
        exact ih (level.type :: seen) hbaseArity

/-- A walk that ends before it must goes no further when it may. -/
theorem levelsFrom_of_length_lt {count : Nat} {seen : List TypeId} {level : Level}
    (h : (catalog.levelsFrom count seen level).length < count) (more : Nat) :
    catalog.levelsFrom (count + more) seen level = catalog.levelsFrom count seen level := by
  induction count generalizing seen level with
  | zero => exact absurd h (Nat.not_lt_zero _)
  | succ count ih =>
    rw [Nat.add_right_comm, levelsFrom, levelsFrom]
    rw [levelsFrom] at h
    by_cases hmem : level.type ∈ seen
    · rw [if_pos hmem, if_pos hmem]
    · rw [if_neg hmem, if_neg hmem]
      rw [if_neg hmem] at h
      cases hbase : catalog.baseLevel? level with
      | none => rfl
      | some base =>
        rw [hbase, List.length_cons] at h
        exact congrArg (List.cons level) (ih (Nat.lt_of_succ_lt_succ h))

theorem arity?_of_mem_levelsFrom (hloaded : catalog.Loaded) {count arity : Nat}
    {seen : List TypeId} {level later : Level} (harity : catalog.arity? level.type = some arity)
    (h : later ∈ catalog.levelsFrom count seen level) :
    ∃ arity, catalog.arity? later.type = some arity := by
  induction count generalizing seen level arity with
  | zero => exact absurd h List.not_mem_nil
  | succ count ih =>
    rw [levelsFrom] at h
    split at h
    · exact absurd h List.not_mem_nil
    · rcases List.mem_cons.mp h with rfl | h
      · exact ⟨arity, harity⟩
      · cases hbase : catalog.baseLevel? level with
        | none =>
          rw [hbase] at h
          exact absurd h List.not_mem_nil
        | some base =>
          rw [hbase] at h
          obtain ⟨baseArity, hbaseArity⟩ := arity?_of_baseLevel? hloaded hbase
          exact ih hbaseArity h

/-- A larger catalog has no fewer types. -/
theorem Embeds.types_length_le (h : catalog.Embeds ρ other) :
    catalog.types.length ≤ other.types.length := by
  have hlength := h.typeIds_subperm.length_le
  rwa [List.length_map, typeIds, typeIds, List.length_map, List.length_map, List.length_range,
    List.length_range] at hlength

/-- The chain of a type is the same chain elsewhere. -/
theorem Embeds.levels (h : catalog.Embeds ρ other) (hloaded : catalog.Loaded) {id : TypeId}
    {count : Nat} (harity : catalog.arity? id = some count) :
    other.levels (ρ.type id) = (catalog.levels id).map (Level.renumber ρ) := by
  have hlength : (catalog.levels id).length < catalog.types.length + 1 := by
    have hnodup := (levels_chainOf hloaded harity).distinct
    have hle := length_le_of_nodup hnodup fun type htype => by
      obtain ⟨level, hlevel, rfl⟩ := List.mem_map.mp htype
      obtain ⟨arity, hlevelArity⟩ := arity?_of_mem_levelsFrom hloaded harity hlevel
      exact index_lt_of_arity? hlevelArity
    rw [List.length_map] at hle
    exact Nat.lt_succ_of_le hle
  have hwalk : other.levelsFrom (catalog.types.length + 1) [] ⟨ρ.type id, .identity (ρ.type id)⟩ =
      (catalog.levels id).map (Level.renumber ρ) :=
    @Embeds.levelsFrom ρ catalog other h hloaded _ [] ⟨id, .identity id⟩ count harity
  have hends : (other.levelsFrom (catalog.types.length + 1) []
      ⟨ρ.type id, .identity (ρ.type id)⟩).length < catalog.types.length + 1 := by
    rw [hwalk, List.length_map]
    exact hlength
  obtain ⟨more, hmore⟩ := Nat.exists_eq_add_of_le h.types_length_le
  calc other.levels (ρ.type id)
      = other.levelsFrom (catalog.types.length + 1 + more) []
          ⟨ρ.type id, .identity (ρ.type id)⟩ := by rw [Catalog.levels, hmore, Nat.add_right_comm]
    _ = other.levelsFrom (catalog.types.length + 1) [] ⟨ρ.type id, .identity (ρ.type id)⟩ :=
        levelsFrom_of_length_lt hends more
    _ = (catalog.levels id).map (Level.renumber ρ) := hwalk

/-! ### Merging -/

section Merging

variable {level : Level}

theorem Embeds.contributed (h : catalog.Embeds ρ other) (hloaded : catalog.Loaded) {count : Nat}
    (harity : catalog.arity? level.type = some count) :
    other.contributed (level.renumber ρ) = (catalog.contributed level).map ρ.member := by
  have hmembers : other.membersOf (level.renumber ρ).type =
      (catalog.membersOf level.type).map ρ.member := h.membersOf harity
  have htarget : (level.renumber ρ).type = (level.renumber ρ).view.target ↔
      level.type = level.view.target := ρ.type_injective.eq_iff
  rw [Catalog.contributed, Catalog.contributed, hmembers, List.filter_map]
  refine congrArg (List.map ρ.member) (List.filter_congr fun id hid => ?_)
  obtain ⟨member, hmember⟩ := hloaded.exists_memberDef? hid
  simp only [Function.comp_apply, h.memberDef? hmember, hmember, htarget]
  rfl

theorem Embeds.signatures (h : catalog.Embeds ρ other) (hloaded : catalog.Loaded)
    {target : TypeId} (hlevel : catalog.LevelInScope target level) {ids : List MemberId}
    (hids : ∀ id ∈ ids, ∃ member, catalog.memberDef? id = some member) :
    other.signatures (level.view.renumber ρ) (ids.map ρ.member) =
      (catalog.signatures level.view ids).map (List.map (Prod.map id ρ.member)) := by
  induction ids with
  | nil => rfl
  | cons id ids ih =>
    obtain ⟨⟨member, hmember⟩, hrest⟩ := List.forall_mem_cons.mp hids
    rw [List.map_cons, Catalog.signatures, Catalog.signatures,
      h.encodeSignature hloaded hmember hlevel, ih hrest]
    cases catalog.encodeSignature id level.view with
    | error cause => rfl
    | ok signature => cases catalog.signatures level.view ids <;> rfl

theorem lookup_map_renumber (entries : List (Text × MemberId)) (signature : Text) :
    (entries.map (Prod.map id ρ.member)).lookup signature =
      (entries.lookup signature).map ρ.member := by
  induction entries with
  | nil => rfl
  | cons entry entries ih =>
    obtain ⟨text, id⟩ := entry
    show ((text, ρ.member id) :: entries.map (Prod.map _ ρ.member)).lookup signature = _
    rw [List.lookup_cons, List.lookup_cons, ih]
    cases signature == text <;> rfl

theorem shown_renumber (nearer signed : List (Text × MemberId)) :
    (signed.map (Prod.map id ρ.member)).filter (fun entry =>
        ((nearer.map (Prod.map id ρ.member)).lookup entry.1).isNone) =
      (signed.filter fun entry => (nearer.lookup entry.1).isNone).map (Prod.map id ρ.member) := by
  rw [List.filter_map]
  simp only [Function.comp_def, lookup_map_renumber, Option.isNone_map, Prod.map_fst, id]

theorem hidden_renumber (nearer signed : List (Text × MemberId)) :
    (signed.map (Prod.map id ρ.member)).filterMap (fun entry =>
        ((nearer.map (Prod.map id ρ.member)).lookup entry.1).map fun hiddenBy =>
          HiddenMember.mk entry.2 hiddenBy) =
      (signed.filterMap fun entry => (nearer.lookup entry.1).map fun hiddenBy =>
        HiddenMember.mk entry.2 hiddenBy).map (HiddenMember.renumber ρ) := by
  rw [List.filterMap_map, List.map_filterMap]
  simp only [Function.comp_def, lookup_map_renumber, Option.map_map, Prod.map_fst, Prod.map_snd, id]
  rfl

/-- What is merged along a chain is the same elsewhere. -/
theorem Embeds.mergeLevels (h : catalog.Embeds ρ other) (hloaded : catalog.Loaded)
    {target : TypeId} (nearer : List (Text × MemberId)) {levels : List Level}
    (hlevels : ∀ level ∈ levels, catalog.LevelInScope target level ∧
      ∃ count, catalog.arity? level.type = some count) :
    other.mergeLevels (nearer.map (Prod.map id ρ.member)) (levels.map (Level.renumber ρ)) =
      (catalog.mergeLevels nearer levels).map (MemberSet.renumber ρ) := by
  induction levels generalizing nearer with
  | nil => rfl
  | cons level levels ih =>
    obtain ⟨⟨hlevel, count, harity⟩, hrest⟩ := List.forall_mem_cons.mp hlevels
    have hids : ∀ id ∈ catalog.contributed level, ∃ member, catalog.memberDef? id = some member :=
      fun id hid => hloaded.exists_memberDef? (mem_membersOf_of_contributed hid)
    rw [List.map_cons, Catalog.mergeLevels, Catalog.mergeLevels, h.contributed hloaded harity]
    show (other.signatures (level.view.renumber ρ) _ >>= _) = _
    rw [h.signatures hloaded hlevel hids]
    cases catalog.signatures level.view (catalog.contributed level) with
    | error cause => rfl
    | ok signed =>
      have hlater := ih (nearer ++ signed.filter fun entry => (nearer.lookup entry.1).isNone) hrest
      rw [List.map_append, ← shown_renumber] at hlater
      show (other.mergeLevels (_ ++ _) _ >>= fun rest => pure _) =
        (catalog.mergeLevels (nearer ++ signed.filter fun entry =>
          (nearer.lookup entry.1).isNone) levels >>= fun rest => pure _).map _
      rw [hlater]
      cases catalog.mergeLevels _ levels with
      | error cause => rfl
      | ok rest =>
        refine congrArg Except.ok (congrArg₂ MemberSet.mk ?_ ?_)
        · rw [shown_renumber, List.map_append, List.map_map, List.map_map]
          rfl
        · rw [hidden_renumber, List.map_append]
          rfl

/-- Every type has the same members elsewhere, its own and inherited ones, visible and hidden. -/
theorem Embeds.mergedMembers (h : catalog.Embeds ρ other) (hloaded : catalog.Loaded) {id : TypeId}
    {count : Nat} (harity : catalog.arity? id = some count) :
    other.mergedMembers (ρ.type id) = (catalog.mergedMembers id).map (MemberSet.renumber ρ) := by
  obtain ⟨type, htype, -⟩ := typeDef?_of_arity? harity
  have hlevels : ∀ level ∈ catalog.levels id, catalog.LevelInScope id level ∧
      ∃ count, catalog.arity? level.type = some count := by
    intro level hlevel
    have hscope := (levels_chainOf hloaded harity).levelInScope hloaded level hlevel
    exact ⟨hscope, arity?_of_mem_levelsFrom hloaded harity hlevel⟩
  have hmerged := h.mergeLevels hloaded [] hlevels
  rw [← h.levels hloaded harity, List.map_nil] at hmerged
  rw [Catalog.mergedMembers, Catalog.mergedMembers, htype, h.typeDef? htype]
  simp only [hmerged]
  cases catalog.mergeLevels [] (catalog.levels id) <;> rfl

end Merging

end Catalog

end DocRef
