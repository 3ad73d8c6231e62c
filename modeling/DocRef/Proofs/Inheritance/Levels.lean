import DocRef.Inheritance
import DocRef.Proofs.CanonicalId.Texts
import DocRef.Proofs.TypeExpr.Parameters
import Mathlib.Data.List.Chain
import Mathlib.Data.List.Perm.Subperm

/-!
The chain of a type and its bases (`levels_chainOf`): every level is the base of the one before it,
no type occurs twice, and the chain ends only where there is no base or where it would come back to
one of its types. Every level sees its own parameters as types in terms of the parameters of the
chain's first type (`LevelInScope`), so all signatures on the chain can be written
(`encodeSignature_ok`).
-/

namespace DocRef

namespace Catalog

/-! ### The walk -/

/-- The chain of a type and its bases. -/
structure ChainOf (catalog : Catalog) (id : TypeId) (levels : List Level) : Prop where
  starts : levels.head? = some ⟨id, .identity id⟩
  steps : levels.IsChain fun level base => catalog.baseLevel? level = some base
  distinct : (levels.map Level.type).Nodup
  stops : ∀ last ∈ levels.getLast?, ∀ base ∈ catalog.baseLevel? last,
    base.type ∈ levels.map Level.type

section Walk

variable {catalog : Catalog} {level base : Level}

/-- A level has a base if its type has one: a generic type closed over arguments, or another type. -/
theorem baseLevel?_eq_some_iff : catalog.baseLevel? level = some base ↔
    (∃ definition arguments, catalog.baseType? level.type = some (.generic definition arguments) ∧
      base = ⟨definition, level.view.ofBase definition arguments⟩) ∨
    ∃ definition, catalog.baseType? level.type = some (.named definition) ∧
      base = ⟨definition, .identity level.view.target⟩ := by
  unfold baseLevel?
  split
  · next hbase => simp [hbase, eq_comm]
  · next hbase => simp [hbase, eq_comm]
  · next hgeneric hnamed =>
    simp only [reduceCtorEq, false_iff, not_or, not_exists, not_and]
    exact ⟨fun definition arguments hbase => absurd hbase (hgeneric definition arguments),
      fun definition hbase => absurd hbase (hnamed definition)⟩

/-- A level's base is in scope there, and without arguments it has no parameters. -/
theorem baseLevel?_cases (hloaded : catalog.Loaded) (h : catalog.baseLevel? level = some base) :
    (∃ definition arguments,
      catalog.BaseInScope level.type (.generic definition arguments) ∧
        base = ⟨definition, level.view.ofBase definition arguments⟩) ∨
    ∃ definition, catalog.BaseInScope level.type (.named definition) ∧
      base = ⟨definition, .identity level.view.target⟩ := by
  rcases baseLevel?_eq_some_iff.mp h with ⟨definition, arguments, hbase, rfl⟩ |
    ⟨definition, hbase, rfl⟩
  · exact .inl ⟨definition, arguments, hloaded.base hbase, rfl⟩
  · exact .inr ⟨definition, hloaded.base hbase, rfl⟩

theorem arity?_of_baseLevel? (hloaded : catalog.Loaded)
    (h : catalog.baseLevel? level = some base) : ∃ count, catalog.arity? base.type = some count := by
  rcases baseLevel?_cases hloaded h with ⟨_, _, hscope, rfl⟩ | ⟨_, hscope, rfl⟩
  · cases hscope.scope with
    | generic _ harity _ => exact ⟨_, harity⟩
  · cases hscope.scope with
    | named harity => exact ⟨_, harity⟩

theorem index_lt_of_arity? {id : TypeId} {count : Nat} (h : catalog.arity? id = some count) :
    id.index < catalog.types.length := by
  obtain ⟨type, htype, -⟩ := typeDef?_of_arity? h
  exact (List.getElem?_eq_some_iff.mp htype).1

theorem length_le_of_nodup {ids : List TypeId} (hnodup : ids.Nodup)
    (hrange : ∀ id ∈ ids, id.index < catalog.types.length) : ids.length ≤ catalog.types.length := by
  have hsubset : ids ⊆ catalog.typeIds := by
    intro id hid
    exact List.mem_map.mpr ⟨id.index, List.mem_range.mpr (hrange id hid), rfl⟩
  have hlength := (hnodup.subperm hsubset).length_le
  rwa [typeIds, List.length_map, List.length_range] at hlength

theorem levelsFrom_of_mem {count : Nat} {seen : List TypeId} (h : level.type ∈ seen) :
    catalog.levelsFrom count seen level = [] := by
  cases count with
  | zero => rfl
  | succ count => rw [levelsFrom, if_pos h]

/-- A walk from a level that has seen some types before. -/
structure WalkFrom (catalog : Catalog) (seen : List TypeId) (level : Level) (levels : List Level) :
    Prop where
  starts : levels.head? = some level
  steps : levels.IsChain fun level base => catalog.baseLevel? level = some base
  fresh : ∀ later ∈ levels, later.type ∉ seen
  distinct : (levels.map Level.type).Nodup
  stops : ∀ last ∈ levels.getLast?, ∀ base ∈ catalog.baseLevel? last,
    base.type ∈ seen ∨ base.type ∈ levels.map Level.type

theorem WalkFrom.single {seen : List TypeId} (hnew : level.type ∉ seen)
    (hstop : ∀ base ∈ catalog.baseLevel? level, base.type ∈ level.type :: seen) :
    catalog.WalkFrom seen level [level] := by
  refine ⟨rfl, List.isChain_singleton _, ?_, List.nodup_singleton _, ?_⟩
  · intro later hlater
    rw [List.mem_singleton.mp hlater]
    exact hnew
  · intro last hlast base hbase
    cases hlast
    rcases List.mem_cons.mp (hstop base hbase) with htype | hseen
    · exact .inr (List.mem_singleton.mpr htype)
    · exact .inl hseen

theorem WalkFrom.cons {seen : List TypeId} {levels : List Level} (hnew : level.type ∉ seen)
    (hbase : catalog.baseLevel? level = some base)
    (h : catalog.WalkFrom (level.type :: seen) base levels) :
    catalog.WalkFrom seen level (level :: levels) := by
  obtain ⟨hstarts, hsteps, hfresh, hdistinct, hstops⟩ := h
  obtain ⟨rest, rfl⟩ : ∃ rest, levels = base :: rest := by
    cases levels with
    | nil => cases hstarts
    | cons first rest =>
      cases hstarts
      exact ⟨rest, rfl⟩
  refine ⟨rfl, List.isChain_cons_cons.mpr ⟨hbase, hsteps⟩, ?_, ?_, ?_⟩
  · intro later hlater
    rcases List.mem_cons.mp hlater with rfl | hlater
    · exact hnew
    · exact fun hmem => hfresh later hlater (List.mem_cons_of_mem _ hmem)
  · refine List.nodup_cons.mpr ⟨?_, hdistinct⟩
    intro hmem
    obtain ⟨later, hlater, htype⟩ := List.mem_map.mp hmem
    exact hfresh later hlater (htype ▸ List.mem_cons_self)
  · intro last hlast other hother
    rw [List.getLast?_cons_cons] at hlast
    rcases hstops last hlast other hother with hseen | hmem
    · rcases List.mem_cons.mp hseen with htype | hseen
      · exact .inr (htype ▸ List.mem_cons_self)
      · exact .inl hseen
    · exact .inr (List.mem_cons_of_mem _ hmem)

/-- A walk that has room for all types not seen ends only for a reason. -/
theorem levelsFrom_walkFrom (hloaded : catalog.Loaded) (count : Nat) {seen : List TypeId}
    (hnew : level.type ∉ seen) (hnodup : seen.Nodup)
    (hrange : ∀ id ∈ level.type :: seen, id.index < catalog.types.length)
    (hcount : seen.length + count = catalog.types.length + 1) :
    catalog.WalkFrom seen level (catalog.levelsFrom count seen level) := by
  induction count generalizing level seen with
  | zero =>
    have hlength := length_le_of_nodup (List.nodup_cons.mpr ⟨hnew, hnodup⟩) hrange
    rw [List.length_cons] at hlength
    omega
  | succ count ih =>
    rw [levelsFrom, if_neg hnew]
    cases hbase : catalog.baseLevel? level with
    | none => exact .single hnew (by simp [hbase])
    | some base =>
      show catalog.WalkFrom seen level (level :: catalog.levelsFrom count (level.type :: seen) base)
      by_cases hseen : base.type ∈ level.type :: seen
      · rw [levelsFrom_of_mem hseen]
        exact .single hnew (by simp [hbase, List.mem_cons.mp hseen])
      · obtain ⟨arity, harity⟩ := arity?_of_baseLevel? hloaded hbase
        refine .cons hnew hbase (ih hseen (List.nodup_cons.mpr ⟨hnew, hnodup⟩) ?_ ?_)
        · intro id hid
          rcases List.mem_cons.mp hid with rfl | hid
          · exact index_lt_of_arity? harity
          · exact hrange id hid
        · rw [List.length_cons]
          omega

theorem levels_chainOf (hloaded : catalog.Loaded) {id : TypeId} {count : Nat}
    (h : catalog.arity? id = some count) : catalog.ChainOf id (catalog.levels id) := by
  have hwalk : catalog.WalkFrom [] ⟨id, .identity id⟩ (catalog.levels id) := by
    refine levelsFrom_walkFrom hloaded _ List.not_mem_nil List.nodup_nil ?_ (Nat.zero_add _)
    intro other hother
    rw [List.mem_singleton.mp hother]
    exact index_lt_of_arity? h
  refine ⟨hwalk.starts, hwalk.steps, hwalk.distinct, ?_⟩
  intro last hlast base hbase
  rcases hwalk.stops last hlast base hbase with hmem | hmem
  · exact absurd hmem List.not_mem_nil
  · exact hmem

/-- The same for what is no type of the catalog: it has no base. -/
theorem chainOf_levels (hloaded : catalog.Loaded) (id : TypeId) :
    catalog.ChainOf id (catalog.levels id) := by
  cases htype : catalog.typeDef? id with
  | some type => exact levels_chainOf hloaded (arity?_eq_some htype)
  | none =>
    have hbase : catalog.baseLevel? ⟨id, .identity id⟩ = none := by
      rw [baseLevel?, baseType?, htype]
      rfl
    have hlevels : catalog.levels id = [⟨id, .identity id⟩] := by
      rw [levels, levelsFrom, if_neg List.not_mem_nil, hbase]
    rw [hlevels]
    refine ⟨rfl, List.isChain_singleton _, List.nodup_singleton _, ?_⟩
    intro last hlast base hlater
    cases hlast
    rw [List.getLast_singleton, hbase] at hlater
    cases hlater

end Walk

end Catalog

/-! ### Views -/

namespace Substitution

theorem mem_of_find? {σ : Substitution} {param : GenericParam} {type : TypeExpr}
    (h : σ.find? param = some type) : (param, type) ∈ σ.bindings := by
  obtain ⟨⟨other, found⟩, hfind, rfl⟩ := Option.map_eq_some_iff.mp h
  have hother := List.find?_some hfind
  rw [decide_eq_true_eq] at hother
  rw [← hother]
  exact List.mem_of_find?_eq_some hfind

theorem find?_isSome_of_mem {σ : Substitution} {param : GenericParam} {type : TypeExpr}
    (h : (param, type) ∈ σ.bindings) : ∃ found, σ.find? param = some found := by
  rw [← Option.isSome_iff_exists, find?, Option.isSome_map, List.find?_isSome]
  exact ⟨_, h, decide_eq_true rfl⟩

/-- The bindings for a base are those of its arguments, as the view sees them. -/
theorem mem_bindings_ofBase {view : Substitution} {definition : TypeId}
    {arguments : List TypeExpr} {binding : GenericParam × TypeExpr} :
    binding ∈ (view.ofBase definition arguments).bindings ↔ ∃ position argument,
      arguments[position]? = some argument ∧
        binding = (⟨.type definition, position⟩, view.apply argument) := by
  simp only [ofBase, List.mem_map, Prod.exists, List.mem_zipIdx_iff_getElem?]
  constructor
  · rintro ⟨argument, position, hget, rfl⟩
    exact ⟨position, argument, hget, rfl⟩
  · rintro ⟨position, argument, hget, rfl⟩
    exact ⟨argument, position, hget, rfl⟩

/-- A type in scope stays in scope where its parameters stand for types in scope. -/
theorem apply_wellScoped {σ : Substitution} {arity? : TypeId → Option Nat}
    {owns owns' : GenericParam → Prop} {type : TypeExpr} (h : type.WellScoped arity? owns)
    (hparams : ∀ param, owns param → (σ.meaning param).WellScoped arity? owns') :
    (σ.apply type).WellScoped arity? owns' := by
  rw [apply_eq_replace]
  exact h.replace hparams

end Substitution

namespace Catalog

/-- What holds of a level as seen from the chain's first type: its own parameters are bound to types in
terms of those of the first type, unless it is the first type, and nothing else is bound. -/
structure LevelInScope (catalog : Catalog) (target : TypeId) (level : Level) : Prop where
  target_eq : level.view.target = target
  bound : ∀ param type, (param, type) ∈ level.view.bindings →
    param.owner = .type level.type ∧ level.type ≠ target ∧
      type.WellScoped catalog.arity? (·.BelongsTo (.type target) (catalog.genericArity target))
  complete : level.type ≠ target → ∀ position < catalog.genericArity level.type,
    ∃ type, level.view.find? ⟨.type level.type, position⟩ = some type

section Views

variable {catalog : Catalog} {target : TypeId} {level base : Level}

/-- What a parameter of the level's type stands for is in scope. -/
theorem LevelInScope.meaning (h : catalog.LevelInScope target level) {param : GenericParam}
    (hparam : param.BelongsTo (.type level.type) (catalog.genericArity level.type)) :
    (level.view.meaning param).WellScoped catalog.arity?
      (·.BelongsTo (.type target) (catalog.genericArity target)) := by
  rw [Substitution.meaning]
  cases hfind : level.view.find? param with
  | some type => exact (h.bound _ _ (Substitution.mem_of_find? hfind)).2.2
  | none =>
    by_cases htype : level.type = target
    · rw [htype] at hparam
      exact .param hparam
    · obtain ⟨owner, position⟩ := param
      obtain ⟨rfl, hposition⟩ := hparam
      obtain ⟨type, hsome⟩ := h.complete htype position hposition
      rw [hfind] at hsome
      cases hsome

theorem levelInScope_identity (target : TypeId) :
    catalog.LevelInScope target ⟨target, .identity target⟩ :=
  ⟨rfl, nofun, fun hne => absurd rfl hne⟩

/-- The base of a level sees its parameters through that level. -/
theorem LevelInScope.ofBase (hloaded : catalog.Loaded) (h : catalog.LevelInScope target level)
    (hbase : catalog.baseLevel? level = some base) (hne : base.type ≠ target) :
    catalog.LevelInScope target base := by
  rcases baseLevel?_cases hloaded hbase with ⟨definition, arguments, hscope, rfl⟩ |
    ⟨definition, hscope, rfl⟩
  · cases hscope.scope with
    | generic _ harity harguments =>
      refine ⟨h.target_eq, ?_, ?_⟩
      · intro param type hmem
        obtain ⟨position, argument, hget, heq⟩ := Substitution.mem_bindings_ofBase.mp hmem
        cases heq
        have hargument := harguments argument (List.mem_of_getElem? hget)
        exact ⟨rfl, hne, Substitution.apply_wellScoped hargument fun _ => h.meaning⟩
      · intro _ position hposition
        rw [genericArity_eq harity] at hposition
        have hget := List.getElem?_eq_getElem hposition
        exact Substitution.find?_isSome_of_mem
          (Substitution.mem_bindings_ofBase.mpr ⟨position, _, hget, rfl⟩)
  · refine ⟨h.target_eq, nofun, ?_⟩
    intro _ position hposition
    have hzero := hscope.closed definition rfl
    exact absurd (hzero ▸ hposition) (Nat.not_lt_zero _)

theorem ChainOf.levelInScope (hloaded : catalog.Loaded) {levels : List Level}
    (h : catalog.ChainOf target levels) : ∀ level ∈ levels, catalog.LevelInScope target level := by
  obtain ⟨hstarts, hsteps, hdistinct, -⟩ := h
  cases levels with
  | nil => cases hstarts
  | cons first rest =>
    cases hstarts
    have hne : ∀ level ∈ rest, level.type ≠ target := by
      intro level hlevel heq
      have hmem : level.type ∈ rest.map Level.type := List.mem_map_of_mem hlevel
      rw [heq] at hmem
      exact (List.nodup_cons.mp hdistinct).1 hmem
    have hwalk : ∀ (first : Level) (rest : List Level), (first :: rest).IsChain
        (fun level base => catalog.baseLevel? level = some base) →
        (∀ level ∈ rest, level.type ≠ target) → catalog.LevelInScope target first →
        ∀ level ∈ first :: rest, catalog.LevelInScope target level := by
      intro first rest
      induction rest generalizing first with
      | nil =>
        intro _ _ hfirst level hlevel
        rwa [List.mem_singleton.mp hlevel]
      | cons next rest ih =>
        intro hsteps hne hfirst level hlevel
        obtain ⟨hnext, hrest⟩ := List.isChain_cons_cons.mp hsteps
        rcases List.mem_cons.mp hlevel with rfl | hlevel
        · exact hfirst
        · refine ih next hrest (fun level hlevel => hne level (List.mem_cons_of_mem _ hlevel)) ?_
            level hlevel
          exact hfirst.ofBase hloaded hnext (hne next List.mem_cons_self)
    exact hwalk _ rest hsteps hne (levelInScope_identity target)

/-! ### Signatures -/

theorem substitutedParam_of_unbound {owners : List ParamOwner} {σ : Substitution}
    {param : GenericParam} (h : σ.find? param = none) (depth : Nat) :
    catalog.substitutedParam owners σ depth param = ownParam owners param := by
  cases depth with
  | zero => rfl
  | succ depth => rw [substitutedParam, h]

theorem ownParam_ok {owners : List ParamOwner} {param : GenericParam} (h : param.owner ∈ owners) :
    ownParam owners param = .ok param.positional := by
  rw [ownParam, if_pos h]

theorem LevelInScope.find?_eq_none (h : catalog.LevelInScope target level) {param : GenericParam}
    (hparam : param.owner ≠ .type level.type) : level.view.find? param = none := by
  cases hfind : level.view.find? param with
  | none => rfl
  | some type => exact absurd (h.bound _ _ (Substitution.mem_of_find? hfind)).1 hparam

/-- Parameters of the target have texts on all other levels: nothing is bound to them there. -/
theorem LevelInScope.targetParam_ok (h : catalog.LevelInScope target level) {param : GenericParam}
    (hparam : param.BelongsTo (.type target) (catalog.genericArity target))
    (hne : level.type ≠ target) (id : MemberId) (depth : Nat) :
    ∃ text, catalog.substitutedParam [.type level.view.target, .method id] level.view depth param =
      .ok text := by
  have hother : param.owner ≠ .type level.type := by
    rw [hparam.1]
    intro heq
    cases heq
    exact hne rfl
  rw [substitutedParam_of_unbound (h.find?_eq_none hother),
    ownParam_ok (by rw [hparam.1, h.target_eq]; exact List.mem_cons_self)]
  exact ⟨_, rfl⟩

/-- Parameters of the level's type have texts: they are the target's own, or they stand for types in
terms of the target's parameters. -/
theorem LevelInScope.levelParam_ok (hloaded : catalog.Loaded) (hbounded : catalog.ListsBounded)
    (h : catalog.LevelInScope target level) {param : GenericParam}
    (hparam : param.BelongsTo (.type level.type) (catalog.genericArity level.type))
    (id : MemberId) :
    ∃ text, catalog.substitutedParam [.type level.view.target, .method id] level.view
      level.view.bindings.length param = .ok text := by
  cases hfind : level.view.find? param with
  | none =>
    have hfirst : level.type = target := by
      by_contra hne
      obtain ⟨type, hsome⟩ := h.complete hne param.position hparam.2
      rw [← hparam.1, hfind] at hsome
      cases hsome
    rw [substitutedParam_of_unbound hfind,
      ownParam_ok (by rw [hparam.1, h.target_eq, hfirst]; exact List.mem_cons_self)]
    exact ⟨_, rfl⟩
  | some type =>
    have hmem := Substitution.mem_of_find? hfind
    obtain ⟨-, hne, hscope⟩ := h.bound _ _ hmem
    obtain ⟨depth, hdepth⟩ := Nat.exists_eq_succ_of_ne_zero (List.length_pos_of_mem hmem).ne'
    rw [hdepth, substitutedParam, hfind]
    exact typeText_ok hloaded hbounded (fun _ hown => h.targetParam_ok hown hne id depth) hscope

/-- A member that a level declares has a signature as seen from there. -/
theorem encodeSignature_ok (hloaded : catalog.Loaded) (hbounded : catalog.ListsBounded)
    (hlevel : catalog.LevelInScope target level) {id : MemberId}
    (hid : id ∈ catalog.membersOf level.type) :
    ∃ signature, catalog.encodeSignature id level.view = .ok signature := by
  obtain ⟨member, hmember, hdeclaring⟩ := (hloaded.mem_membersOf level.type id).mp hid
  have hparams : ∀ param, Owns member.declaringType (catalog.genericArity member.declaringType) id
      member.genericParams.length param → ∃ text, catalog.substitutedParam
        [.type level.view.target, .method id] level.view level.view.bindings.length param =
          .ok text := by
    rintro param (hparam | ⟨howner, -⟩)
    · rw [hdeclaring] at hparam
      exact hlevel.levelParam_ok hloaded hbounded hparam id
    · have hmethod : param.owner ≠ .type level.type := by
        rw [howner]
        exact nofun
      rw [substitutedParam_of_unbound (hlevel.find?_eq_none hmethod),
        ownParam_ok (by rw [howner]; exact List.mem_cons_of_mem _ List.mem_cons_self)]
      exact ⟨_, rfl⟩
  obtain ⟨text, htext⟩ := memberText_ok hloaded hbounded hmember hparams
  exact ⟨_, encodeSignature_of_memberText hmember htext⟩

end Views

end Catalog

end DocRef
