import DocRef.Proofs.Inheritance.Levels
import DocRef.Proofs.TypeExpr.Parameters

/-!
What the view of a level does to types. Through a base (`throughBase`) the parameters of the base stand
for the arguments that the base is closed over. A level's view does this for every base between the level
and the chain's first type, the farthest first (`ChainOf.view_apply`). What a level binds is therefore
told by the bases alone, and is in terms of the first type's parameters (`levels_view_composes`).
-/

namespace DocRef

namespace Catalog

/-- Whether a parameter may stand in the members of a type: the type's own ones, and those of methods. -/
def InView (catalog : Catalog) (id : TypeId) (param : GenericParam) : Prop :=
  param.BelongsTo (.type id) (catalog.genericArity id) ∨ ∃ method, param.owner = .method method

theorem InView.param {catalog : Catalog} {id : TypeId} {param : GenericParam}
    (h : catalog.InView id param) :
    ∀ mentioned ∈ (TypeExpr.param param).params, catalog.InView id mentioned :=
  List.forall_mem_singleton.mpr h

/-- What a parameter of a type's base stands for in the type: the argument in its place. -/
def baseArgument (catalog : Catalog) (id : TypeId) (param : GenericParam) : TypeExpr :=
  match catalog.baseType? id with
  | some (.generic definition arguments) =>
    if param.owner = .type definition then arguments[param.position]?.getD (.param param)
    else .param param
  | _ => .param param

/-- A type in terms of the parameters of a type's base, in terms of those of the type. -/
def throughBase (catalog : Catalog) (id : TypeId) (type : TypeExpr) : TypeExpr :=
  type.replace (catalog.baseArgument id)

/-- The same through several bases, that of the last type first. -/
def throughBases (catalog : Catalog) (ids : List TypeId) (type : TypeExpr) : TypeExpr :=
  ids.foldr catalog.throughBase type

end Catalog

theorem Substitution.find?_ofBase (view : Substitution) (definition : TypeId)
    (arguments : List TypeExpr) (param : GenericParam) :
    (view.ofBase definition arguments).find? param =
      if param.owner = .type definition then arguments[param.position]?.map view.apply else none := by
  cases hfind : (view.ofBase definition arguments).find? param with
  | some type =>
    obtain ⟨position, argument, hget, heq⟩ := mem_bindings_ofBase.mp (mem_of_find? hfind)
    cases heq
    rw [if_pos rfl, hget, Option.map_some]
  | none =>
    split
    · next howner =>
      cases hget : arguments[param.position]? with
      | none => rfl
      | some argument =>
        obtain ⟨type, hsome⟩ := find?_isSome_of_mem
          (mem_bindings_ofBase.mpr ⟨param.position, argument, hget, rfl⟩)
        rw [← howner, hfind] at hsome
        cases hsome
    · rfl

namespace Catalog

section Step

variable {catalog : Catalog} {target : TypeId} {level base : Level}

/-- A parameter of a base stands for the argument in its place, which has the parameters of the type
whose base it is; a method's parameter stands for itself. -/
theorem baseArgument_cases (hloaded : catalog.Loaded) (hbase : catalog.baseLevel? level = some base)
    {param : GenericParam} (hparam : catalog.InView base.type param) :
    (base.view.find? param = some (level.view.apply (catalog.baseArgument level.type param)) ∧
      ∀ mentioned ∈ (catalog.baseArgument level.type param).params,
        mentioned.BelongsTo (.type level.type) (catalog.genericArity level.type)) ∨
    ((∃ method, param.owner = .method method) ∧ base.view.find? param = none ∧
      catalog.baseArgument level.type param = .param param) := by
  rw [baseArgument]
  rcases baseLevel?_eq_some_iff.mp hbase with ⟨definition, arguments, htype, rfl⟩ |
    ⟨definition, htype, rfl⟩
  · rw [Substitution.find?_ofBase, htype]
    rcases hparam with ⟨howner, hposition⟩ | ⟨method, howner⟩
    · cases (hloaded.base htype).scope with
      | generic _ harity harguments =>
        rw [genericArity_eq harity] at hposition
        simp only [if_pos howner, List.getElem?_eq_getElem hposition, Option.map_some,
          Option.getD_some]
        exact .inl ⟨trivial, (harguments _ (List.getElem_mem hposition)).owns_of_mem_params⟩
    · have hne : param.owner ≠ .type definition := by
        rw [howner]
        exact nofun
      simp only [if_neg hne]
      exact .inr ⟨⟨method, howner⟩, trivial, trivial⟩
  · rw [htype]
    rcases hparam with ⟨-, hposition⟩ | hmethod
    · rw [(hloaded.base htype).closed definition rfl] at hposition
      exact absurd hposition (Nat.not_lt_zero _)
    · exact .inr ⟨hmethod, rfl, rfl⟩

/-- A base's view binds the parameters of the base, and nothing else. -/
theorem isBound_iff_of_baseLevel? (hloaded : catalog.Loaded)
    (hbase : catalog.baseLevel? level = some base) (param : GenericParam) :
    (∃ type, base.view.find? param = some type) ↔
      param.BelongsTo (.type base.type) (catalog.genericArity base.type) := by
  constructor
  · rintro ⟨type, hfind⟩
    rcases baseLevel?_eq_some_iff.mp hbase with ⟨definition, arguments, htype, rfl⟩ |
      ⟨definition, htype, rfl⟩
    · cases (hloaded.base htype).scope with
      | generic _ harity _ =>
        obtain ⟨position, argument, hget, heq⟩ :=
          Substitution.mem_bindings_ofBase.mp (Substitution.mem_of_find? hfind)
        cases heq
        refine ⟨rfl, ?_⟩
        rw [genericArity_eq harity]
        exact (List.getElem?_eq_some_iff.mp hget).1
    · cases hfind
  · intro hparam
    rcases baseArgument_cases hloaded hbase (.inl hparam) with ⟨hfind, -⟩ | ⟨⟨method, howner⟩, -⟩
    · exact ⟨_, hfind⟩
    · rw [hparam.1] at howner
      cases howner

/-- The view of a level's base is the view of the level, after the arguments are put in. -/
theorem view_apply_of_baseLevel? (hloaded : catalog.Loaded)
    (hlevel : catalog.LevelInScope target level) (hbase : catalog.baseLevel? level = some base)
    {type : TypeExpr} (htype : ∀ param ∈ type.params, catalog.InView base.type param) :
    base.view.apply type = level.view.apply (catalog.throughBase level.type type) := by
  have hmeaning : ∀ param ∈ type.params,
      base.view.meaning param = (catalog.baseArgument level.type param).replace level.view.meaning := by
    intro param hparam
    rw [← Substitution.apply_eq_replace]
    rcases baseArgument_cases hloaded hbase (htype param hparam) with
      ⟨hfind, -⟩ | ⟨⟨method, howner⟩, hfind, hstays⟩
    · rw [Substitution.meaning_of_find? hfind]
    · have hunbound : level.view.find? param = none :=
        hlevel.find?_eq_none (by rw [howner]; exact nofun)
      rw [Substitution.meaning_of_find?_eq_none hfind, hstays, Substitution.apply, hunbound,
        Option.getD_none]
  rw [throughBase, Substitution.apply_eq_replace, Substitution.apply_eq_replace,
    TypeExpr.replace_replace]
  exact TypeExpr.replace_congr hmeaning

/-- What the arguments are put into has the parameters of the type whose base it is. -/
theorem inView_of_mem_throughBase (hloaded : catalog.Loaded)
    (hbase : catalog.baseLevel? level = some base) {type : TypeExpr}
    (htype : ∀ param ∈ type.params, catalog.InView base.type param) :
    ∀ param ∈ (catalog.throughBase level.type type).params, catalog.InView level.type param := by
  intro param hparam
  obtain ⟨source, hsource, hparam⟩ := TypeExpr.mem_params_replace.mp hparam
  rcases baseArgument_cases hloaded hbase (htype source hsource) with
    ⟨-, hscope⟩ | ⟨hmethod, -, hstays⟩
  · exact .inl (hscope param hparam)
  · rw [hstays] at hparam
    rw [List.mem_singleton.mp hparam]
    exact .inr hmethod

end Step

section Chain

variable {catalog : Catalog} {target : TypeId} {levels front back : List Level} {level : Level}

theorem throughBases_append (ids others : List TypeId) (type : TypeExpr) :
    catalog.throughBases (ids ++ others) type =
      catalog.throughBases ids (catalog.throughBases others type) :=
  List.foldr_append

/-- The level before another on a chain has it as its base. -/
theorem ChainOf.baseLevel? {before : Level} (h : catalog.ChainOf target levels)
    (hsplit : levels = front ++ before :: level :: back) : catalog.baseLevel? before = some level := by
  have hsteps := h.steps
  rw [hsplit] at hsteps
  exact (List.isChain_cons_cons.mp hsteps.right_of_append).1

/-- A level sees a type through all the bases up to it. -/
theorem ChainOf.view_apply (hloaded : catalog.Loaded) (h : catalog.ChainOf target levels)
    (hsplit : levels = front ++ level :: back) {type : TypeExpr}
    (htype : ∀ param ∈ type.params, catalog.InView level.type param) :
    level.view.apply type = catalog.throughBases (front.map Level.type) type ∧
      ∀ param ∈ (level.view.apply type).params, catalog.InView target param := by
  -- On the levels before this one, from the last of them: the arguments of its base are put in first.
  induction front using List.reverseRecOn generalizing level back type with
  | nil =>
    have hstarts := h.starts
    rw [hsplit] at hstarts
    cases hstarts
    rw [Substitution.apply_identity]
    exact ⟨rfl, htype⟩
  | append_singleton front before ih =>
    rw [List.append_assoc, List.singleton_append] at hsplit
    have hbase := h.baseLevel? hsplit
    have hbefore := h.levelInScope hloaded before (by rw [hsplit]; simp)
    obtain ⟨happly, hparams⟩ := ih hsplit (inView_of_mem_throughBase hloaded hbase htype)
    rw [view_apply_of_baseLevel? hloaded hbefore hbase htype, List.map_append, throughBases_append]
    exact ⟨happly, hparams⟩

end Chain

/-- In a catalog that is read from a text, every level but the first that is reached from a type binds
exactly the parameters of its own type, to types in terms of the parameters of the type it is reached
from. Its view puts the arguments of all bases up to it into a type, those of the nearest base last. -/
theorem levels_view_composes {catalog : Catalog} {document : Text} (h : ofText document = .ok catalog)
    {id : TypeId} {k : Nat} {level : Level} (hlevel : (catalog.levels id)[k + 1]? = some level) :
    level.view.target = id ∧
    (∀ param, (∃ type, level.view.find? param = some type) ↔
      param.BelongsTo (.type level.type) (catalog.genericArity level.type)) ∧
    (∀ param type, level.view.find? param = some type →
      ∀ mentioned ∈ type.params, mentioned.BelongsTo (.type id) (catalog.genericArity id)) ∧
    ∀ type : TypeExpr, (∀ param ∈ type.params, catalog.InView level.type param) →
      level.view.apply type =
        catalog.throughBases (((catalog.levels id).take (k + 1)).map Level.type) type := by
  have hloaded := ofText_loaded h
  have hchain := chainOf_levels hloaded id
  have hscope := hchain.levelInScope hloaded level (List.mem_of_getElem? hlevel)
  obtain ⟨hlt, rfl⟩ := List.getElem?_eq_some_iff.mp hlevel
  have hsplit : catalog.levels id = (catalog.levels id).take (k + 1) ++
      (catalog.levels id)[k + 1] :: (catalog.levels id).drop (k + 2) := by
    rw [← List.drop_eq_getElem_cons hlt, List.take_append_drop]
  have hbefore : catalog.levels id = (catalog.levels id).take k ++
      (catalog.levels id)[k] :: (catalog.levels id)[k + 1] :: (catalog.levels id).drop (k + 2) := by
    rw [← List.drop_eq_getElem_cons hlt, ← List.drop_eq_getElem_cons, List.take_append_drop]
  refine ⟨hscope.target_eq, isBound_iff_of_baseLevel? hloaded (hchain.baseLevel? hbefore), ?_, ?_⟩
  · intro param type hfind
    exact (hscope.bound param type (Substitution.mem_of_find? hfind)).2.2.owns_of_mem_params
  · intro type htype
    exact (hchain.view_apply hloaded hsplit htype).1

/-- Three generic types, each but the first with a base that is closed over its own parameter. -/
def stacked : Catalog :=
  ⟨[⟨['A', tick, '2'], [['T'], ['U']], none, []⟩,
      ⟨['B', tick, '1'], [['T']],
        some (.generic ⟨0⟩ [.array (.param ⟨.type ⟨1⟩, 0⟩) 1, .param ⟨.type ⟨1⟩, 0⟩]), []⟩,
      ⟨['C', tick, '1'], [['T']], some (.generic ⟨1⟩ [.pointer (.param ⟨.type ⟨2⟩, 0⟩)]), []⟩], []⟩

theorem ofText_stacked :
    ofText (("[[types]]\nname='A`2'\ngeneric_params=['T','U']\n" ++
      "[[types]]\nname='B`1'\ngeneric_params=['T']\nbase='A\x7b`0[],`0\x7d'\n" ++
      "[[types]]\nname='C`1'\ngeneric_params=['T']\nbase='B\x7b`0*\x7d'\n").toList) =
        .ok stacked :=
  eq_ok_of_toOption (by decide +kernel)

/-- From the third type the first one is seen with arrays of pointers, and with pointers. -/
theorem levels_view_composes_stacked : ∃ level, (stacked.levels ⟨2⟩)[2]? = some level ∧
    level.view.apply (.generic ⟨0⟩ [.param ⟨.type ⟨0⟩, 1⟩, .param ⟨.type ⟨0⟩, 0⟩]) =
      .generic ⟨0⟩ [.pointer (.param ⟨.type ⟨2⟩, 0⟩), .array (.pointer (.param ⟨.type ⟨2⟩, 0⟩)) 1] := by
  have hlevel : (stacked.levels ⟨2⟩)[2]? = some ⟨⟨0⟩, ⟨⟨2⟩,
      [(⟨.type ⟨0⟩, 0⟩, .array (.pointer (.param ⟨.type ⟨2⟩, 0⟩)) 1),
        (⟨.type ⟨0⟩, 1⟩, .pointer (.param ⟨.type ⟨2⟩, 0⟩))]⟩⟩ := by decide +kernel
  obtain ⟨-, -, -, happly⟩ := levels_view_composes ofText_stacked hlevel
  refine ⟨_, hlevel, ?_⟩
  rw [happly]
  · decide +kernel
  · simp only [TypeExpr.params, TypeExpr.allParams, List.append_nil, List.singleton_append,
      List.forall_mem_cons]
    exact ⟨.inl ⟨rfl, by decide +kernel⟩, .inl ⟨rfl, by decide +kernel⟩, List.forall_mem_nil _⟩

end Catalog

end DocRef
