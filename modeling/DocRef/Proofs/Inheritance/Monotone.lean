import DocRef.Proofs.CanonicalId.Respelling
import DocRef.Proofs.Inheritance.Hiding
import DocRef.Proofs.Inheritance.Signatures
import DocRef.Proofs.Inheritance.Views
import Mathlib.Logic.Relation

/-!
Hiding goes on along a chain of bases (`mergedMembers_hidden_mono`): what a base hides, a type that is
derived from it hides as well. The chain of the base is the end of the chain of the derived type
(`ChainOf.exists_through`), and there every signature is the one that the base sees, respelled
(`ChainThrough.encodeSignature_respells`); so signatures that are the same for the base are the same for
the derived type.
-/

open Relation (ReflTransGen TransGen)

namespace DocRef.Catalog

/-- Whether a type has another one as its base. -/
def Extends (catalog : Catalog) (derived base : TypeId) : Prop :=
  ∃ type, catalog.baseType? derived = some type ∧ type.definition? = some base

/-- Whether no type is met twice on the way from a type to its base, the base of that, and so on. -/
def NoRepetition (catalog : Catalog) (id : TypeId) : Prop :=
  ∀ type, ReflTransGen catalog.Extends id type → ¬ TransGen catalog.Extends type type

variable {catalog : Catalog}

/-! ### Chains -/

section Chains

variable {level base : Level} {derived : TypeId} {levels front back : List Level}

theorem extends_of_baseLevel? (h : catalog.baseLevel? level = some base) :
    catalog.Extends level.type base.type := by
  rcases baseLevel?_eq_some_iff.mp h with ⟨definition, arguments, htype, rfl⟩ | ⟨definition, htype, rfl⟩
  · exact ⟨_, htype, rfl⟩
  · exact ⟨_, htype, rfl⟩

theorem exists_baseLevel? {id : TypeId} (h : catalog.Extends level.type id) :
    ∃ base, catalog.baseLevel? level = some base ∧ base.type = id := by
  obtain ⟨type, htype, hdefinition⟩ := h
  cases type with
  | named definition =>
    cases hdefinition
    exact ⟨_, baseLevel?_eq_some_iff.mpr (.inr ⟨id, htype, rfl⟩), rfl⟩
  | generic definition arguments =>
    cases hdefinition
    exact ⟨_, baseLevel?_eq_some_iff.mpr (.inl ⟨id, arguments, htype, rfl⟩), rfl⟩
  | _ => cases hdefinition

/-- Every level is reached from the first one. -/
theorem reaches_of_isChain
    (h : (level :: back).IsChain fun level base => catalog.baseLevel? level = some base) :
    ∀ later ∈ level :: back, ReflTransGen catalog.Extends level.type later.type := by
  induction back generalizing level with
  | nil =>
    intro later hlater
    rw [List.mem_singleton.mp hlater]
  | cons next back ih =>
    obtain ⟨hnext, hback⟩ := List.isChain_cons_cons.mp h
    intro later hlater
    rcases List.mem_cons.mp hlater with rfl | hlater
    · exact .refl
    · exact .head (extends_of_baseLevel? hnext) (ih hback later hlater)

/-- Where no type is met twice, a chain ends at a type without a base. -/
theorem ChainOf.baseLevel?_last (h : catalog.ChainOf derived levels)
    (hrepetition : catalog.NoRepetition derived) :
    ∀ last ∈ levels.getLast?, catalog.baseLevel? last = none := by
  intro last hlast
  cases hbase : catalog.baseLevel? last with
  | none => rfl
  | some base =>
    -- A chain that stops at a level with a base stops since it has the base's type already.
    obtain ⟨again, hagain, htype⟩ := List.mem_map.mp (h.stops last hlast base hbase)
    obtain ⟨front, back, hsplit⟩ := List.append_of_mem hagain
    obtain ⟨first, rest, hfirst⟩ := List.exists_cons_of_ne_nil (List.ne_nil_of_mem hagain)
    have hsteps := h.steps
    have hstarts := h.starts
    have hreaches : ReflTransGen catalog.Extends derived again.type := by
      rw [hfirst] at hstarts hsteps hagain
      cases hstarts
      exact reaches_of_isChain hsteps again hagain
    have hround : ReflTransGen catalog.Extends again.type last.type := by
      rw [hsplit] at hsteps hlast
      rw [List.getLast?_append_of_ne_nil _ (List.cons_ne_nil _ _)] at hlast
      exact reaches_of_isChain hsteps.right_of_append last (List.mem_of_getLast? hlast)
    have hextends := extends_of_baseLevel? hbase
    rw [← htype] at hextends
    exact absurd (.tail' hround hextends) (hrepetition _ hreaches)

/-- A chain holds every type that is reached from the first one. -/
theorem ChainOf.exists_level (h : catalog.ChainOf derived levels) {id : TypeId}
    (hid : ReflTransGen catalog.Extends derived id) : ∃ level ∈ levels, level.type = id := by
  induction hid with
  | refl => exact ⟨_, List.mem_of_head? h.starts, rfl⟩
  | tail _ hextends ih =>
    obtain ⟨level, hlevel, rfl⟩ := ih
    obtain ⟨base, hbase, rfl⟩ := exists_baseLevel? hextends
    obtain ⟨front, back, hsplit⟩ := List.append_of_mem hlevel
    cases back with
    | nil =>
      have hlast : level ∈ levels.getLast? := by rw [hsplit]; simp
      exact List.mem_map.mp (h.stops level hlast base hbase)
    | cons next back =>
      rw [h.baseLevel? hsplit, Option.some.injEq] at hbase
      rw [← hbase]
      exact ⟨next, by rw [hsplit]; simp, rfl⟩

/-- Two chains of bases that begin at one type and end where there is no base have the same types. -/
theorem map_type_eq_of_isChain {other : Level} {others : List Level}
    (h : (level :: back).IsChain fun level base => catalog.baseLevel? level = some base)
    (hother : (other :: others).IsChain fun level base => catalog.baseLevel? level = some base)
    (hlast : ∀ last ∈ (level :: back).getLast?, catalog.baseLevel? last = none)
    (hotherLast : ∀ last ∈ (other :: others).getLast?, catalog.baseLevel? last = none)
    (htype : level.type = other.type) :
    (level :: back).map Level.type = (other :: others).map Level.type := by
  -- Neither chain stops where the other one goes on, since that depends on the type alone.
  have hends : ∀ {first second next : Level}, first.type = second.type →
      catalog.baseLevel? first = none → catalog.baseLevel? second ≠ some next := by
    intro first second next htype hnone hsome
    have hextends := extends_of_baseLevel? hsome
    rw [← htype] at hextends
    obtain ⟨base, hbase, -⟩ := exists_baseLevel? hextends
    rw [hnone] at hbase
    cases hbase
  induction back generalizing level other others with
  | nil =>
    cases others with
    | nil => rw [List.map_singleton, List.map_singleton, htype]
    | cons next others =>
      exact absurd (List.isChain_cons_cons.mp hother).1 (hends htype (hlast level rfl))
  | cons next back ih =>
    obtain ⟨hnext, hback⟩ := List.isChain_cons_cons.mp h
    cases others with
    | nil => exact absurd hnext (hends htype.symm (hotherLast other rfl))
    | cons otherNext others =>
      obtain ⟨hotherNext, hothers⟩ := List.isChain_cons_cons.mp hother
      have hextends := extends_of_baseLevel? hotherNext
      rw [← htype] at hextends
      obtain ⟨base, hbase, hbaseType⟩ := exists_baseLevel? hextends
      rw [hnext] at hbase
      cases hbase
      rw [List.getLast?_cons_cons] at hlast hotherLast
      have hrest := ih hback hothers hlast hotherLast hbaseType
      rw [List.map_cons, hrest, htype]
      rfl

/-- A chain of bases that goes on from one of its levels as another chain does. -/
structure ChainThrough (catalog : Catalog) (derived id : TypeId) (levels : List Level) (via : Level)
    (others : List Level) : Prop where
  derived_chain : catalog.ChainOf derived levels
  base_chain : catalog.ChainOf id others
  suffix : ∃ front back, levels = front ++ via :: back ∧
    (via :: back).map Level.type = others.map Level.type

/-- The chain of a derived type goes on as that of its base does. -/
theorem ChainOf.exists_through (h : catalog.ChainOf derived levels) {id : TypeId}
    {others : List Level} (hother : catalog.ChainOf id others)
    (hrepetition : catalog.NoRepetition derived) (hid : ReflTransGen catalog.Extends derived id) :
    ∃ via, catalog.ChainThrough derived id levels via others := by
  obtain ⟨via, hvia, htype⟩ := h.exists_level hid
  obtain ⟨front, back, hsplit⟩ := List.append_of_mem hvia
  refine ⟨via, h, hother, front, back, hsplit, ?_⟩
  have hlast := h.baseLevel?_last hrepetition
  have hsteps := h.steps
  rw [hsplit] at hlast hsteps
  rw [List.getLast?_append_of_ne_nil _ (List.cons_ne_nil _ _)] at hlast
  have hotherLast : ∀ last ∈ others.getLast?, catalog.baseLevel? last = none :=
    hother.baseLevel?_last fun type htype => hrepetition type (hid.trans htype)
  cases others with
  | nil => cases hother.starts
  | cons first rest =>
    cases hother.starts
    exact map_type_eq_of_isChain hsteps.right_of_append hother.steps hlast hotherLast htype

end Chains

/-! ### Views -/

section Views

variable {derived id : TypeId} {levels others front back : List Level} {via level other : Level}

/-- Through a base a type that mentions dotted names only goes on to do so. -/
theorem throughBases_dotted (hmentions : catalog.MentionsDotted) (ids : List TypeId) {type : TypeExpr}
    (h : catalog.Dotted type) : catalog.Dotted (catalog.throughBases ids type) := by
  induction ids with
  | nil => exact h
  | cons id ids ih =>
    refine ih.replace fun param _ => ?_
    rw [baseArgument]
    split
    · next definition arguments hbase =>
      split
      · cases hmentions.base hbase with
        | generic _ _ harguments =>
          cases hget : arguments[param.position]? with
          | none => exact .param trivial
          | some argument => exact harguments argument (List.mem_of_getElem? hget)
      · exact .param trivial
    · exact .param trivial

theorem ChainThrough.mem (h : catalog.ChainThrough derived id levels via others) : via ∈ levels := by
  obtain ⟨front, back, hsplit, -⟩ := h.suffix
  rw [hsplit]
  simp

theorem ChainThrough.via_type (h : catalog.ChainThrough derived id levels via others) :
    via.type = id := by
  obtain ⟨-, hother, front, back, -, htypes⟩ := h
  cases others with
  | nil => cases hother.starts
  | cons first rest =>
    cases hother.starts
    exact (List.cons.inj htypes).1

/-- Where the base's chain has a level behind others, the derived type's chain has one for each of them
behind the level that it goes on from. -/
theorem ChainThrough.exists_split (h : catalog.ChainThrough derived id levels via others)
    (hsplit : others = front ++ other :: back) : ∃ before after between level rest,
      levels = before ++ via :: after ∧ levels = before ++ between ++ level :: rest ∧
        between.map Level.type = front.map Level.type ∧ level.type = other.type := by
  obtain ⟨before, after, hvia, htypes⟩ := h.suffix
  rw [hsplit, List.map_append] at htypes
  obtain ⟨between, _, hbetween, hfront, hback⟩ := List.map_eq_append_iff.mp htypes
  rw [List.map_cons] at hback
  obtain ⟨level, rest, rfl, htype, -⟩ := List.map_eq_cons_iff.mp hback
  refine ⟨before, after, between, level, rest, hvia, ?_, hfront, htype⟩
  rw [hvia, hbetween, List.append_assoc]

/-- What the base sees of a type, seen from the derived type, is what the derived type sees of it. -/
theorem ChainThrough.view_apply (hloaded : catalog.Loaded)
    (h : catalog.ChainThrough derived id levels via others) (hlevel : level ∈ levels)
    (hother : other ∈ others) (htype : level.type = other.type) {type : TypeExpr}
    (hscope : ∀ param ∈ type.params, catalog.InView level.type param) :
    level.view.apply type = via.view.apply (other.view.apply type) := by
  obtain ⟨front, back, hsplit⟩ := List.append_of_mem hother
  obtain ⟨before, after, between, found, rest, hvia, hplace, hbetween, hfound⟩ :=
    h.exists_split hsplit
  -- On one chain, a level is told by its type.
  have hsame : found = level := by
    refine List.inj_on_of_nodup_map h.derived_chain.distinct ?_ hlevel (hfound.trans htype.symm)
    rw [hplace]
    simp
  rw [hsame] at hplace
  have hotherScope : ∀ param ∈ type.params, catalog.InView other.type param := by
    rwa [← htype]
  obtain ⟨happly, hparams⟩ := h.base_chain.view_apply hloaded hsplit hotherScope
  rw [← h.via_type] at hparams
  rw [(h.derived_chain.view_apply hloaded hplace hscope).1,
    (h.derived_chain.view_apply hloaded hvia hparams).1, happly, List.map_append,
    throughBases_append, hbetween]

/-- A level sees its parameters as types that mention dotted names only. -/
theorem ChainOf.dotted_meaning (hloaded : catalog.Loaded) (hmentions : catalog.MentionsDotted)
    (h : catalog.ChainOf id others) (hother : other ∈ others) {param : GenericParam}
    (hparam : catalog.InView other.type param) : catalog.Dotted (other.view.meaning param) := by
  obtain ⟨before, after, hsplit⟩ := List.append_of_mem hother
  have happly : other.view.meaning param =
      catalog.throughBases (before.map Level.type) (.param param) :=
    (h.view_apply hloaded hsplit hparam.param).1
  rw [happly]
  exact throughBases_dotted hmentions _ (.param trivial)

end Views

/-! ### Signatures -/

/-- The texts that a level's type parameters have as seen from the target of its view. -/
def viewTexts (catalog : Catalog) (level : Level) (position : Nat) : Text :=
  (catalog.typeText (ownParam [.type level.view.target])
    (level.view.meaning ⟨.type level.type, position⟩)).toOption.getD []

section Signatures

variable {derived id : TypeId} {levels others front back : List Level} {via level other : Level}

/-- What a parameter of a level's type is written as there becomes what it is written as from the target
of the level's view, and the parameters of methods stay as they are. -/
theorem LevelInScope.param_respells (hloaded : catalog.Loaded) (hbounded : catalog.ListsBounded)
    (h : catalog.LevelInScope derived via) {member : MemberId} {count : Nat} {param : GenericParam}
    (hparam : Owns via.type (catalog.genericArity via.type) member count param) :
    Respelled (catalog.viewTexts via) (ownParam [.type via.type, .method member] param)
      (catalog.typeText (ownParam [.type derived, .method member]) (via.view.meaning param)) := by
  obtain ⟨owner, position⟩ := param
  rcases hparam with hparam | ⟨howner, -⟩
  · have hscope := h.meaning hparam
    have hown : ∀ {owners : List ParamOwner} {param : GenericParam}, .type derived ∈ owners →
        param.BelongsTo (.type derived) (catalog.genericArity derived) →
        ownParam owners param = .ok param.positional := by
      intro owners param howners hparam
      rw [← hparam.1] at howners
      exact ownParam_ok howners
    obtain ⟨text, htext⟩ : ∃ text, catalog.typeText (ownParam [.type derived])
        (via.view.meaning ⟨owner, position⟩) = .ok text :=
      typeText_ok hloaded hbounded (fun _ hparam => ⟨_, hown List.mem_cons_self hparam⟩) hscope
    have hwithMethod : catalog.typeText (ownParam [.type derived, .method member])
        (via.view.meaning ⟨owner, position⟩) = .ok text := by
      rw [← htext]
      refine typeText_congr fun param hmentioned => ?_
      have hparam := hscope.owns_of_mem_params param hmentioned
      rw [hown List.mem_cons_self hparam, hown List.mem_cons_self hparam]
    obtain ⟨rfl, -⟩ := hparam
    have hview : catalog.viewTexts via position = text := by
      rw [viewTexts, h.target_eq, htext]
      rfl
    rw [← hview] at hwithMethod
    exact ⟨_, _, ownParam_ok List.mem_cons_self, hwithMethod, respellsType_typeParam position⟩
  · cases howner
    have hunbound : via.view.find? ⟨.method member, position⟩ = none := h.find?_eq_none nofun
    have hown : ∀ owner, ownParam [owner, .method member] ⟨.method member, position⟩ =
        .ok (tick :: tick :: Text.decimal position) :=
      fun owner => ownParam_ok (List.mem_cons_of_mem _ List.mem_cons_self)
    rw [Substitution.meaning_of_find?_eq_none hunbound, typeText]
    exact ⟨_, _, hown _, hown _, respellsType_methodParam position⟩

/-- What the base writes for a parameter becomes what the derived type writes for it. -/
theorem ChainThrough.param_respells (hloaded : catalog.Loaded) (hbounded : catalog.ListsBounded)
    (hmentions : catalog.MentionsDotted) (h : catalog.ChainThrough derived id levels via others)
    (hlevel : level ∈ levels) (hother : other ∈ others) (htype : level.type = other.type)
    {member : MemberId} {count : Nat} {param : GenericParam}
    (hparam : Owns level.type (catalog.genericArity level.type) member count param) :
    Respelled (catalog.viewTexts via)
      (catalog.substitutedParam [.type other.view.target, .method member] other.view
        other.view.bindings.length param)
      (catalog.substitutedParam [.type level.view.target, .method member] level.view
        level.view.bindings.length param) := by
  have hscope := h.derived_chain.levelInScope hloaded level hlevel
  have hviaScope := h.derived_chain.levelInScope hloaded via h.mem
  have hotherScope := h.base_chain.levelInScope hloaded other hother
  have hview : catalog.InView level.type param := by
    rcases hparam with hparam | ⟨howner, -⟩
    · exact .inl hparam
    · exact .inr ⟨member, howner⟩
  have hmeaning : level.view.meaning param =
      (other.view.meaning param).replace via.view.meaning := by
    rw [← Substitution.apply_eq_replace]
    exact h.view_apply hloaded hlevel hother htype hview.param
  have howned : (other.view.meaning param).WellScoped catalog.arity?
      (Owns via.type (catalog.genericArity via.type) member count) := by
    rcases hparam with hparam | hparam
    · rw [htype] at hparam
      rw [h.via_type]
      exact (hotherScope.meaning hparam).mono fun _ => .inl
    · have hunbound : other.view.find? param = none :=
        hotherScope.find?_eq_none (by rw [hparam.1]; exact nofun)
      rw [Substitution.meaning_of_find?_eq_none hunbound]
      exact .param (.inr hparam)
  have hdotted := h.base_chain.dotted_meaning hloaded hmentions hother (htype ▸ hview)
  rw [substitutedParam_eq hotherScope.captureFree, substitutedParam_eq hscope.captureFree, hmeaning,
    typeText_replace, hotherScope.target_eq, hscope.target_eq, ← h.via_type]
  exact typeText_respells hloaded hbounded (fun _ => hviaScope.param_respells hloaded hbounded)
    (howned.restrict hdotted)

/-- The signatures that the base sees become those that the derived type sees. -/
theorem ChainThrough.encodeSignature_respells (hloaded : catalog.Loaded)
    (hbounded : catalog.ListsBounded) (hmentions : catalog.MentionsDotted)
    (hnames : ∀ member ∈ catalog.members, (member.name.exchange '.' '#').IsIdentifier)
    (h : catalog.ChainThrough derived id levels via others) (hlevel : level ∈ levels)
    (hother : other ∈ others) (htype : level.type = other.type) {member : MemberId}
    (hmember : member ∈ catalog.membersOf level.type) :
    ∃ text, catalog.encodeSignature member other.view = .ok text ∧
      catalog.encodeSignature member level.view =
        .ok (respell (catalog.viewTexts via) .inside text) := by
  obtain ⟨entry, hentry, hdeclaring⟩ := (hloaded.mem_membersOf level.type member).mp hmember
  have htypes : ∀ type ∈ entry.types, type.WellScoped catalog.dottedArity?
      (Owns level.type (catalog.genericArity level.type) member entry.genericParams.length) := by
    intro type htype
    have hscope := (hloaded.member hentry).scope type htype
    rw [hdeclaring] at hscope
    exact hscope.restrict (hmentions.member hentry type htype)
  have hname := hnames entry (List.mem_of_getElem? hentry)
  obtain ⟨text, respelled, htext, hrespelled, hrespell⟩ := memberText_respells hloaded hbounded
    (fun _ => h.param_respells hloaded hbounded hmentions hlevel hother htype) member hname htypes
  have hletter : entry.kind.symbolKind.letter ∉ typeOpeners := by
    cases entry.kind <;> decide
  refine ⟨_, encodeSignature_of_memberText hentry htext, ?_⟩
  rw [respell_inside_cons _ hletter, respell_inside_cons _ (by decide), hrespell]
  exact encodeSignature_of_memberText hentry hrespelled

/-- Signatures that are the same for the base are the same for the derived type. -/
theorem ChainThrough.sameSignature (hloaded : catalog.Loaded) (hbounded : catalog.ListsBounded)
    (hmentions : catalog.MentionsDotted)
    (hnames : ∀ member ∈ catalog.members, (member.name.exchange '.' '#').IsIdentifier)
    (h : catalog.ChainThrough derived id levels via others) {nearer otherNearer : Level}
    {member hider : MemberId} (hlevel : level ∈ levels) (hother : other ∈ others)
    (htype : level.type = other.type) (hmember : member ∈ catalog.membersOf level.type)
    (hnearer : nearer ∈ levels) (hotherNearer : otherNearer ∈ others)
    (hnearerType : nearer.type = otherNearer.type) (hhider : hider ∈ catalog.membersOf nearer.type)
    (hsame : catalog.SameSignature other member otherNearer hider) :
    catalog.SameSignature level member nearer hider := by
  obtain ⟨text, htext, hrespelled⟩ := h.encodeSignature_respells hloaded hbounded hmentions hnames
    hlevel hother htype hmember
  obtain ⟨hiderText, hhiderText, hhiderRespelled⟩ := h.encodeSignature_respells hloaded hbounded
    hmentions hnames hnearer hotherNearer hnearerType hhider
  rw [SameSignature, htext, hhiderText, Except.ok.injEq] at hsame
  rw [SameSignature, hrespelled, hhiderRespelled, hsame]

end Signatures

/-! ### Hiding -/

section Hiding

variable {derived base : TypeId} {levels others front back : List Level} {via level other : Level}

/-- Where the base's chain has a level with others before it, so has the derived type's chain. -/
theorem ChainThrough.exists_place (h : catalog.ChainThrough derived base levels via others)
    (hsplit : others = front ++ other :: back) : ∃ before level after,
      levels = before ++ level :: after ∧ level.type = other.type ∧
        ∀ nearer ∈ front, ∃ found ∈ before, found.type = nearer.type := by
  obtain ⟨before, _, between, level, rest, -, hplace, hbetween, htype⟩ := h.exists_split hsplit
  refine ⟨before ++ between, level, rest, hplace, htype, fun nearer hnearer => ?_⟩
  have hmem : nearer.type ∈ between.map Level.type := by
    rw [hbetween]
    exact List.mem_map_of_mem hnearer
  obtain ⟨found, hfound, heq⟩ := List.mem_map.mp hmem
  exact ⟨found, List.mem_append_right _ hfound, heq⟩

/-- A level contributes all members that are no constructors. -/
theorem mem_contributed {member : MemberId} (hmember : member ∈ catalog.membersOf level.type)
    (hkind : ∀ entry, catalog.memberDef? member = some entry → entry.kind ≠ .constructor) :
    member ∈ catalog.contributed level := by
  refine List.mem_filter.mpr ⟨hmember, ?_⟩
  cases hentry : catalog.memberDef? member with
  | none => simp
  | some entry => simp [hkind entry hentry]

/-- The later levels of a chain contribute no constructors. -/
theorem ChainOf.kind_ne_constructor (hloaded : catalog.Loaded) (h : catalog.ChainOf base others)
    (hother : other ∈ others.tail) {member : MemberId} (hmember : member ∈ catalog.contributed other) :
    ∀ entry, catalog.memberDef? member = some entry → entry.kind ≠ .constructor := by
  intro entry hentry hkind
  rw [h.contributed_base hloaded other hother] at hmember
  have hconstructor := (List.mem_filter.mp hmember).2
  rw [hentry, Option.any_some, hkind] at hconstructor
  cases hconstructor

theorem ChainOf.hasSignatures (hloaded : catalog.Loaded) (hbounded : catalog.ListsBounded)
    (h : catalog.ChainOf derived levels) : ∀ level ∈ levels, catalog.HasSignatures level :=
  fun level hlevel _ hmember => encodeSignature_ok hloaded hbounded
    (h.levelInScope hloaded level hlevel) (mem_membersOf_of_contributed hmember)

/-- The members of a type and of its bases are merged along its chain. -/
theorem mergedMembers_eq_ok_iff (hloaded : catalog.Loaded) (hbounded : catalog.ListsBounded)
    {id : TypeId} {set : MemberSet} : catalog.mergedMembers id = .ok set ↔
      (∃ type, catalog.typeDef? id = some type) ∧ set = catalog.merged [] (catalog.levels id) := by
  have hmerged : catalog.mergeLevels [] (catalog.levels id) =
      .ok (catalog.merged [] (catalog.levels id)) :=
    mergeLevels_eq (fun _ => rfl) ((chainOf_levels hloaded id).hasSignatures hloaded hbounded)
  rw [mergedMembers]
  cases htype : catalog.typeDef? id with
  | none => simp
  | some type => simp [hmerged, eq_comm]

/-- What is hidden along the chain of a base, by a member that is no constructor, is hidden along the
chain of a type that is derived from it. -/
theorem ChainThrough.mem_hidden (hloaded : catalog.Loaded) (hbounded : catalog.ListsBounded)
    (hmentions : catalog.MentionsDotted)
    (hnames : ∀ member ∈ catalog.members, (member.name.exchange '.' '#').IsIdentifier)
    (h : catalog.ChainThrough derived base levels via others) {entry : HiddenMember}
    (hentry : entry ∈ (catalog.merged [] others).hidden)
    (hkind : ∀ hider, catalog.memberDef? entry.hiddenBy = some hider → hider.kind ≠ .constructor) :
    entry.hidden ∈ (catalog.merged [] levels).hidden.map HiddenMember.hidden := by
  obtain ⟨_, other, back, hsplit, hhidden, front, nearer, between, rfl, -, earlier, later,
    hcontributed, hsame, -⟩ := nearestSame_of_mem_hidden
      (h.base_chain.hasSignatures hloaded hbounded) hentry
  have hhider : entry.hiddenBy ∈ catalog.contributed nearer := by
    rw [hcontributed]
    simp
  -- Both levels have counterparts on the derived type's chain, in the same order.
  obtain ⟨before, level, after, hplace, htype, hfront⟩ := h.exists_place hsplit
  obtain ⟨found, hfound, hfoundType⟩ := hfront nearer (by simp)
  have hlater : other ∈ others.tail := by
    rw [hsplit]
    cases front <;> simp
  have hhiddenKind := h.base_chain.kind_ne_constructor hloaded hlater hhidden
  have hmember : entry.hidden ∈ catalog.membersOf level.type :=
    htype ▸ mem_membersOf_of_contributed hhidden
  have hhiderMember : entry.hiddenBy ∈ catalog.membersOf found.type :=
    hfoundType ▸ mem_membersOf_of_contributed hhider
  have hsignatures := h.derived_chain.hasSignatures hloaded hbounded
  refine (h.derived_chain.mem_hidden_iff hloaded hsignatures hplace
    (mem_contributed hmember hhiddenKind)).mpr
      ⟨found, hfound, entry.hiddenBy, mem_contributed hhiderMember hkind, ?_⟩
  refine h.sameSignature hloaded hbounded hmentions hnames ?_ ?_ htype hmember ?_ ?_ hfoundType
    hhiderMember hsame
  · rw [hplace]
    simp
  · rw [hsplit]
    simp
  · rw [hplace]
    exact List.mem_append_left _ hfound
  · rw [hsplit]
    simp

/-- In a catalog that is read from a text, where members are named as references can spell them and a
type's chain of bases meets no type twice, what a type on that chain hides, unless by a constructor, the
first type hides as well. -/
theorem mergedMembers_hidden_mono {document : Text} (h : ofText document = .ok catalog)
    (hbounded : catalog.ListsBounded)
    (hnames : ∀ member ∈ catalog.members, (member.name.exchange '.' '#').IsIdentifier)
    (hrepetition : catalog.NoRepetition derived) (hbase : ReflTransGen catalog.Extends derived base)
    {set : MemberSet} (hset : catalog.mergedMembers base = .ok set) {entry : HiddenMember}
    (hentry : entry ∈ set.hidden)
    (hkind : ∀ hider, catalog.memberDef? entry.hiddenBy = some hider → hider.kind ≠ .constructor) :
    ∃ derivedSet, catalog.mergedMembers derived = .ok derivedSet ∧
      entry.hidden ∈ derivedSet.hidden.map HiddenMember.hidden := by
  have hloaded := ofText_loaded h
  obtain ⟨htype, rfl⟩ := (mergedMembers_eq_ok_iff hloaded hbounded).mp hset
  obtain ⟨via, hthrough⟩ := (chainOf_levels hloaded derived).exists_through
    (chainOf_levels hloaded base) hrepetition hbase
  have hderived : ∃ type, catalog.typeDef? derived = some type := by
    rcases hbase.cases_head with rfl | ⟨_, ⟨type, hbaseType, -⟩, -⟩
    · exact htype
    · obtain ⟨type, htype, -⟩ := Option.bind_eq_some_iff.mp hbaseType
      exact ⟨type, htype⟩
  exact ⟨_, (mergedMembers_eq_ok_iff hloaded hbounded).mpr ⟨hderived, rfl⟩,
    hthrough.mem_hidden hloaded hbounded (ofText_mentionsDotted h) hnames hentry hkind⟩

/-- A generic type, another one whose base closes it over arrays, and a third one. -/
def twiceOverridden : Catalog :=
  ⟨[⟨['A', tick, '1'], [['T']], none, [⟨0⟩]⟩,
      ⟨['B', tick, '1'], [['T']], some (.generic ⟨0⟩ [.array (.param ⟨.type ⟨1⟩, 0⟩) 1]), [⟨1⟩]⟩,
      ⟨['C'], [], some (.generic ⟨1⟩ [.named ⟨2⟩]), [⟨2⟩]⟩],
    [⟨⟨0⟩, [], .method, ['M'], [.param ⟨.type ⟨0⟩, 0⟩], none⟩,
      ⟨⟨1⟩, [], .method, ['M'], [.array (.param ⟨.type ⟨1⟩, 0⟩) 1], none⟩,
      ⟨⟨2⟩, [], .method, ['M'], [.array (.named ⟨2⟩) 1], none⟩]⟩

theorem ofText_twiceOverridden :
    ofText (("[[types]]\nname='A`1'\ngeneric_params=['T']\n" ++
      "[[types.members]]\nname='M'\nkind='method'\nparameters=['`0']\n" ++
      "[[types]]\nname='B`1'\ngeneric_params=['T']\nbase='A\x7b`0[]\x7d'\n" ++
      "[[types.members]]\nname='M'\nkind='method'\nparameters=['`0[]']\n" ++
      "[[types]]\nname='C'\nbase='B\x7bC\x7d'\n" ++
      "[[types.members]]\nname='M'\nkind='method'\nparameters=['C[]']\n").toList) =
        .ok twiceOverridden :=
  eq_ok_of_toOption (by decide +kernel)

/-- The second type hides the method of the first one, and the third type hides both. -/
theorem mergedMembers_hidden_mono_twiceOverridden :
    twiceOverridden.mergedMembers ⟨1⟩ = .ok ⟨[⟨1⟩], [⟨⟨0⟩, ⟨1⟩⟩]⟩ ∧
      ∃ set, twiceOverridden.mergedMembers ⟨2⟩ = .ok set ∧ ⟨0⟩ ∈ set.hidden.map HiddenMember.hidden := by
  have hbounded : twiceOverridden.ListsBounded := ⟨by decide +kernel, by decide +kernel⟩
  have hname : Text.IsIdentifier ['M'] := ⟨'M', [], rfl, by decide +kernel, by simp⟩
  have hnames : ∀ member ∈ twiceOverridden.members,
      (member.name.exchange '.' '#').IsIdentifier := by
    simp only [twiceOverridden, List.forall_mem_cons]
    exact ⟨hname, hname, hname, List.forall_mem_nil _⟩
  have hstep : ∀ {id base : TypeId}, twiceOverridden.Extends id base → base.index < id.index := by
    rintro ⟨_ | _ | _ | index⟩ base ⟨type, ⟨⟩, ⟨⟩⟩ <;> decide
  have hless : ∀ {id base : TypeId}, TransGen twiceOverridden.Extends id base →
      base.index < id.index := by
    intro id base h
    induction h with
    | single h => exact hstep h
    | tail _ h ih => exact (hstep h).trans ih
  have hbase : ReflTransGen twiceOverridden.Extends ⟨2⟩ ⟨1⟩ := .single ⟨_, rfl, rfl⟩
  have hset : twiceOverridden.mergedMembers ⟨1⟩ = .ok ⟨[⟨1⟩], [⟨⟨0⟩, ⟨1⟩⟩]⟩ :=
    eq_ok_of_toOption (by decide +kernel)
  refine ⟨hset, mergedMembers_hidden_mono ofText_twiceOverridden hbounded hnames
    (fun _ _ hround => (hless hround).ne rfl) hbase hset List.mem_cons_self ?_⟩
  rintro hider ⟨⟩
  decide

end Hiding

end DocRef.Catalog
