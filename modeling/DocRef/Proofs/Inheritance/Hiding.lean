import DocRef.Proofs.Inheritance.Merging
import Mathlib.Data.List.Basic
import Mathlib.Data.List.Nodup

/-!
Nearest wins (`mergedMembers_nearestWins`): in a catalog that a listing describes, the members of a
type and of its bases always merge, every one of them stands once among the visible or the hidden
ones, and hidden are exactly those whose signature a member of a nearer type has.
-/

namespace DocRef.Catalog

/-- Whether two members have the same signature, each as its level sees it. -/
def SameSignature (catalog : Catalog) (level : Level) (id : MemberId) (other : Level)
    (otherId : MemberId) : Prop :=
  catalog.encodeSignature id level.view = catalog.encodeSignature otherId other.view

/-- Whether a member is the first with a given member's signature on the nearest of some levels that
has one. -/
def NearestSame (catalog : Catalog) (nearer : List Level) (level : Level) (id hiddenBy : MemberId) :
    Prop :=
  ∃ front nearest back, nearer = front ++ nearest :: back ∧
    (∀ between ∈ front, ∀ member ∈ catalog.contributed between,
      ¬ catalog.SameSignature level id between member) ∧
    ∃ earlier later, catalog.contributed nearest = earlier ++ hiddenBy :: later ∧
      catalog.SameSignature level id nearest hiddenBy ∧
      ∀ member ∈ earlier, ¬ catalog.SameSignature level id nearest member

/-- What the members along a chain merge to where nearer members win. The first type contributes all
its members, the others all but their constructors; all contributed members stand once among the
visible and the hidden ones, in the order of the chain; and a member is hidden if and only if a
member on a nearer level has its signature, by the first such member of the nearest such level, which
is visible itself. -/
structure NearestWins (catalog : Catalog) (levels : List Level) (set : MemberSet) : Prop where
  contributed_first : ∀ level ∈ levels.head?, catalog.contributed level = catalog.membersOf level.type
  contributed_base : ∀ level ∈ levels.tail, catalog.contributed level =
    (catalog.membersOf level.type).filter fun id =>
      !(catalog.memberDef? id).any (·.kind = .constructor)
  perm : (set.visible ++ set.hidden.map HiddenMember.hidden).Perm
    (levels.flatMap catalog.contributed)
  nodup : (levels.flatMap catalog.contributed).Nodup
  visible_order : set.visible.Sublist (levels.flatMap catalog.contributed)
  hidden_order : (set.hidden.map HiddenMember.hidden).Sublist (levels.flatMap catalog.contributed)
  hidden_iff : ∀ front level back, levels = front ++ level :: back →
    ∀ id ∈ catalog.contributed level, (id ∈ set.hidden.map HiddenMember.hidden ↔
      ∃ nearer ∈ front, ∃ other ∈ catalog.contributed nearer,
        catalog.SameSignature level id nearer other)
  hidden_by : ∀ entry ∈ set.hidden, ∃ front level back, levels = front ++ level :: back ∧
    entry.hidden ∈ catalog.contributed level ∧
      catalog.NearestSame front level entry.hidden entry.hiddenBy
  hidden_by_visible : ∀ entry ∈ set.hidden, entry.hiddenBy ∈ set.visible

section

variable {catalog : Catalog}

theorem sameSignature_iff {level other : Level} {id otherId : MemberId}
    (hlevel : catalog.HasSignatures level) (hid : id ∈ catalog.contributed level)
    (hother : catalog.HasSignatures other) (hotherId : otherId ∈ catalog.contributed other) :
    catalog.SameSignature level id other otherId ↔
      catalog.signatureText other.view otherId = catalog.signatureText level.view id := by
  rw [SameSignature, encodeSignature_eq (hlevel id hid), encodeSignature_eq (hother otherId hotherId)]
  constructor
  · intro h
    exact (Except.ok.inj h).symm
  · intro h
    rw [h]

section Search

variable {front : List Level} {level : Level} {id : MemberId}

/-- The member that a search along the chain finds is the first on the nearest level that has one. -/
theorem nearestSame_of_hider? (hfront : ∀ nearer ∈ front, catalog.HasSignatures nearer)
    (hlevel : catalog.HasSignatures level) (hid : id ∈ catalog.contributed level) {other : MemberId}
    (h : catalog.hider? front level id = some other) : catalog.NearestSame front level id other := by
  obtain ⟨before, nearest, after, rfl, hbefore, earlier, later, hcontributed, hsame, hearlier⟩ :=
    exists_nearest_of_hider? h
  have hnearest : catalog.HasSignatures nearest :=
    hfront nearest (List.mem_append_right _ List.mem_cons_self)
  refine ⟨before, nearest, after, rfl, ?_, earlier, later, hcontributed, ?_, ?_⟩
  · intro between hbetween member hmember
    rw [sameSignature_iff hlevel hid (hfront between (List.mem_append_left _ hbetween)) hmember]
    exact hbefore between hbetween member hmember
  · have hother : other ∈ catalog.contributed nearest := by
      rw [hcontributed]
      exact List.mem_append_right _ List.mem_cons_self
    rwa [sameSignature_iff hlevel hid hnearest hother]
  · intro member hmember
    have hcontributed : member ∈ catalog.contributed nearest := by
      rw [hcontributed]
      exact List.mem_append_left _ hmember
    rw [sameSignature_iff hlevel hid hnearest hcontributed]
    exact hearlier member hmember

theorem exists_hider? (hfront : ∀ nearer ∈ front, catalog.HasSignatures nearer)
    (hlevel : catalog.HasSignatures level) (hid : id ∈ catalog.contributed level) {nearer : Level}
    {other : MemberId} (hnearer : nearer ∈ front) (hother : other ∈ catalog.contributed nearer)
    (hsame : catalog.SameSignature level id nearer other) :
    ∃ hiddenBy, catalog.hider? front level id = some hiddenBy := by
  rw [sameSignature_iff hlevel hid (hfront nearer hnearer) hother] at hsame
  cases hhider : catalog.hider? front level id with
  | some hiddenBy => exact ⟨hiddenBy, rfl⟩
  | none =>
    have hsigned : (catalog.signatureText nearer.view other, other) ∈
        front.flatMap catalog.signed :=
      List.mem_flatMap.mpr ⟨nearer, hnearer, List.mem_map_of_mem hother⟩
    have hne := List.lookup_eq_none_iff.mp hhider _ hsigned
    exact absurd hsame.symm (bne_iff_ne.mp hne)

end Search

/-- A type declares members of its own. -/
theorem type_eq_of_contributed (hloaded : catalog.Loaded) {level other : Level} {id : MemberId}
    (hlevel : id ∈ catalog.contributed level) (hother : id ∈ catalog.contributed other) :
    level.type = other.type := by
  obtain ⟨member, hmember, hdeclaring⟩ :=
    (hloaded.mem_membersOf _ _).mp (mem_membersOf_of_contributed hlevel)
  obtain ⟨member', hmember', hdeclaring'⟩ :=
    (hloaded.mem_membersOf _ _).mp (mem_membersOf_of_contributed hother)
  rw [hmember] at hmember'
  cases hmember'
  rw [← hdeclaring, ← hdeclaring']

/-- The place of a level on a chain is told by its type. -/
theorem ChainOf.split_unique {id : TypeId} {levels front back front' back' : List Level}
    {level level' : Level} (h : catalog.ChainOf id levels)
    (hsplit : levels = front ++ level :: back) (hsplit' : levels = front' ++ level' :: back')
    (htype : level.type = level'.type) : front = front' ∧ level = level' := by
  have hnodup : levels.Nodup := h.distinct.of_map
  have hmem : level ∈ levels := by rw [hsplit]; simp
  have hmem' : level' ∈ levels := by rw [hsplit']; simp
  have hlevel : level = level' := List.inj_on_of_nodup_map h.distinct hmem hmem' htype
  subst hlevel
  rw [hsplit] at hnodup hsplit'
  have hback : level ∉ back := (List.nodup_middle.mp hnodup).notMem ∘ List.mem_append_right _
  have hfront : level ∉ front := (List.nodup_middle.mp hnodup).notMem ∘ List.mem_append_left _
  exact ⟨((List.append_cons_inj_of_notMem hfront hback).mp hsplit').1, rfl⟩

theorem ChainOf.contributed_nodup (hloaded : catalog.Loaded) {id : TypeId} {levels : List Level}
    (h : catalog.ChainOf id levels) : (levels.flatMap catalog.contributed).Nodup := by
  refine List.nodup_flatMap.mpr ⟨?_, ?_⟩
  · intro level _
    exact (hloaded.membersOf_nodup level.type).filter _
  · have hdistinct := List.pairwise_map.mp h.distinct
    refine hdistinct.imp ?_
    intro level other hne
    refine List.disjoint_left.mpr fun id hlevel hother => ?_
    exact hne (type_eq_of_contributed hloaded hlevel hother)

theorem ChainOf.contributed_first {id : TypeId} {levels : List Level}
    (h : catalog.ChainOf id levels) :
    ∀ level ∈ levels.head?, catalog.contributed level = catalog.membersOf level.type := by
  intro level hlevel
  rw [h.starts] at hlevel
  cases hlevel
  exact List.filter_eq_self.mpr fun member _ => by simp [Substitution.identity]

/-- The other levels contribute all but their constructors. -/
theorem ChainOf.contributed_base (hloaded : catalog.Loaded) {id : TypeId} {levels : List Level}
    (h : catalog.ChainOf id levels) :
    ∀ level ∈ levels.tail, catalog.contributed level =
      (catalog.membersOf level.type).filter fun id =>
        !(catalog.memberDef? id).any (·.kind = .constructor) := by
  intro level hlevel
  have htarget := (h.levelInScope hloaded level (List.mem_of_mem_tail hlevel)).target_eq
  have hne : level.type ≠ id := by
    obtain ⟨first, rest, rfl⟩ : ∃ first rest, levels = first :: rest :=
      List.exists_cons_of_ne_nil (List.ne_nil_of_mem (List.mem_of_mem_tail hlevel))
    cases h.starts
    intro heq
    have hmem : level.type ∈ rest.map Level.type := List.mem_map_of_mem hlevel
    rw [heq] at hmem
    exact (List.nodup_cons.mp h.distinct).1 hmem
  simp only [contributed, htarget, decide_eq_false hne, Bool.false_or]

section Hidden

variable {id : TypeId} {levels front back : List Level} {level : Level} {member : MemberId}

/-- A member that is hidden on a chain has its signature on a nearer level, and the other way round. -/
theorem ChainOf.mem_hidden_iff (hloaded : catalog.Loaded) (h : catalog.ChainOf id levels)
    (hsignatures : ∀ level ∈ levels, catalog.HasSignatures level)
    (hsplit : levels = front ++ level :: back) (hmember : member ∈ catalog.contributed level) :
    member ∈ (catalog.merged [] levels).hidden.map HiddenMember.hidden ↔
      ∃ nearer ∈ front, ∃ other ∈ catalog.contributed nearer,
        catalog.SameSignature level member nearer other := by
  have hfront : ∀ nearer ∈ front, catalog.HasSignatures nearer := fun nearer hnearer =>
    hsignatures nearer (by rw [hsplit]; exact List.mem_append_left _ hnearer)
  have hlevel : catalog.HasSignatures level := hsignatures level (by rw [hsplit]; simp)
  constructor
  · intro hhidden
    obtain ⟨entry, hentry, rfl⟩ := List.mem_map.mp hhidden
    obtain ⟨front', level', back', hsplit', hmember', hhider⟩ :=
      (mem_hidden_merged [] levels entry).mp hentry
    obtain ⟨rfl, rfl⟩ := h.split_unique hsplit hsplit'
      (type_eq_of_contributed hloaded hmember hmember')
    obtain ⟨before, nearest, after, rfl, -, earlier, later, hcontributed, hsame, -⟩ :=
      nearestSame_of_hider? hfront hlevel hmember hhider
    refine ⟨nearest, List.mem_append_right _ List.mem_cons_self, entry.hiddenBy, ?_, hsame⟩
    rw [hcontributed]
    exact List.mem_append_right _ List.mem_cons_self
  · rintro ⟨nearer, hnearer, other, hother, hsame⟩
    obtain ⟨hiddenBy, hhider⟩ := exists_hider? hfront hlevel hmember hnearer hother hsame
    exact List.mem_map.mpr ⟨⟨member, hiddenBy⟩,
      (mem_hidden_merged [] levels _).mpr ⟨front, level, back, hsplit, hmember, hhider⟩, rfl⟩

/-- What hides a member is the nearest one with its signature. -/
theorem nearestSame_of_mem_hidden (hsignatures : ∀ level ∈ levels, catalog.HasSignatures level)
    {entry : HiddenMember} (hentry : entry ∈ (catalog.merged [] levels).hidden) :
    ∃ front level back, levels = front ++ level :: back ∧
      entry.hidden ∈ catalog.contributed level ∧
        catalog.NearestSame front level entry.hidden entry.hiddenBy := by
  obtain ⟨front, level, back, hsplit, hmember, hhider⟩ :=
    (mem_hidden_merged [] levels entry).mp hentry
  refine ⟨front, level, back, hsplit, hmember, nearestSame_of_hider? ?_ ?_ hmember hhider⟩
  · intro nearer hnearer
    exact hsignatures nearer (by rw [hsplit]; exact List.mem_append_left _ hnearer)
  · exact hsignatures level (by rw [hsplit]; simp)

/-- What hides a member is not hidden: else a member nearer still would have the signature. -/
theorem ChainOf.hiddenBy_mem_visible (hloaded : catalog.Loaded) (h : catalog.ChainOf id levels)
    (hsignatures : ∀ level ∈ levels, catalog.HasSignatures level) {entry : HiddenMember}
    (hentry : entry ∈ (catalog.merged [] levels).hidden) :
    entry.hiddenBy ∈ (catalog.merged [] levels).visible := by
  obtain ⟨front, level, back, hsplit, -, before, nearest, after, rfl, hbefore, earlier, later,
    hcontributed, hsame, -⟩ := nearestSame_of_mem_hidden hsignatures hentry
  rw [List.append_assoc, List.cons_append] at hsplit
  have hnearest : entry.hiddenBy ∈ catalog.contributed nearest := by
    rw [hcontributed]
    exact List.mem_append_right _ List.mem_cons_self
  have hlevels : nearest ∈ levels := by
    rw [hsplit]
    exact List.mem_append_right _ List.mem_cons_self
  have hmem := (merged_perm [] levels).symm.subset (List.mem_flatMap.mpr ⟨nearest, hlevels, hnearest⟩)
  rcases List.mem_append.mp hmem with hvisible | hhidden
  · exact hvisible
  · rw [h.mem_hidden_iff hloaded hsignatures hsplit hnearest] at hhidden
    obtain ⟨nearer, hnearer, other, hother, hsameOther⟩ := hhidden
    exact absurd (hsame.trans hsameOther) (hbefore nearer hnearer other hother)

theorem ChainOf.nearestWins (hloaded : catalog.Loaded) (h : catalog.ChainOf id levels)
    (hsignatures : ∀ level ∈ levels, catalog.HasSignatures level) :
    catalog.NearestWins levels (catalog.merged [] levels) where
  contributed_first := h.contributed_first
  contributed_base := h.contributed_base hloaded
  perm := merged_perm [] levels
  nodup := h.contributed_nodup hloaded
  visible_order := merged_visible_sublist [] levels
  hidden_order := merged_hidden_sublist [] levels
  hidden_iff _ _ _ hsplit _ hmember := h.mem_hidden_iff hloaded hsignatures hsplit hmember
  hidden_by _ hentry := nearestSame_of_mem_hidden hsignatures hentry
  hidden_by_visible _ hentry := h.hiddenBy_mem_visible hloaded hsignatures hentry

end Hidden

/-- In a catalog that is read from a text, the members of a type and of its bases always merge, and
they merge so that nearer ones win; for what is no type of the catalog there is no merge. -/
theorem mergedMembers_nearestWins {document : Text} (h : ofText document = .ok catalog)
    (hbounded : catalog.ListsBounded) (id : TypeId) :
    (id.index < catalog.types.length → catalog.ChainOf id (catalog.levels id) ∧
      (∀ level ∈ catalog.levels id, catalog.LevelInScope id level ∧ catalog.HasSignatures level) ∧
      ∃ set, catalog.mergedMembers id = .ok set ∧ catalog.NearestWins (catalog.levels id) set) ∧
    (catalog.types.length ≤ id.index →
      catalog.mergedMembers id = .error (.unknownType s!"#{id.index}")) := by
  have hloaded := ofText_loaded h
  constructor
  · intro hindex
    have htype : catalog.typeDef? id = some catalog.types[id.index] :=
      List.getElem?_eq_getElem hindex
    have hchain := levels_chainOf hloaded (arity?_eq_some htype)
    have hscope := hchain.levelInScope hloaded
    have hsignatures : ∀ level ∈ catalog.levels id, catalog.HasSignatures level :=
      fun level hlevel member hmember => encodeSignature_ok hloaded hbounded (hscope level hlevel)
        (mem_membersOf_of_contributed hmember)
    have hmerged : catalog.mergeLevels [] (catalog.levels id) =
        .ok (catalog.merged [] (catalog.levels id)) := mergeLevels_eq (fun _ => rfl) hsignatures
    refine ⟨hchain, fun level hlevel => ⟨hscope level hlevel, hsignatures level hlevel⟩, _, ?_,
      hchain.nearestWins hloaded hsignatures⟩
    rw [mergedMembers, htype]
    simp only [hmerged]
  · intro hindex
    have htype : catalog.typeDef? id = none := List.getElem?_eq_none hindex
    rw [mergedMembers, htype]

/-- A type, and another one whose base closes it. -/
def overriding : Catalog :=
  ⟨[⟨['A', tick, '1'], [['T']], none, [⟨0⟩]⟩,
      ⟨['B'], [], some (.generic ⟨0⟩ [.named ⟨1⟩]), [⟨1⟩]⟩],
    [⟨⟨0⟩, [], .method, ['M'], [.param ⟨.type ⟨0⟩, 0⟩], none⟩,
      ⟨⟨1⟩, [], .method, ['M'], [.named ⟨1⟩], none⟩]⟩

theorem ofText_overriding :
    ofText (("[[types]]\nname='A`1'\ngeneric_params=['T']\n" ++
      "[[types.members]]\nname='M'\nkind='method'\nparameters=['`0']\n" ++
      "[[types]]\nname='B'\nbase='A\x7bB\x7d'\n" ++
      "[[types.members]]\nname='M'\nkind='method'\nparameters=['B']\n").toList) =
        .ok overriding :=
  eq_ok_of_toOption (by decide +kernel)

/-- The method of the base is hidden, since its parameter is the derived type as seen from there. -/
theorem mergedMembers_nearestWins_overriding :
    overriding.mergedMembers ⟨1⟩ = .ok ⟨[⟨1⟩], [⟨⟨0⟩, ⟨1⟩⟩]⟩ ∧
      overriding.NearestWins (overriding.levels ⟨1⟩) ⟨[⟨1⟩], [⟨⟨0⟩, ⟨1⟩⟩]⟩ := by
  have hbounded : overriding.ListsBounded := ⟨by decide +kernel, by decide +kernel⟩
  have hindex : (⟨1⟩ : TypeId).index < overriding.types.length := by decide +kernel
  have hset : overriding.mergedMembers ⟨1⟩ = .ok ⟨[⟨1⟩], [⟨⟨0⟩, ⟨1⟩⟩]⟩ :=
    eq_ok_of_toOption (by decide +kernel)
  obtain ⟨-, -, set, hmerged, hwins⟩ :=
    (mergedMembers_nearestWins ofText_overriding hbounded ⟨1⟩).1 hindex
  rw [hset] at hmerged
  cases hmerged
  exact ⟨hset, hwins⟩

end

end DocRef.Catalog
