import DocRef.Proofs.Inheritance.Levels

/-!
The members of a type and of its bases, merged. The merge remembers only the signatures of visible
members, but that loses nothing (`mergeLevels_eq`): a hidden member has the signature of a visible one
that is nearer still, which comes first in a search along the chain. What is merged is therefore told
by such searches alone (`merged`).
-/

namespace DocRef.Catalog

/-- The signature of a member as a view sees it, or nothing if it has none. -/
def signatureText (catalog : Catalog) (view : Substitution) (id : MemberId) : Text :=
  (catalog.encodeSignature id view).toOption.getD []

/-- The members that a level contributes, by their signatures. -/
def signed (catalog : Catalog) (level : Level) : List (Text × MemberId) :=
  (catalog.contributed level).map fun id => (catalog.signatureText level.view id, id)

/-- The first member on nearer levels that has the signature of a member of a given level. -/
def hider? (catalog : Catalog) (nearer : List Level) (level : Level) (id : MemberId) :
    Option MemberId :=
  (nearer.flatMap catalog.signed).lookup (catalog.signatureText level.view id)

/-- What levels merge to after nearer ones. -/
def merged (catalog : Catalog) (nearer : List Level) : List Level → MemberSet
  | [] => ⟨[], []⟩
  | level :: levels =>
    ⟨(catalog.contributed level).filter (fun id => (catalog.hider? nearer level id).isNone) ++
        (catalog.merged (nearer ++ [level]) levels).visible,
      (catalog.contributed level).filterMap (fun id =>
        (catalog.hider? nearer level id).map fun hiddenBy => ⟨id, hiddenBy⟩) ++
        (catalog.merged (nearer ++ [level]) levels).hidden⟩

/-- Whether all members that a level contributes have signatures. -/
def HasSignatures (catalog : Catalog) (level : Level) : Prop :=
  ∀ id ∈ catalog.contributed level, ∃ signature, catalog.encodeSignature id level.view = .ok signature

section Merge

variable {catalog : Catalog} {level : Level}

theorem encodeSignature_eq {view : Substitution} {id : MemberId}
    (h : ∃ signature, catalog.encodeSignature id view = .ok signature) :
    catalog.encodeSignature id view = .ok (catalog.signatureText view id) := by
  obtain ⟨signature, hsignature⟩ := h
  rw [signatureText, hsignature]
  rfl

theorem signatures_eq {view : Substitution} {ids : List MemberId}
    (h : ∀ id ∈ ids, ∃ signature, catalog.encodeSignature id view = .ok signature) :
    catalog.signatures view ids = .ok (ids.map fun id => (catalog.signatureText view id, id)) := by
  induction ids with
  | nil => rfl
  | cons id ids ih =>
    rw [signatures, encodeSignature_eq (h id List.mem_cons_self),
      ih fun other hother => h other (List.mem_cons_of_mem _ hother)]
    rfl

/-- Leaving out what is found in a list anyway changes no search that begins in that list. -/
theorem lookup_append_shown (nearer entries : List (Text × MemberId)) (signature : Text) :
    (nearer ++ entries.filter fun entry => (nearer.lookup entry.1).isNone).lookup signature =
      (nearer ++ entries).lookup signature := by
  rw [List.lookup_append, List.lookup_append]
  cases hnearer : nearer.lookup signature with
  | some id => rfl
  | none =>
    rw [Option.none_or, Option.none_or]
    induction entries with
    | nil => rfl
    | cons entry entries ih =>
      obtain ⟨other, id⟩ := entry
      by_cases hother : signature = other
      · rw [hother] at hnearer ⊢
        rw [List.filter_cons_of_pos (by rw [hnearer]; rfl), List.lookup_cons_self,
          List.lookup_cons_self]
      · have hskip : ∀ rest : List (Text × MemberId),
            ((other, id) :: rest).lookup signature = rest.lookup signature := by
          intro rest
          rw [List.lookup_cons, beq_false_of_ne hother]
        rw [hskip, ← ih, List.filter_cons]
        split
        · rw [hskip]
        · rfl

/-- The merge is told by searches along the chain. -/
theorem mergeLevels_eq {nearer : List Level} {remembered : List (Text × MemberId)}
    {levels : List Level}
    (hremembered : ∀ signature, remembered.lookup signature =
      (nearer.flatMap catalog.signed).lookup signature)
    (h : ∀ level ∈ levels, catalog.HasSignatures level) :
    catalog.mergeLevels remembered levels = .ok (catalog.merged nearer levels) := by
  induction levels generalizing nearer remembered with
  | nil => rfl
  | cons level levels ih =>
    have hsigned := signatures_eq (h level List.mem_cons_self)
    have hnext : ∀ signature, (remembered ++ (catalog.signed level).filter fun entry =>
        (remembered.lookup entry.1).isNone).lookup signature =
          ((nearer ++ [level]).flatMap catalog.signed).lookup signature := by
      intro signature
      rw [lookup_append_shown, List.lookup_append, hremembered, List.flatMap_append,
        List.lookup_append, List.flatMap_cons, List.flatMap_nil, List.append_nil]
    have hrest := ih hnext fun level hlevel => h level (List.mem_cons_of_mem _ hlevel)
    have hhider : ∀ id, remembered.lookup (catalog.signatureText level.view id) =
        catalog.hider? nearer level id := fun id => hremembered _
    rw [mergeLevels, hsigned]
    show (catalog.mergeLevels (remembered ++ (catalog.signed level).filter fun entry =>
      (remembered.lookup entry.1).isNone) levels >>= fun rest => pure _) = _
    rw [hrest, merged]
    simp only [List.filter_map, List.filterMap_map, List.map_map, Function.comp_def, hhider,
      List.map_id']
    rfl

/-! ### What is merged -/

theorem mem_membersOf_of_contributed {id : MemberId} (h : id ∈ catalog.contributed level) :
    id ∈ catalog.membersOf level.type :=
  (List.mem_filter.mp h).1

theorem merged_visible_sublist (nearer levels : List Level) :
    (catalog.merged nearer levels).visible.Sublist (levels.flatMap catalog.contributed) := by
  induction levels generalizing nearer with
  | nil => exact List.Sublist.slnil
  | cons level levels ih =>
    rw [merged, List.flatMap_cons]
    exact List.filter_sublist.append (ih _)

theorem map_hidden_filterMap (ids : List MemberId) (hider : MemberId → Option MemberId) :
    (ids.filterMap fun id => (hider id).map fun hiddenBy => HiddenMember.mk id hiddenBy).map
      HiddenMember.hidden = ids.filter fun id => (hider id).isSome := by
  induction ids with
  | nil => rfl
  | cons id ids ih =>
    cases hid : hider id with
    | none =>
      rw [List.filterMap_cons_none (by rw [hid]; rfl), List.filter_cons_of_neg (by simp [hid]), ih]
    | some other =>
      rw [List.filterMap_cons_some (by rw [hid]; rfl), List.filter_cons_of_pos (by simp [hid]),
        List.map_cons, ih]

theorem merged_hidden_sublist (nearer levels : List Level) :
    ((catalog.merged nearer levels).hidden.map HiddenMember.hidden).Sublist
      (levels.flatMap catalog.contributed) := by
  induction levels generalizing nearer with
  | nil => exact List.Sublist.slnil
  | cons level levels ih =>
    rw [merged, List.flatMap_cons, List.map_append, map_hidden_filterMap]
    exact List.filter_sublist.append (ih _)

/-- Every contributed member is visible or hidden. -/
theorem merged_perm (nearer levels : List Level) :
    ((catalog.merged nearer levels).visible ++
      (catalog.merged nearer levels).hidden.map HiddenMember.hidden).Perm
      (levels.flatMap catalog.contributed) := by
  induction levels generalizing nearer with
  | nil => exact List.Perm.refl _
  | cons level levels ih =>
    rw [merged, List.flatMap_cons, List.map_append, map_hidden_filterMap]
    have hlevel := List.filter_append_perm (fun id => (catalog.hider? nearer level id).isNone)
      (catalog.contributed level)
    simp only [Option.not_isNone] at hlevel
    refine List.Perm.trans ?_ (hlevel.append (ih (nearer ++ [level])))
    rw [List.append_assoc, List.append_assoc]
    refine List.Perm.append_left _ ?_
    rw [← List.append_assoc, ← List.append_assoc]
    exact List.Perm.append_right _ List.perm_append_comm

theorem mem_hidden_merged (nearer levels : List Level) (entry : HiddenMember) :
    entry ∈ (catalog.merged nearer levels).hidden ↔ ∃ front level back,
      levels = front ++ level :: back ∧ entry.hidden ∈ catalog.contributed level ∧
        catalog.hider? (nearer ++ front) level entry.hidden = some entry.hiddenBy := by
  induction levels generalizing nearer with
  | nil => simp [merged]
  | cons level levels ih =>
    rw [merged, List.mem_append, ih, List.mem_filterMap]
    constructor
    · rintro (⟨id, hid, hentry⟩ | ⟨front, later, back, rfl, hmem, hhider⟩)
      · obtain ⟨hiddenBy, hhider, rfl⟩ := Option.map_eq_some_iff.mp hentry
        exact ⟨[], level, levels, rfl, hid, by rwa [List.append_nil]⟩
      · refine ⟨level :: front, later, back, rfl, hmem, ?_⟩
        rwa [List.append_assoc, List.singleton_append] at hhider
    · rintro ⟨front, later, back, heq, hmem, hhider⟩
      cases front with
      | nil =>
        cases heq
        rw [List.append_nil] at hhider
        exact .inl ⟨entry.hidden, hmem, by rw [hhider]; rfl⟩
      | cons first front =>
        cases heq
        refine .inr ⟨front, later, back, rfl, hmem, ?_⟩
        rwa [List.append_assoc, List.singleton_append]

/-- A search along the chain finds the first member with the signature on the nearest level that has
one. -/
theorem exists_nearest_of_hider? {nearer : List Level} {id other : MemberId}
    (h : catalog.hider? nearer level id = some other) :
    ∃ front nearest back, nearer = front ++ nearest :: back ∧
      (∀ between ∈ front, ∀ member ∈ catalog.contributed between,
        catalog.signatureText between.view member ≠ catalog.signatureText level.view id) ∧
      ∃ earlier later, catalog.contributed nearest = earlier ++ other :: later ∧
        catalog.signatureText nearest.view other = catalog.signatureText level.view id ∧
        ∀ member ∈ earlier,
          catalog.signatureText nearest.view member ≠ catalog.signatureText level.view id := by
  induction nearer with
  | nil => cases h
  | cons nearest nearer ih =>
    rw [hider?, List.flatMap_cons, List.lookup_append] at h
    cases hfound : (catalog.signed nearest).lookup (catalog.signatureText level.view id) with
    | none =>
      rw [hfound, Option.none_or] at h
      obtain ⟨front, found, back, rfl, hfront, hfirst⟩ := ih h
      refine ⟨nearest :: front, found, back, rfl, ?_, hfirst⟩
      intro between hbetween member hmember
      rcases List.mem_cons.mp hbetween with rfl | hbetween
      · have hnone := List.lookup_eq_none_iff.mp hfound _ (List.mem_map_of_mem hmember)
        exact fun heq => absurd heq.symm (bne_iff_ne.mp hnone)
      · exact hfront between hbetween member hmember
    | some found =>
      rw [hfound, Option.some_or] at h
      cases h
      obtain ⟨before, after, hsplit, hbefore⟩ := List.lookup_eq_some_iff.mp hfound
      obtain ⟨earlier, rest, hcontributed, rfl, hrest⟩ := List.map_eq_append_iff.mp hsplit
      obtain ⟨first, later, rfl, hfirst, -⟩ := List.map_eq_cons_iff.mp hrest
      obtain ⟨hsignature, rfl⟩ := Prod.mk.inj hfirst
      refine ⟨[], nearest, nearer, rfl, by simp, earlier, later, hcontributed, hsignature, ?_⟩
      intro member hmember
      have hne := hbefore _ (List.mem_map_of_mem hmember)
      exact fun heq => absurd heq.symm (bne_iff_ne.mp hne)

end Merge

end DocRef.Catalog
