import DocRef.Proofs.Renumbering.Inheritance
import DocRef.Proofs.Renumbering.Permuting
import DocRef.Proofs.Text.ByteOrder

/-!
The order in which types are listed does not matter. It decides their numbers and nothing that can be
seen from outside: whether the listing is a catalog, what its sorted IDs are, what each reference
text means, and which members each type has, visible and hidden (`ofListing_perm`).
-/

namespace DocRef

/-! ### Lists of results -/

section Results

variable {α β ε : Type}

theorem mapM_eq_ok_iff {f : α → Except ε β} {items : List α} {results : List β} :
    items.mapM f = .ok results ↔ items.map f = results.map .ok := by
  induction items generalizing results with
  | nil =>
    rw [List.mapM_nil, pure_eq_ok, List.map_nil, eq_comm, eq_comm (a := []), List.map_eq_nil_iff]
  | cons item items ih =>
    simp only [List.mapM_cons, bind_eq_ok, pure_eq_ok, ih, List.map_cons]
    constructor
    · rintro ⟨head, hhead, tail, htail, rfl⟩
      rw [hhead, htail, List.map_cons]
    · intro h
      obtain ⟨head, tail, rfl, hhead, htail⟩ := List.map_eq_cons_iff.mp h.symm
      exact ⟨head, hhead.symm, tail, htail.symm, rfl⟩

/-- The same results come in another order if they are asked for in another order. -/
theorem exists_mapM_perm {f : α → Except ε β} {items others : List α} (h : items.Perm others)
    {results : List β} (hresults : items.mapM f = .ok results) :
    ∃ permuted, others.mapM f = .ok permuted ∧ permuted.Perm results := by
  have hmap : (others.map f).Perm (results.map .ok) := by
    rw [← mapM_eq_ok_iff.mp hresults]
    exact (h.map f).symm
  have hall : ∀ other ∈ others, ∃ result, f other = .ok result := by
    intro other hother
    obtain ⟨result, -, hresult⟩ := List.mem_map.mp (hmap.mem_iff.mp (List.mem_map_of_mem hother))
    exact ⟨result, hresult.symm⟩
  obtain ⟨permuted, hpermuted⟩ := Catalog.exists_map_ok hall
  rw [hpermuted, List.map_perm_map_iff fun _ _ => Except.ok.inj] at hmap
  exact ⟨permuted, mapM_eq_ok_iff.mpr hpermuted, hmap⟩

theorem mapM_map_congr {γ : Type} {f : α → Except ε β} {g : γ → Except ε β} {k : α → γ}
    {items : List α} (h : ∀ item ∈ items, g (k item) = f item) :
    (items.map k).mapM g = items.mapM f := by
  induction items with
  | nil => rfl
  | cons item items ih =>
    obtain ⟨hitem, hitems⟩ := List.forall_mem_cons.mp h
    rw [List.map_cons, List.mapM_cons, List.mapM_cons, hitem, ih hitems]

end Results

/-- Whether all members of a set have a property. -/
def MemberSet.All (set : MemberSet) (p : MemberId → Prop) : Prop :=
  (∀ id ∈ set.visible, p id) ∧ ∀ entry ∈ set.hidden, p entry.hidden ∧ p entry.hiddenBy

namespace Catalog

/-! ### What can be seen of a catalog -/

/-- The ID of a hidden member and of the one that hides it. -/
def hiddenIds (catalog : Catalog) (entry : HiddenMember) : Except Failure (Text × Text) := do
  let hidden ← catalog.memberId entry.hidden
  let hiddenBy ← catalog.memberId entry.hiddenBy
  return (hidden, hiddenBy)

/-- The IDs of the members that a type has or inherits: of the visible ones, and of each hidden one
together with the one that hides it. -/
def mergedIds (catalog : Catalog) (id : TypeId) :
    Except Failure (List Text × List (Text × Text)) := do
  let set ← catalog.mergedMembers id
  let visible ← set.visible.mapM catalog.memberId
  let hidden ← set.hidden.mapM catalog.hiddenIds
  return (visible, hidden)

/-- Whether two catalogs look the same from outside. -/
structure LooksLike (catalog other : Catalog) : Prop where
  /-- The same IDs are listed, in the same order. -/
  sortedIds : ∀ ids, catalog.sortedIds = .ok ids ↔ other.sortedIds = .ok ids
  /-- There are such IDs, unless lists of parameters are too long for markers. -/
  listed : catalog.ListsBounded →
    ∃ ids, catalog.sortedIds = .ok ids ∧ other.sortedIds = .ok ids
  /-- Every text has the same ID, or is no reference or means nothing for the same cause. -/
  idOf : ∀ text, catalog.idOf text = other.idOf text
  /-- A type of any name is in both or in none, and has the same members. -/
  mergedIds : ∀ name, (catalog.typeNamed? name).map catalog.mergedIds =
    (other.typeNamed? name).map other.mergedIds

variable {ρ back : Renumbering} {catalog other : Catalog}

/-! ### IDs -/

theorem Embeds.typeIds_perm (h : catalog.Embeds ρ other) (hback : other.Embeds back catalog) :
    (catalog.typeIds.map ρ.type).Perm other.typeIds := by
  apply h.typeIds_subperm.perm_of_length_le
  have hlength := hback.typeIds_subperm.length_le
  rwa [List.length_map] at hlength ⊢

theorem Embeds.memberIds_perm (h : catalog.Embeds ρ other) (hback : other.Embeds back catalog) :
    (catalog.memberIds.map ρ.member).Perm other.memberIds := by
  apply h.memberIds_subperm.perm_of_length_le
  have hlength := hback.memberIds_subperm.length_le
  rwa [List.length_map] at hlength ⊢

theorem Embeds.sortedIds (h : catalog.Embeds ρ other) (hback : other.Embeds back catalog)
    (hloaded : catalog.Loaded) {ids : List Text} (hids : catalog.sortedIds = .ok ids) :
    other.sortedIds = .ok ids := by
  simp only [Catalog.sortedIds, bind_eq_ok, pure_eq_ok] at hids
  obtain ⟨types, htypes, members, hmembers, rfl⟩ := hids
  have htype : ∀ id ∈ catalog.typeIds, other.encodeType (ρ.type id) = catalog.encodeType id := by
    intro id hid
    obtain ⟨type, htype⟩ := mem_typeIds.mp hid
    exact h.encodeType (arity?_eq_some htype)
  have hmember : ∀ id ∈ catalog.memberIds,
      other.encodeMember (ρ.member id) = catalog.encodeMember id := by
    intro id hid
    obtain ⟨member, hmember⟩ := mem_memberIds.mp hid
    exact h.encodeMember hloaded hmember
  rw [← mapM_map_congr htype] at htypes
  rw [← mapM_map_congr hmember] at hmembers
  obtain ⟨otherTypes, hotherTypes, htypes⟩ := exists_mapM_perm (h.typeIds_perm hback) htypes
  obtain ⟨otherMembers, hotherMembers, hmembers⟩ := exists_mapM_perm (h.memberIds_perm hback) hmembers
  rw [Catalog.sortedIds, hotherTypes, hotherMembers]
  exact congrArg Except.ok (Text.mergeSort_eq_of_perm (htypes.append hmembers))

theorem Embeds.idOf (h : catalog.Embeds ρ other) (hback : other.Embeds back catalog)
    (hloaded : catalog.Loaded) (hother : other.Loaded) (text : Text) :
    other.idOf text = catalog.idOf text := by
  have hsymbol : ∀ reference : Reference,
      other.encodeSymbol (other.resolveReference reference) =
        catalog.encodeSymbol (catalog.resolveReference reference) := by
    intro reference
    rw [h.resolveReference_eq hback hloaded hother]
    exact h.encodeSymbol hloaded (resolveReference_holds reference)
  rw [Catalog.idOf, Catalog.idOf]
  simp only [hsymbol]

/-! ### Members -/

theorem map_snd_of_signatures {view : Substitution} {ids : List MemberId}
    {signed : List (Text × MemberId)} (h : catalog.signatures view ids = .ok signed) :
    signed.map (·.2) = ids := by
  induction ids generalizing signed with
  | nil =>
    cases h
    rfl
  | cons id ids ih =>
    simp only [signatures, bind_eq_ok, pure_eq_ok] at h
    obtain ⟨signature, -, rest, hrest, rfl⟩ := h
    rw [List.map_cons, ih hrest]

/-- What is merged are contributed members. -/
theorem all_of_mergeLevels {p : MemberId → Prop} {nearer : List (Text × MemberId)}
    {levels : List Level} {set : MemberSet} (hnearer : ∀ entry ∈ nearer, p entry.2)
    (hlevels : ∀ level ∈ levels, ∀ id ∈ catalog.contributed level, p id)
    (h : catalog.mergeLevels nearer levels = .ok set) : set.All p := by
  induction levels generalizing nearer set with
  | nil =>
    cases h
    exact ⟨nofun, nofun⟩
  | cons level levels ih =>
    obtain ⟨hlevel, hrest⟩ := List.forall_mem_cons.mp hlevels
    simp only [mergeLevels, bind_eq_ok, pure_eq_ok] at h
    obtain ⟨signed, hsigned, rest, hmerged, rfl⟩ := h
    have hentry : ∀ entry ∈ signed, p entry.2 := by
      intro entry hmem
      apply hlevel
      rw [← map_snd_of_signatures hsigned]
      exact List.mem_map_of_mem hmem
    obtain ⟨hvisible, hhidden⟩ := ih (List.forall_mem_append.mpr ⟨hnearer, fun entry hmem =>
      hentry entry (List.mem_of_mem_filter hmem)⟩) hrest hmerged
    refine ⟨List.forall_mem_append.mpr ⟨?_, hvisible⟩, List.forall_mem_append.mpr ⟨?_, hhidden⟩⟩
    · intro id hid
      obtain ⟨entry, hmem, rfl⟩ := List.mem_map.mp hid
      exact hentry entry (List.mem_of_mem_filter hmem)
    · intro entry hmem
      obtain ⟨⟨signature, id⟩, hsignedMem, hfound⟩ := List.mem_filterMap.mp hmem
      obtain ⟨hiddenBy, hlookup, rfl⟩ := Option.map_eq_some_iff.mp hfound
      obtain ⟨before, after, hsplit, -⟩ := List.lookup_eq_some_iff.mp hlookup
      refine ⟨hentry _ hsignedMem, hnearer (signature, hiddenBy) ?_⟩
      rw [hsplit]
      exact List.mem_append_right _ List.mem_cons_self

/-- The members of a set are there. -/
theorem all_of_mergedMembers (hloaded : catalog.Loaded) {id : TypeId} {set : MemberSet}
    (h : catalog.mergedMembers id = .ok set) :
    set.All fun id => ∃ member, catalog.memberDef? id = some member := by
  rw [mergedMembers] at h
  split at h
  · cases h
  · split at h
    · next hmerged =>
      cases h
      refine all_of_mergeLevels (List.forall_mem_nil _) (fun level _ id hid => ?_) hmerged
      exact hloaded.exists_memberDef? (mem_membersOf_of_contributed hid)
    · cases h

theorem Embeds.memberId (h : catalog.Embeds ρ other) (hloaded : catalog.Loaded) {id : MemberId}
    (hid : ∃ member, catalog.memberDef? id = some member) :
    other.memberId (ρ.member id) = catalog.memberId id := by
  obtain ⟨member, hmember⟩ := hid
  rw [Catalog.memberId, Catalog.memberId, h.encodeMember hloaded hmember]

theorem Embeds.mergedIds (h : catalog.Embeds ρ other) (hloaded : catalog.Loaded) {id : TypeId}
    {count : Nat} (harity : catalog.arity? id = some count) :
    other.mergedIds (ρ.type id) = catalog.mergedIds id := by
  rw [Catalog.mergedIds, Catalog.mergedIds, h.mergedMembers hloaded harity]
  cases hset : catalog.mergedMembers id with
  | error failure => rfl
  | ok set =>
    obtain ⟨hvisible, hhidden⟩ := all_of_mergedMembers hloaded hset
    have hvisibleIds : (set.visible.map ρ.member).mapM other.memberId =
        set.visible.mapM catalog.memberId :=
      mapM_map_congr fun id hid => h.memberId hloaded (hvisible id hid)
    have hhiddenIds : (set.hidden.map (HiddenMember.renumber ρ)).mapM other.hiddenIds =
        set.hidden.mapM catalog.hiddenIds := by
      refine mapM_map_congr fun entry hentry => ?_
      obtain ⟨hhidden, hhiddenBy⟩ := hhidden entry hentry
      rw [hiddenIds, hiddenIds, HiddenMember.renumber, h.memberId hloaded hhidden,
        h.memberId hloaded hhiddenBy]
    show (do
      let visible ← (set.visible.map ρ.member).mapM other.memberId
      let hidden ← (set.hidden.map (HiddenMember.renumber ρ)).mapM other.hiddenIds
      return (visible, hidden)) = _
    rw [hvisibleIds, hhiddenIds]
    rfl

/-! ### Listings -/

theorem Embeds.reads (h : catalog.Embeds ρ other) {typeCount methodCount : Nat} {text : Text}
    (hreads : catalog.Reads typeCount methodCount text) :
    other.Reads typeCount methodCount text := by
  obtain ⟨node, hparse, hbelow, bindings, type, htype⟩ := hreads
  exact ⟨node, hparse, hbelow, bindings.renumber ρ, type.renumber ρ, h.resolveType node htype⟩

theorem Embeds.leavesOpen (h : catalog.Embeds ρ other) {text : Text}
    (hopen : catalog.LeavesOpen text) : other.LeavesOpen text := by
  obtain ⟨node, definition, hparse, htype, harity⟩ := hopen
  obtain ⟨count, hcount⟩ := arity?_of_resolveType htype rfl
  refine ⟨node, ρ.type definition, hparse, h.resolveType node htype, ?_⟩
  rwa [h.genericArity hcount]

/-- What can be read against the names of a listing can be read against them in any order. -/
theorem Embeds.readsType (h : catalog.Embeds ρ other) (hback : other.Embeds back catalog)
    {type : ListedType} (hreads : catalog.ReadsType type) : other.ReadsType type where
  base text htext :=
    ⟨h.reads (hreads.base text htext).1, fun hopen => (hreads.base text htext).2 (hback.leavesOpen hopen)⟩
  signature member hmember text htext := h.reads (hreads.signature member hmember text htext)

section Listings

variable {listing permuted : Listing}

/-- A listing is a catalog if its names are distinct and state as many parameters as are listed, and
every type can be read against them. -/
theorem exists_ofListing_iff :
    (∃ catalog, ofListing listing = .ok catalog) ↔ (listing.map ListedType.fullName).Nodup ∧
      (∀ type ∈ listing, declaredArity type.fullName = type.genericParams.length) ∧
      ∀ type ∈ listing, listing.names.ReadsType type := by
  have hcomplete : (∃ catalog, listing.names.complete 0 0 listing = .ok catalog) ↔
      ∀ type ∈ listing, listing.names.ReadsType type := by
    apply complete_ok_iff
    intro place type hplace
    rw [Nat.zero_add]
    exact genericArity_names hplace
  rw [ofListing, exists_bind_ok]
  constructor
  · rintro ⟨names, hnames, hread⟩
    obtain ⟨rfl, hnodup, hdeclared⟩ := registerAll_eq_ok_iff.mp hnames
    exact ⟨hnodup, hdeclared, hcomplete.mp hread⟩
  · rintro ⟨hnodup, hdeclared, hread⟩
    exact ⟨listing.names, registerAll_eq_ok_iff.mpr ⟨rfl, hnodup, hdeclared⟩, hcomplete.mpr hread⟩

theorem exists_ofListing_of_perm (hperm : listing.Perm permuted)
    (h : ∃ catalog, ofListing listing = .ok catalog) :
    ∃ catalog, ofListing permuted = .ok catalog := by
  obtain ⟨hnodup, hdeclared, hread⟩ := exists_ofListing_iff.mp h
  have hother : (permuted.map ListedType.fullName).Nodup := (hperm.map _).nodup_iff.mp hnodup
  obtain ⟨ρ, hρ⟩ := Listing.exists_embeds_of_perm hperm
  obtain ⟨σ, hσ⟩ := Listing.exists_embeds_of_perm hperm.symm
  have hnames := embeds_names hρ hnodup hother
  have hback := embeds_names hσ hother hnodup
  refine exists_ofListing_iff.mpr ⟨hother, ?_, ?_⟩
  · exact fun type htype => hdeclared type (hperm.mem_iff.mpr htype)
  · exact fun type htype => hnames.readsType hback (hread type (hperm.mem_iff.mpr htype))

/-- Catalogs that are found in each other look the same. -/
theorem Embeds.looksLike (h : catalog.Embeds ρ other) (hback : other.Embeds back catalog)
    (hloaded : catalog.Loaded) (hother : other.Loaded) : catalog.LooksLike other where
  sortedIds ids := ⟨h.sortedIds hback hloaded, hback.sortedIds h hother⟩
  listed hbounded := by
    obtain ⟨ids, hids⟩ := (hloaded.encodes hbounded).sortedIds
    exact ⟨ids, hids, h.sortedIds hback hloaded hids⟩
  idOf text := (h.idOf hback hloaded hother text).symm
  mergedIds name := by
    cases hname : catalog.typeNamed? name with
    | some id =>
      obtain ⟨type, htype, -⟩ := typeDef?_of_typeNamed? hname
      rw [h.typeNamed? hname, Option.map_some, Option.map_some,
        h.mergedIds hloaded (arity?_eq_some htype)]
    | none =>
      cases hfound : other.typeNamed? name with
      | none => rfl
      | some id =>
        have hid := hback.typeNamed? hfound
        rw [hname] at hid
        cases hid

/-- A listing is a catalog in any order of its types or in none, and the catalogs that it is look the
same. -/
theorem ofListing_perm (hperm : listing.Perm permuted) :
    ((∃ catalog, ofListing listing = .ok catalog) ↔ ∃ other, ofListing permuted = .ok other) ∧
      ∀ catalog other, ofListing listing = .ok catalog → ofListing permuted = .ok other →
        catalog.LooksLike other := by
  refine ⟨⟨exists_ofListing_of_perm hperm, exists_ofListing_of_perm hperm.symm⟩, ?_⟩
  intro catalog other hcatalog hother
  obtain ⟨ρ, hρ⟩ := Listing.exists_embeds_of_perm hperm
  obtain ⟨σ, hσ⟩ := Listing.exists_embeds_of_perm hperm.symm
  have h := embeds_of_ofListing hρ hcatalog hother
  have hback := embeds_of_ofListing hσ hother hcatalog
  exact h.looksLike hback (ofListing_loaded hcatalog) (ofListing_loaded hother)

end Listings

/-- A generic type with two overloads, and before it a type derived from it that hides one of them. -/
def derivedFirst : Listing :=
  [⟨some "A\x7bB\x7d".toList, [], [⟨[], .method, ['F'], [['B']], none⟩], ['B']⟩,
    ⟨none, [['T']], [⟨[], .method, ['F'], [], none⟩, ⟨[], .method, ['F'], ["`0".toList], none⟩],
      "A`1".toList⟩]

def derivedAhead : Catalog :=
  ⟨[⟨['B'], [], some (.generic ⟨1⟩ [.named ⟨0⟩]), [⟨0⟩]⟩,
    ⟨"A`1".toList, [['T']], none, [⟨1⟩, ⟨2⟩]⟩],
    [⟨⟨0⟩, [], .method, ['F'], [.named ⟨0⟩], none⟩, ⟨⟨1⟩, [], .method, ['F'], [], none⟩,
      ⟨⟨1⟩, [], .method, ['F'], [.param ⟨.type ⟨1⟩, 0⟩], none⟩]⟩

def derivedBehind : Catalog :=
  ⟨[⟨"A`1".toList, [['T']], none, [⟨0⟩, ⟨1⟩]⟩,
    ⟨['B'], [], some (.generic ⟨0⟩ [.named ⟨1⟩]), [⟨2⟩]⟩],
    [⟨⟨0⟩, [], .method, ['F'], [], none⟩,
      ⟨⟨0⟩, [], .method, ['F'], [.param ⟨.type ⟨0⟩, 0⟩], none⟩,
      ⟨⟨1⟩, [], .method, ['F'], [.named ⟨1⟩], none⟩]⟩

/-- The derived type may as well be listed last: its number changes, and what it hides does not. -/
theorem derivedFirst_perm : ofListing derivedFirst = .ok derivedAhead ∧
    ofListing derivedFirst.reverse = .ok derivedBehind ∧ derivedAhead.LooksLike derivedBehind ∧
      derivedBehind.mergedIds ⟨1⟩ = .ok (["M:B.F(B)".toList, "M:A`1.F".toList],
        [("M:A`1.F(`0)".toList, "M:B.F(B)".toList)]) := by
  have hahead : ofListing derivedFirst = .ok derivedAhead := eq_ok_of_toOption (by decide +kernel)
  have hbehind : ofListing derivedFirst.reverse = .ok derivedBehind :=
    eq_ok_of_toOption (by decide +kernel)
  have hlooks := (ofListing_perm (List.reverse_perm derivedFirst).symm).2 _ _ hahead hbehind
  refine ⟨hahead, hbehind, hlooks, ?_⟩
  -- What the type hides is computed in the order in which it has the number 0.
  have hmerged := hlooks.mergedIds ['B']
  have hfirst : derivedAhead.typeNamed? ['B'] = some ⟨0⟩ := by decide +kernel
  have hlast : derivedBehind.typeNamed? ['B'] = some ⟨1⟩ := by decide +kernel
  rw [hfirst, hlast, Option.map_some, Option.map_some, Option.some.injEq] at hmerged
  rw [← hmerged]
  exact eq_ok_of_toOption (by decide +kernel)

end Catalog

end DocRef
