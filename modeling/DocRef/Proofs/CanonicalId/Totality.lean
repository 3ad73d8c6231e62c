import DocRef.Command
import DocRef.Proofs.CanonicalId.RoundTrip

/-!
Nothing in a catalog that a document describes is without an ID (`Loaded.encodes`). A reference means
a member that is there or a type in scope, whatever its tree (`resolveReference_holds`), and what is
in scope has a text. So no command that writes IDs fails over its catalog (`encode_total`).
-/

namespace DocRef

namespace Catalog

/-! ### What references mean is there -/

/-- Whether a symbol stands for something in a catalog: a member that is there, or a type in scope
where no parameters are. -/
def Holds (catalog : Catalog) : Symbol → Prop
  | .member id => ∃ member, catalog.memberDef? id = some member
  | .type type => type.WellScoped catalog.arity? fun _ => False
  | .unresolved => True

section Symbols

variable {catalog : Catalog}

theorem memberSymbol_holds {found : Option MemberId}
    (h : ∀ id ∈ found, ∃ member, catalog.memberDef? id = some member) :
    catalog.Holds (memberSymbol found) := by
  cases found with
  | none => trivial
  | some id => exact h id rfl

theorem resolveMember_holds (bindings : Bindings) (scope : Node)
    (text : Text) (kind : Option SymbolKind) :
    catalog.Holds (memberSymbol (catalog.resolveMember bindings scope text kind)) := by
  apply memberSymbol_holds
  intro id h
  simp only [resolveMember, Option.bind_eq_bind, Option.mem_def, Option.bind_eq_some_iff] at h
  obtain ⟨declaring, -, definition, -, honly⟩ := h
  exact memberDef?_of_mem_candidates (mem_of_only? honly)

theorem resolveMethod_holds (bindings : Bindings) (member : Node)
    (parameters : List Node) (returns : Option Node) (kind : Option SymbolKind) :
    catalog.Holds
      (memberSymbol (catalog.resolveMethod bindings member parameters returns kind)) := by
  apply memberSymbol_holds
  intro id h
  obtain ⟨_, _, _, _, _, _, _, hcandidate, _⟩ := exists_of_resolveMethod h
  exact memberDef?_of_mem_candidates hcandidate

/-- Without bindings, parameters mean nothing. -/
theorem resolveType_holds {node : Node} {type : TypeExpr}
    (h : catalog.resolveType .none node = some type) : catalog.Holds (.type type) := by
  have hnone : catalog.BindingsInScope (fun _ => False) .none :=
    fun type htype => absurd htype List.not_mem_nil
  exact resolveType_wellScoped hnone node h

theorem resolve_holds (node : Node) :
    catalog.Holds (catalog.resolve .none node) := by
  unfold resolve
  split
  · exact resolveMethod_holds _ _ _ _ _
  · split
    · next htype => exact resolveType_holds htype
    · exact resolveMember_holds _ _ _ _
    · trivial

/-- What a reference means is in the catalog, whatever its tree. -/
theorem resolveReference_holds (reference : Reference) :
    catalog.Holds (catalog.resolveReference reference) := by
  rw [resolveReference]
  split
  · exact resolve_holds _
  · cases htype : catalog.resolveType .none reference.node with
    | none => trivial
    | some type => exact resolveType_holds htype
  · exact resolveMethod_holds _ _ _ _ _
  · exact resolveMember_holds _ _ _ _
  · trivial

end Symbols

/-! ### What is there has an ID -/

/-- Whether everything in a catalog has an ID, and a reference has one exactly if it means something. -/
structure Encodes (catalog : Catalog) : Prop where
  type : ∀ id : TypeId, id.index < catalog.types.length → ∃ text, catalog.encodeType id = .ok text
  member : ∀ id : MemberId, id.index < catalog.members.length →
    ∃ text, catalog.encodeMember id = .ok text
  reference : ∀ reference : Reference, ∃ found,
    catalog.encodeSymbol (catalog.resolveReference reference) = .ok found ∧
      (found = none ↔ catalog.resolveReference reference = .unresolved)

section Encoding

variable {catalog : Catalog}

theorem encodeMember_ok (hloaded : catalog.Loaded) (hbounded : catalog.ListsBounded) {id : MemberId}
    {member : MemberDef} (hmember : catalog.memberDef? id = some member) :
    ∃ text, catalog.encodeMember id = .ok text := by
  obtain ⟨declaring, hdeclaring⟩ := typeDef?_declaringType hloaded hmember
  obtain ⟨text, htext⟩ := memberText_ok hloaded hbounded hmember fun param howns =>
    ⟨param.positional, ownParam_positional howns⟩
  exact ⟨_, encodeMember_of_memberText hmember hdeclaring htext⟩

theorem encodeSymbol_ok (hloaded : catalog.Loaded) (hbounded : catalog.ListsBounded) {symbol : Symbol}
    (h : catalog.Holds symbol) :
    ∃ found, catalog.encodeSymbol symbol = .ok found ∧ (found = none ↔ symbol = .unresolved) := by
  cases symbol with
  | member id =>
    obtain ⟨member, hmember⟩ := h
    obtain ⟨text, htext⟩ := encodeMember_ok hloaded hbounded hmember
    refine ⟨some text, ?_, nofun, nofun⟩
    rw [encodeSymbol, htext]
    rfl
  | type type =>
    obtain ⟨text, htext⟩ : ∃ text, catalog.typeText (ownParam []) type = .ok text :=
      typeText_ok hloaded hbounded (fun _ => False.elim) h
    refine ⟨some (SymbolKind.type.letter :: ':' :: text), ?_, nofun, nofun⟩
    rw [encodeSymbol, htext]
  | unresolved => exact ⟨none, rfl, fun _ => rfl, fun _ => rfl⟩

/-- Everything has an ID in a catalog that a listing describes. -/
theorem Loaded.encodes (hloaded : catalog.Loaded) (hbounded : catalog.ListsBounded) :
    catalog.Encodes where
  type id hid := by
    have htype : catalog.typeDef? id = some catalog.types[id.index] := List.getElem?_eq_getElem hid
    exact ⟨_, by rw [encodeType, typeName_eq htype]⟩
  member _ hid := encodeMember_ok hloaded hbounded (List.getElem?_eq_getElem hid)
  reference reference := encodeSymbol_ok hloaded hbounded (resolveReference_holds reference)

theorem exists_mapM_ok {α ε β : Type} {f : α → Except ε β} {items : List α}
    (h : ∀ item ∈ items, ∃ result, f item = .ok result) : ∃ results, items.mapM f = .ok results := by
  induction items with
  | nil => exact ⟨[], rfl⟩
  | cons item items ih =>
    obtain ⟨result, hresult⟩ := h item List.mem_cons_self
    obtain ⟨results, hresults⟩ := ih fun other hother => h other (List.mem_cons_of_mem _ hother)
    refine ⟨result :: results, ?_⟩
    rw [List.mapM_cons, hresult, hresults]
    rfl

theorem Encodes.sortedIds (h : catalog.Encodes) : ∃ ids, catalog.sortedIds = .ok ids := by
  have htypes : ∀ id ∈ catalog.typeIds, ∃ text, catalog.encodeType id = .ok text := by
    intro id hid
    obtain ⟨index, hindex, rfl⟩ := List.mem_map.mp hid
    exact h.type ⟨index⟩ (List.mem_range.mp hindex)
  have hmembers : ∀ id ∈ catalog.memberIds, ∃ text, catalog.encodeMember id = .ok text := by
    intro id hid
    obtain ⟨index, hindex, rfl⟩ := List.mem_map.mp hid
    exact h.member ⟨index⟩ (List.mem_range.mp hindex)
  obtain ⟨types, htypes⟩ := exists_mapM_ok htypes
  obtain ⟨members, hmembers⟩ := exists_mapM_ok hmembers
  refine ⟨(types ++ members).mergeSort Text.byteOrdered, ?_⟩
  rw [Catalog.sortedIds, htypes, hmembers]
  rfl

end Encoding

end Catalog

/-! ### Commands -/

/-- Whether a result is anything but an entry without an ID. -/
def Consistent {α : Type} (result : Except Failure α) : Prop :=
  ∀ subject reason, result ≠ .error (.catalogInconsistency subject reason)

/-- Whether a command of a project works on a catalog. -/
def Project.Uses (project : Project) (invocation : Invocation) (catalog : Catalog) : Prop :=
  ∃ config, project.configWith invocation.catalog = .ok config ∧
    project.loadCatalog config = .ok catalog

section Commands

variable {α β : Type}

theorem consistent_ok (a : α) : Consistent (.ok a) := by
  simp [Consistent]

theorem Consistent.bind {first : Except Failure α} {next : α → Except Failure β}
    (hfirst : Consistent first) (hnext : ∀ a, first = .ok a → Consistent (next a)) :
    Consistent (first >>= next) := by
  cases first with
  | error failure =>
    intro subject reason heq
    cases heq
    exact hfirst subject reason rfl
  | ok a => exact hnext a rfl

theorem consistent_readReference (text : Text) : Consistent (readReference text) := by
  rw [readReference]
  split
  · simp [Consistent]
  · simp [Consistent]

theorem consistent_load (project : Project) : Consistent (Config.load project) := by
  rw [Config.load]
  split
  · simp [Consistent]
  · simp [Consistent]
  · split
    · simp [Consistent]
    · simp [Consistent]

theorem consistent_configWith (project : Project) (path : Option Text) :
    Consistent (project.configWith path) := by
  refine (consistent_load project).bind fun config _ => ?_
  cases path with
  | none => exact consistent_ok _
  | some path => exact consistent_ok _

/-- A document that describes no catalog is corrupt; there is no ID yet that could be missing. -/
theorem consistent_ofText (text : Text) : Consistent (Catalog.ofText text) := by
  rw [Catalog.ofText]
  split
  · simp [Consistent]
  · rw [Catalog.ofToml]
    split
    · simp [Consistent]
    · split
      · simp [Consistent]
      · next fault _ => cases fault <;> simp [Consistent, ListingFault.failure]

theorem consistent_loadCatalog (project : Project) (config : Config) :
    Consistent (project.loadCatalog config) := by
  simp only [Project.loadCatalog]
  split
  · simp [Consistent]
  · simp [Consistent]
  · exact consistent_ofText _

theorem consistent_scan (project : Project) (config : Config) : Consistent (project.scan config) := by
  have hfiles : ∀ files, Consistent (Project.occurrencesIn files) := by
    intro files
    induction files with
    | nil => exact consistent_ok _
    | cons file files ih =>
      rw [Project.occurrencesIn]
      split
      · simp [Consistent]
      · exact ih.bind fun rest _ => consistent_ok _
  exact hfiles _

theorem Catalog.Encodes.listIds {catalog : Catalog} (h : catalog.Encodes) (json : Bool) :
    Consistent (catalog.listIds json) := by
  obtain ⟨ids, hids⟩ := h.sortedIds
  rw [Catalog.listIds, hids]
  cases json <;> exact consistent_ok _

theorem Catalog.Encodes.idOf {catalog : Catalog} (h : catalog.Encodes) (text : Text) :
    Consistent (catalog.idOf text) := by
  refine (consistent_readReference text).bind fun reference _ => ?_
  obtain ⟨found, hfound, -⟩ := h.reference reference
  rw [hfound]
  cases found with
  | none =>
    intro subject reason heq
    cases heq
  | some id => exact consistent_ok _

/-- What a command does with its catalog decides whether it is consistent. -/
theorem consistent_of_uses {project : Project} {invocation : Invocation}
    {work : Catalog → Except Failure α}
    (h : ∀ catalog, project.Uses invocation catalog → Consistent (work catalog)) :
    Consistent (do work (← project.loadCatalog (← project.configWith invocation.catalog))) := by
  refine (consistent_configWith project _).bind fun config hconfig => ?_
  refine (consistent_loadCatalog project config).bind fun catalog hcatalog => ?_
  exact h catalog ⟨config, hconfig, hcatalog⟩

/-- No command but the one that lists members can come upon an entry without an ID. -/
theorem execute_consistent {project : Project} {invocation : Invocation}
    (hcommand : ∀ type, invocation.command ≠ .members type)
    (hencodes : ∀ catalog, project.Uses invocation catalog → catalog.Encodes) :
    Consistent (invocation.execute project) := by
  obtain ⟨path, command⟩ := invocation
  cases command with
  | parse text json =>
    exact (consistent_readReference text).bind fun reference _ => consistent_ok _
  | check =>
    -- A check asks what references mean, and for no ID.
    refine (consistent_configWith project path).bind fun config _ => ?_
    refine (consistent_loadCatalog project config).bind fun catalog _ => ?_
    exact (consistent_scan project config).bind fun occurrences _ => consistent_ok _
  | ids json =>
    apply consistent_of_uses
    intro catalog huses
    exact ((hencodes catalog huses).listIds json).bind fun lines _ => consistent_ok _
  | members type => exact absurd rfl (hcommand type)
  | resolve text =>
    apply consistent_of_uses
    intro catalog huses
    exact ((hencodes catalog huses).idOf text).bind fun id _ => consistent_ok _

end Commands

namespace Catalog

/-- In a catalog that a document describes, every type and every member has an ID, and every reference
has one unless it means nothing. So no command of a project that uses this catalog fails for want of
an ID, but for the one that lists members with their substituted signatures. -/
theorem encode_total {document : Text} {catalog : Catalog} (h : ofText document = .ok catalog)
    (hbounded : catalog.ListsBounded) :
    catalog.Encodes ∧ ∀ (project : Project) (invocation : Invocation),
      (∀ type, invocation.command ≠ .members type) →
      (∀ found, project.Uses invocation found → found = catalog) →
        Consistent (invocation.execute project) := by
  have hencodes := (ofText_loaded h).encodes hbounded
  refine ⟨hencodes, fun project invocation hcommand huses => ?_⟩
  apply execute_consistent hcommand
  intro found hfound
  rw [huses found hfound]
  exact hencodes

/-- A generic type with a generic method that takes arrays of the type. -/
def genericCatalog : Catalog :=
  ⟨[⟨['A', tick, '1'], [['T']], none, [⟨0⟩]⟩],
    [⟨⟨0⟩, [['U']], .method, ['B'], [.array (.generic ⟨0⟩ [.param ⟨.method ⟨0⟩, 0⟩]) 1],
      some (.param ⟨.type ⟨0⟩, 0⟩)⟩]⟩

def genericDocument : String :=
  "[[types]]\nname='A`1'\ngeneric_params=['T']\n[[types.members]]\nname='B'\nkind='method'\n" ++
    "generic_params=['U']\nparameters=['A\x7b``0\x7d[]']\nreturns='`0'\n"

/-- A project with no file but its catalog. -/
def genericProject : Project :=
  ⟨[⟨Config.default.catalog, genericDocument.toUTF8⟩], []⟩

/-- The catalog of the project has all its IDs, and they can be listed. -/
theorem genericProject_consistent : genericCatalog.Encodes ∧
    genericProject.Uses ⟨none, .ids false⟩ genericCatalog ∧
    Consistent (Invocation.execute genericProject ⟨none, .ids false⟩) := by
  have hdocument : ofText genericDocument.toList = .ok genericCatalog :=
    eq_ok_of_toOption (by decide +kernel)
  have hconfig : genericProject.configWith none = .ok Config.default :=
    eq_ok_of_toOption (by decide +kernel)
  have hcatalog : genericProject.loadCatalog Config.default = .ok genericCatalog :=
    eq_ok_of_toOption (by decide +kernel)
  have hbounded : genericCatalog.ListsBounded := ⟨by decide +kernel, by decide +kernel⟩
  obtain ⟨hencodes, hconsistent⟩ := encode_total hdocument hbounded
  refine ⟨hencodes, ⟨Config.default, hconfig, hcatalog⟩, hconsistent _ _ nofun ?_⟩
  rintro found ⟨config, hother, hfound⟩
  rw [hconfig] at hother
  cases hother
  rw [hcatalog] at hfound
  cases hfound
  rfl

end Catalog

end DocRef
