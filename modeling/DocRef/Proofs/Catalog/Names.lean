import DocRef.Proofs.Arity
import DocRef.Proofs.Catalog.Loading

/-!
The names that a catalog can mention. A type may be registered under any name, but a signature spells
the names it looks up out of identifiers, ticks and dots (`Text.isDotted`). So all types that stand in a
catalog's bases and members have such names (`ofText_mentionsDotted`).
-/

namespace DocRef

/-! ### Dotted names -/

namespace Text

/-- Whether a character may stand in a dotted name. -/
def inDotted (c : Char) : Bool :=
  inIdentifier c || c = '.' || c = tick

/-- Whether a text begins as an identifier, and goes on with characters of identifiers, dots and
ticks. -/
def isDotted : Text → Bool
  | [] => false
  | first :: rest => startsIdentifier first && rest.all inDotted

theorem isDotted_iff {name : Text} : name.isDotted = true ↔ ∃ first rest, name = first :: rest ∧
    startsIdentifier first = true ∧ ∀ c ∈ rest, inDotted c = true := by
  cases name with
  | nil => simp [isDotted]
  | cons first rest => simp [isDotted, List.all_eq_true]

theorem isDotted_append {name rest : Text} (h : name.isDotted = true)
    (hrest : ∀ c ∈ rest, inDotted c = true) : (name ++ rest).isDotted = true := by
  obtain ⟨first, others, rfl, hfirst, hothers⟩ := isDotted_iff.mp h
  exact isDotted_iff.mpr ⟨first, others ++ rest, rfl, hfirst, List.forall_mem_append.mpr ⟨hothers, hrest⟩⟩

theorem inDotted_of_inIdentifier {c : Char} (h : inIdentifier c = true) : inDotted c = true := by
  rw [inDotted, h, Bool.true_or, Bool.true_or]

theorem inDotted_of_isDotted {name : Text} (h : name.isDotted = true) :
    ∀ c ∈ name, inDotted c = true := by
  obtain ⟨first, rest, rfl, hfirst, hrest⟩ := isDotted_iff.mp h
  exact List.forall_mem_cons.mpr
    ⟨inDotted_of_inIdentifier (inIdentifier_of_startsIdentifier hfirst), hrest⟩

theorem inDotted_tick_decimal (count : Nat) : ∀ c ∈ tick :: decimal count, inDotted c = true := by
  refine List.forall_mem_cons.mpr ⟨by decide, fun c hc => ?_⟩
  exact inDotted_of_inIdentifier (inIdentifier_of_isDigit (isDigit_of_mem_decimal hc))

theorem isDotted_of_isName {name : Text} (h : name.IsName) : name.isDotted = true := by
  have hall : ∀ c ∈ name, inDotted c = true := by
    intro c hc
    cases hidentifier : inIdentifier c with
    | true => exact inDotted_of_inIdentifier hidentifier
    | false =>
      by_cases htick : c = tick
      · rw [htick]
        decide
      · exact absurd hc (h.notMem hidentifier htick)
  obtain ⟨_, marker, rfl, ⟨first, rest, rfl, hfirst, -⟩, -⟩ := h
  exact isDotted_iff.mpr ⟨first, rest ++ marker, rfl, hfirst, (List.forall_mem_cons.mp hall).2⟩

/-- What stands before the marker of a dotted name is a dotted name. -/
theorem isDotted_splitArity {name : Text} (h : name.isDotted = true) :
    (splitArity name).1.isDotted = true := by
  rcases splitArity_cases name with hsplit | ⟨stem, arity, marker, hsplit, hname⟩
  · rwa [hsplit]
  · rw [hsplit]
    obtain ⟨first, rest, rfl, hfirst, hrest⟩ := isDotted_iff.mp h
    cases stem with
    | nil =>
      cases hname
      exact absurd rfl (ne_tick_of_inIdentifier (inIdentifier_of_startsIdentifier hfirst))
    | cons c stem =>
      obtain ⟨rfl, rfl⟩ := List.cons.inj hname
      exact isDotted_iff.mpr ⟨first, stem, rfl, hfirst,
        fun c hc => hrest c (List.mem_append_left _ hc)⟩

theorem isDotted_child {outer segment : Text} (houter : outer.isDotted = true)
    (hsegment : segment.isDotted = true) : (outer ++ '.' :: segment).isDotted = true := by
  refine isDotted_append houter (List.forall_mem_cons.mpr ⟨by decide, ?_⟩)
  exact inDotted_of_isDotted hsegment

end Text

namespace Catalog

/-- The number of generic parameters of a type with a dotted name. -/
def dottedArity? (catalog : Catalog) (id : TypeId) : Option Nat :=
  (catalog.typeDef? id).bind fun type =>
    if type.name.isDotted then some type.genericParams.length else none

/-- Whether all types that a type mentions are there and have dotted names. -/
def Dotted (catalog : Catalog) (type : TypeExpr) : Prop :=
  type.WellScoped catalog.dottedArity? fun _ => True

section Tables

variable {catalog : Catalog}

theorem typeDef?_of_dottedArity? {id : TypeId} {count : Nat} (h : catalog.dottedArity? id = some count) :
    ∃ type, catalog.typeDef? id = some type ∧ type.name.isDotted = true ∧
      type.genericParams.length = count := by
  obtain ⟨type, htype, hcount⟩ := Option.bind_eq_some_iff.mp h
  split at hcount
  · next hname => exact ⟨type, htype, hname, Option.some.inj hcount⟩
  · cases hcount

theorem dottedArity?_of_typeNamed? {name : Text} {id : TypeId} (hname : name.isDotted = true)
    (h : catalog.typeNamed? name = some id) :
    catalog.dottedArity? id = some (catalog.genericArity id) := by
  obtain ⟨type, htype, rfl⟩ := typeDef?_of_typeNamed? h
  rw [dottedArity?, htype, Option.bind_some, if_pos hname, genericArity_eq (arity?_eq_some htype)]

/-- Tables that agree in names and parameters have the same dotted names. -/
theorem dottedArity?_congr {other : Catalog}
    (hnames : catalog.types.map (·.name) = other.types.map (·.name))
    (hparams : catalog.types.map (·.genericParams) = other.types.map (·.genericParams)) :
    catalog.dottedArity? = other.dottedArity? := by
  funext id
  have hname := congrArg (fun names : List Text => names[id.index]?) hnames
  have hparam := congrArg (fun params : List (List Text) => params[id.index]?) hparams
  simp only [List.getElem?_map] at hname hparam
  rw [dottedArity?, dottedArity?, typeDef?, typeDef?]
  cases htype : catalog.types[id.index]? with
  | none =>
    rw [htype, Option.map_none, eq_comm, Option.map_eq_none_iff] at hname
    rw [hname]
  | some type =>
    rw [htype, Option.map_some, eq_comm, Option.map_eq_some_iff] at hname hparam
    obtain ⟨found, hfound, hname⟩ := hname
    rw [hfound] at hparam ⊢
    obtain ⟨_, ⟨⟩, hparam⟩ := hparam
    simp only [Option.bind_some, hname, hparam]

end Tables

/-! ### Resolution -/

section Resolution

variable {catalog : Catalog} {bindings : Bindings}

/-- What a segment that can be written names has a dotted name, after a scope with a dotted name. -/
theorem dottedArity?_of_typeInScope? {scope : Option Text} {text : Text} {given : Nat} {id : TypeId}
    (hscope : ∀ outer ∈ scope, outer.isDotted = true) (htext : text.IsName)
    (h : catalog.typeInScope? scope text given = some id) :
    catalog.dottedArity? id = some (catalog.genericArity id) := by
  have hstem := Text.isDotted_splitArity (Text.isDotted_of_isName htext)
  have harity : ∀ {name : Text} (arity : Nat), name.isDotted = true →
      (withArity name arity).isDotted = true := by
    intro name arity hname
    rw [withArity]
    split
    · exact hname
    · exact Text.isDotted_append hname (Text.inDotted_tick_decimal arity)
  simp only [typeInScope?] at h
  split at h
  · next outer _ =>
    exact dottedArity?_of_typeNamed? (harity _ (Text.isDotted_child (hscope outer rfl) hstem)) h
  · exact dottedArity?_of_typeNamed? (harity _ hstem) h
  · cases h

theorem isDotted_of_closedName? {name closed : Text} {given : Nat} (hname : name.isDotted = true)
    (h : closedName? name given = some closed) : closed.isDotted = true := by
  rw [closedName?] at h
  split at h
  · cases h
    exact Text.isDotted_append hname (Text.inDotted_tick_decimal given)
  · split at h
    · cases h
      exact hname
    · cases h
  · cases h

mutual

/-- What a tree that can be written means mentions dotted names only. -/
theorem resolveType_dotted
    (hbindings : ∀ type ∈ bindings.typeArgs ++ bindings.methodArgs, catalog.Dotted type) :
    (node : Node) → node.Writable → ∀ {type : TypeExpr},
      catalog.resolveType bindings node = some type → catalog.Dotted type
  | .root _, hnode, type, h => by
    simp only [resolveType, Option.bind_eq_bind, Option.bind_eq_some_iff] at h
    obtain ⟨definition, hdefinition, hclose⟩ := h
    have hcount := dottedArity?_of_typeInScope? (by simp) hnode hdefinition
    exact close?_wellScoped hcount rfl (by simp) hclose
  | .child scope _, ⟨hscope, htext⟩, type, h => by
    simp only [resolveType, Option.bind_eq_bind, Option.bind_eq_some_iff] at h
    obtain ⟨⟨outer, bound⟩, houter, definition, hdefinition, hclose⟩ := h
    obtain ⟨hname, hbound⟩ := resolveScope_dotted hbindings scope hscope houter
    have hcount := dottedArity?_of_typeInScope? (by simp [hname]) htext hdefinition
    exact close?_wellScoped hcount rfl hbound hclose
  | .closed (.root _) arguments, ⟨hnode, harguments⟩, type, h => by
    simp only [resolveType, Option.bind_eq_bind, Option.bind_eq_some_iff] at h
    obtain ⟨own, hown, definition, hdefinition, hclose⟩ := h
    have hcount := dottedArity?_of_typeInScope? (by simp) hnode hdefinition
    exact close?_wellScoped hcount rfl (resolveAll_dotted hbindings arguments harguments hown) hclose
  | .closed (.child scope _) arguments, ⟨⟨hscope, htext⟩, harguments⟩, type, h => by
    simp only [resolveType, Option.bind_eq_bind, Option.bind_eq_some_iff] at h
    obtain ⟨own, hown, ⟨outer, bound⟩, houter, definition, hdefinition, hclose⟩ := h
    obtain ⟨hname, hbound⟩ := resolveScope_dotted hbindings scope hscope houter
    have hcount := dottedArity?_of_typeInScope? (by simp [hname]) htext hdefinition
    have hall := resolveAll_dotted hbindings arguments harguments hown
    exact close?_wellScoped hcount rfl (List.forall_mem_append.mpr ⟨hbound, hall⟩) hclose
  | .closed (.closed ..) _, _, _, h | .closed (.array ..) _, _, _, h | .closed (.byRef _) _, _, _, h
  | .closed (.pointer _) _, _, _, h | .closed (.typeParam _) _, _, _, h
  | .closed (.methodParam _) _, _, _, h | .closed (.method ..) _, _, _, h | .method .., _, _, h => by
    cases h
  | .array element _, hnode, type, h => by
    obtain ⟨_, helement, rfl⟩ := Option.map_eq_some_iff.mp h
    exact .array (resolveType_dotted hbindings element hnode.1 helement)
  | .byRef target, hnode, type, h => by
    obtain ⟨_, htarget, rfl⟩ := Option.map_eq_some_iff.mp h
    exact .byRef (resolveType_dotted hbindings target hnode htarget)
  | .pointer target, hnode, type, h => by
    obtain ⟨_, htarget, rfl⟩ := Option.map_eq_some_iff.mp h
    exact .pointer (resolveType_dotted hbindings target hnode htarget)
  | .typeParam _, _, type, h =>
    hbindings type (List.mem_append_left _ (List.mem_of_getElem? h))
  | .methodParam _, _, type, h =>
    hbindings type (List.mem_append_right _ (List.mem_of_getElem? h))

theorem resolveScope_dotted
    (hbindings : ∀ type ∈ bindings.typeArgs ++ bindings.methodArgs, catalog.Dotted type) :
    (node : Node) → node.Writable → ∀ {name : Text} {bound : List TypeExpr},
      catalog.resolveScope bindings node = some (name, bound) →
      name.isDotted = true ∧ ∀ type ∈ bound, catalog.Dotted type
  | .root _, hnode, _, _, h => by
    cases h
    exact ⟨Text.isDotted_of_isName hnode, List.forall_mem_nil _⟩
  | .child scope _, ⟨hscope, htext⟩, _, _, h => by
    simp only [resolveScope, Option.bind_eq_bind, Option.bind_eq_some_iff] at h
    obtain ⟨⟨outer, bound⟩, houter, heq⟩ := h
    cases heq
    obtain ⟨hname, hbound⟩ := resolveScope_dotted hbindings scope hscope houter
    exact ⟨Text.isDotted_child hname (Text.isDotted_of_isName htext), hbound⟩
  | .closed generic arguments, ⟨hgeneric, harguments⟩, _, _, h => by
    simp only [resolveScope, Option.bind_eq_bind, Option.bind_eq_some_iff] at h
    obtain ⟨⟨name, bound⟩, hspelled, own, hown, closed, hclosed, heq⟩ := h
    cases heq
    obtain ⟨hname, hbound⟩ := resolveScope_dotted hbindings generic hgeneric hspelled
    have hall := resolveAll_dotted hbindings arguments harguments hown
    exact ⟨isDotted_of_closedName? hname hclosed, List.forall_mem_append.mpr ⟨hbound, hall⟩⟩

theorem resolveAll_dotted
    (hbindings : ∀ type ∈ bindings.typeArgs ++ bindings.methodArgs, catalog.Dotted type) :
    (nodes : List Node) → Node.AllWritable nodes → ∀ {types : List TypeExpr},
      catalog.resolveAll bindings nodes = some types → ∀ type ∈ types, catalog.Dotted type
  | [], _, _, h => by
    cases h
    simp
  | node :: nodes, ⟨hnode, hnodes⟩, _, h => by
    simp only [resolveAll, Option.bind_eq_bind, Option.bind_eq_some_iff] at h
    obtain ⟨head, hhead, tail, htail, heq⟩ := h
    cases heq
    exact List.forall_mem_cons.mpr ⟨resolveType_dotted hbindings node hnode hhead,
      resolveAll_dotted hbindings nodes hnodes htail⟩

end

end Resolution

/-! ### Reading -/

section Reading

variable {names : Catalog} {p : TypeExpr → Prop}

/-- Whether something holds of all types that are read where parameters stand for themselves. -/
def HoldsOfRead (names : Catalog) (p : TypeExpr → Prop) : Prop :=
  ∀ (bindings : Bindings) (place : SignaturePlace) (text : Text) (type : TypeExpr),
    (∀ bound ∈ bindings.typeArgs ++ bindings.methodArgs, ∃ param, bound = .param param) →
    names.readSignature bindings place text = .ok type → p type

theorem params_of_mem (names : Catalog) (declaring : TypeId) (id : MemberId) (count : Nat) :
    ∀ bound ∈ names.typeParams declaring ++ ParamOwner.params (.method id) count,
      ∃ param, bound = .param param := by
  intro bound hbound
  rcases List.mem_append.mp hbound with hbound | hbound
  all_goals
    obtain ⟨position, -, rfl⟩ := mem_params hbound
    exact ⟨_, rfl⟩

theorem HoldsOfRead.readSignatures (h : names.HoldsOfRead p) {bindings : Bindings}
    {place : SignaturePlace} {texts : List Text} {types : List TypeExpr}
    (hbindings : ∀ bound ∈ bindings.typeArgs ++ bindings.methodArgs, ∃ param, bound = .param param)
    (hread : names.readSignatures bindings place texts = .ok types) : ∀ type ∈ types, p type := by
  induction texts generalizing types with
  | nil =>
    cases hread
    exact List.forall_mem_nil _
  | cons text texts ih =>
    simp only [Catalog.readSignatures, bind_eq_ok, pure_eq_ok] at hread
    obtain ⟨head, hhead, tail, htail, rfl⟩ := hread
    exact List.forall_mem_cons.mpr ⟨h _ _ _ _ hbindings hhead, ih htail⟩

theorem HoldsOfRead.readBase (h : names.HoldsOfRead p) {id : TypeId} {type : ListedType}
    {base : Option TypeExpr} (hread : names.readBase id type = .ok base) : ∀ found ∈ base, p found := by
  simp only [Catalog.readBase] at hread
  split at hread
  · cases hread
    simp
  · simp only [bind_eq_ok] at hread
    obtain ⟨found, hfound, hclosed⟩ := hread
    have hparams := params_of_mem names id ⟨0⟩ 0
    have hholds : p found := h _ _ _ _ hparams hfound
    have hbase : base = some found := by
      split at hclosed
      · split at hclosed
        · cases hclosed
          rfl
        · cases hclosed
      · cases hclosed
        rfl
    simpa [hbase] using hholds

theorem HoldsOfRead.readMember (h : names.HoldsOfRead p) {declaring : TypeId} {type : ListedType}
    {id : MemberId} {listed : ListedMember} {member : MemberDef}
    (hread : names.readMember declaring type id listed = .ok member) :
    ∀ type ∈ member.types, p type := by
  have hparams := params_of_mem names declaring id listed.genericParams.length
  simp only [Catalog.readMember, bind_eq_ok, pure_eq_ok] at hread
  obtain ⟨parameters, hparameters, returns, hreturns, rfl⟩ := hread
  refine List.forall_mem_append.mpr ⟨h.readSignatures hparams hparameters, ?_⟩
  cases hlisted : listed.returns with
  | none =>
    rw [hlisted] at hreturns
    cases hreturns
    exact List.forall_mem_nil _
  | some text =>
    rw [hlisted] at hreturns
    simp only [readOptional, bind_eq_ok, pure_eq_ok] at hreturns
    obtain ⟨found, hfound, rfl⟩ := hreturns
    exact List.forall_mem_singleton.mpr (h _ _ _ _ hparams hfound)

theorem HoldsOfRead.readMembers (h : names.HoldsOfRead p) {declaring : TypeId} {type : ListedType}
    {first : Nat} {listed : List ListedMember} {members : List MemberDef}
    (hread : names.readMembers declaring type first listed = .ok members) :
    ∀ member ∈ members, ∀ type ∈ member.types, p type := by
  induction listed generalizing first members with
  | nil =>
    cases hread
    exact List.forall_mem_nil _
  | cons next listed ih =>
    simp only [Catalog.readMembers, bind_eq_ok, pure_eq_ok] at hread
    obtain ⟨head, hhead, tail, htail, rfl⟩ := hread
    exact List.forall_mem_cons.mpr ⟨h.readMember hhead, ih htail⟩

/-- What holds of all types that are read holds of all types in the tables. -/
theorem HoldsOfRead.complete (h : names.HoldsOfRead p) {index first : Nat} {listing : Listing}
    {part : Catalog} (hread : names.complete index first listing = .ok part) :
    (∀ type ∈ part.types, ∀ base ∈ type.base, p base) ∧
      ∀ member ∈ part.members, ∀ type ∈ member.types, p type := by
  induction listing generalizing index first part with
  | nil =>
    cases hread
    exact ⟨List.forall_mem_nil _, List.forall_mem_nil _⟩
  | cons type listing ih =>
    simp only [Catalog.complete, bind_eq_ok, pure_eq_ok] at hread
    obtain ⟨base, hbase, members, hmembers, rest, hrest, rfl⟩ := hread
    obtain ⟨htypes, hothers⟩ := ih hrest
    exact ⟨List.forall_mem_cons.mpr ⟨h.readBase hbase, htypes⟩,
      List.forall_mem_append.mpr ⟨h.readMembers hmembers, hothers⟩⟩

theorem holdsOfRead_dotted (names : Catalog) : names.HoldsOfRead names.Dotted := by
  intro bindings place text type hbindings hread
  simp only [readSignature] at hread
  split at hread
  · cases hread
  · next node hnode =>
    split at hread
    · next hresolve =>
      cases hread
      refine resolveType_dotted ?_ node (Node.wellFormedType_of_parseType hnode).2 hresolve
      intro bound hbound
      obtain ⟨param, rfl⟩ := hbindings bound hbound
      exact .param trivial
    · cases hread

end Reading

/-- Whether all bases and all types of members mention dotted names only. -/
structure MentionsDotted (catalog : Catalog) : Prop where
  base : ∀ {id : TypeId} {base : TypeExpr}, catalog.baseType? id = some base → catalog.Dotted base
  member : ∀ {id : MemberId} {member : MemberDef}, catalog.memberDef? id = some member →
    ∀ type ∈ member.types, catalog.Dotted type

/-- A catalog that is read from a text mentions dotted names only. -/
theorem ofText_mentionsDotted {text : Text} {catalog : Catalog} (h : ofText text = .ok catalog) :
    catalog.MentionsDotted := by
  obtain ⟨listing, hlisting⟩ := exists_ofListing h
  obtain ⟨names, hregisters, hcatalog, hcompletes⟩ := exists_completes hlisting
  have hdotted : names.Dotted = catalog.Dotted := by
    have harity : names.dottedArity? = catalog.dottedArity? := by
      apply dottedArity?_congr
      · rw [hregisters.names, hcompletes.typeNames]
      · rw [hregisters.types, hcompletes.typeParams, List.map_map]
        rfl
    funext type
    rw [Dotted, Dotted, harity]
  obtain ⟨hbases, hmembers⟩ := (holdsOfRead_dotted names).complete hcatalog
  rw [hdotted] at hbases hmembers
  refine ⟨fun hbase => ?_, fun hmember => hmembers _ (List.mem_of_getElem? hmember)⟩
  obtain ⟨type, htype, hbase⟩ := Option.bind_eq_some_iff.mp hbase
  exact hbases type (List.mem_of_getElem? htype) _ hbase

end Catalog

end DocRef
