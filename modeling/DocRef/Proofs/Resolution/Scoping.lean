import DocRef.Proofs.Catalog.Tables
import DocRef.Proofs.Node.Written
import DocRef.Resolution

/-!
What trees are resolved to. Whatever the tree, the type is in scope if what parameters stand for is
(`resolveType_wellScoped`); and a tree that the grammar derives gives a type that is built in the
same way (`resolveType_shaped`).
-/

namespace DocRef.Catalog

variable {catalog : Catalog} {bindings : Bindings}

theorem arity?_of_typeInScope? {scope : Option Text} {text : Text} {given : Nat} {id : TypeId}
    (h : catalog.typeInScope? scope text given = some id) :
    ∃ count, catalog.arity? id = some count := by
  have hnamed : ∃ name, catalog.typeNamed? name = some id := by
    simp only [typeInScope?] at h
    split at h
    · exact ⟨_, h⟩
    · exact ⟨_, h⟩
    · cases h
  obtain ⟨name, hname⟩ := hnamed
  obtain ⟨type, htype, -⟩ := typeDef?_of_typeNamed? hname
  exact ⟨_, arity?_eq_some htype⟩

/-! ### Scope -/

section Scope

variable {owns : GenericParam → Prop}

/-- What is closed over types in scope is in scope, also where not all types of the catalog are. -/
theorem close?_wellScoped {arity? : TypeId → Option Nat} {definition : TypeId} {count : Nat}
    {arguments : List TypeExpr} {type : TypeExpr} (hdefinition : arity? definition = some count)
    (hcount : catalog.genericArity definition = count)
    (harguments : ∀ argument ∈ arguments, argument.WellScoped arity? owns)
    (h : catalog.close? definition arguments = some type) : type.WellScoped arity? owns := by
  rw [close?] at h
  split at h
  · cases h
    exact .named hdefinition
  · next hne =>
    split at h
    · next hlength =>
      cases h
      rw [hcount] at hlength
      exact .generic hne (hlength ▸ hdefinition) harguments
    · cases h

/-- Whether what a declaration's parameters stand for is in scope. -/
def BindingsInScope (catalog : Catalog) (owns : GenericParam → Prop) (bindings : Bindings) : Prop :=
  ∀ type ∈ bindings.typeArgs ++ bindings.methodArgs, type.WellScoped catalog.arity? owns

mutual

/-- What a tree is resolved to is in scope. -/
theorem resolveType_wellScoped (hbindings : catalog.BindingsInScope owns bindings) :
    (node : Node) → ∀ {type : TypeExpr}, catalog.resolveType bindings node = some type →
      type.WellScoped catalog.arity? owns
  | .root _, type, h => by
    simp only [resolveType, Option.bind_eq_bind, Option.bind_eq_some_iff] at h
    obtain ⟨definition, hdefinition, hclose⟩ := h
    obtain ⟨count, hcount⟩ := arity?_of_typeInScope? hdefinition
    exact close?_wellScoped hcount (genericArity_eq hcount) (by simp) hclose
  | .child scope _, type, h => by
    simp only [resolveType, Option.bind_eq_bind, Option.bind_eq_some_iff] at h
    obtain ⟨⟨outer, bound⟩, hscope, definition, hdefinition, hclose⟩ := h
    obtain ⟨count, hcount⟩ := arity?_of_typeInScope? hdefinition
    exact close?_wellScoped hcount (genericArity_eq hcount)
      (resolveScope_wellScoped hbindings scope hscope) hclose
  | .closed (.root _) arguments, type, h => by
    simp only [resolveType, Option.bind_eq_bind, Option.bind_eq_some_iff] at h
    obtain ⟨own, hown, definition, hdefinition, hclose⟩ := h
    obtain ⟨count, hcount⟩ := arity?_of_typeInScope? hdefinition
    exact close?_wellScoped hcount (genericArity_eq hcount)
      (resolveAll_wellScoped hbindings arguments hown) hclose
  | .closed (.child scope _) arguments, type, h => by
    simp only [resolveType, Option.bind_eq_bind, Option.bind_eq_some_iff] at h
    obtain ⟨own, hown, ⟨outer, bound⟩, hscope, definition, hdefinition, hclose⟩ := h
    obtain ⟨count, hcount⟩ := arity?_of_typeInScope? hdefinition
    refine close?_wellScoped hcount (genericArity_eq hcount) ?_ hclose
    intro argument hargument
    rcases List.mem_append.mp hargument with hbound | hown'
    · exact resolveScope_wellScoped hbindings scope hscope argument hbound
    · exact resolveAll_wellScoped hbindings arguments hown argument hown'
  | .closed (.closed ..) _, _, h | .closed (.array ..) _, _, h | .closed (.byRef _) _, _, h
  | .closed (.pointer _) _, _, h | .closed (.typeParam _) _, _, h
  | .closed (.methodParam _) _, _, h | .closed (.method ..) _, _, h | .method .., _, h => by
    cases h
  | .array element _, type, h => by
    obtain ⟨_, helement, rfl⟩ := Option.map_eq_some_iff.mp h
    exact .array (resolveType_wellScoped hbindings element helement)
  | .byRef target, type, h => by
    obtain ⟨_, htarget, rfl⟩ := Option.map_eq_some_iff.mp h
    exact .byRef (resolveType_wellScoped hbindings target htarget)
  | .pointer target, type, h => by
    obtain ⟨_, htarget, rfl⟩ := Option.map_eq_some_iff.mp h
    exact .pointer (resolveType_wellScoped hbindings target htarget)
  | .typeParam _, type, h =>
    hbindings type (List.mem_append_left _ (List.mem_of_getElem? h))
  | .methodParam _, type, h =>
    hbindings type (List.mem_append_right _ (List.mem_of_getElem? h))

theorem resolveScope_wellScoped (hbindings : catalog.BindingsInScope owns bindings) :
    (node : Node) → ∀ {name : Text} {bound : List TypeExpr},
      catalog.resolveScope bindings node = some (name, bound) →
      ∀ type ∈ bound, type.WellScoped catalog.arity? owns
  | .root _, _, _, h => by
    cases h
    simp
  | .child scope _, _, _, h => by
    simp only [resolveScope, Option.bind_eq_bind, Option.bind_eq_some_iff] at h
    obtain ⟨⟨outer, bound⟩, hscope, heq⟩ := h
    cases heq
    exact resolveScope_wellScoped hbindings scope hscope
  | .closed generic arguments, _, _, h => by
    simp only [resolveScope, Option.bind_eq_bind, Option.bind_eq_some_iff] at h
    obtain ⟨⟨name, bound⟩, hgeneric, own, hown, name', -, heq⟩ := h
    cases heq
    intro type htype
    rcases List.mem_append.mp htype with hbound | hown'
    · exact resolveScope_wellScoped hbindings generic hgeneric type hbound
    · exact resolveAll_wellScoped hbindings arguments hown type hown'

theorem resolveAll_wellScoped (hbindings : catalog.BindingsInScope owns bindings) :
    (nodes : List Node) → ∀ {types : List TypeExpr}, catalog.resolveAll bindings nodes = some types →
      ∀ type ∈ types, type.WellScoped catalog.arity? owns
  | [], _, h => by
    cases h
    simp
  | node :: nodes, _, h => by
    simp only [resolveAll, Option.bind_eq_bind, Option.bind_eq_some_iff] at h
    obtain ⟨head, hhead, tail, htail, heq⟩ := h
    cases heq
    intro type htype
    rcases List.mem_cons.mp htype with rfl | htype
    · exact resolveType_wellScoped hbindings node hhead
    · exact resolveAll_wellScoped hbindings nodes htail type htype

end

end Scope

/-! ### Shape -/

/-- A type that is closed over types of the right shape has that shape, and suffixes may follow. -/
theorem close?_shaped {definition : TypeId} {arguments : List TypeExpr} {type : TypeExpr}
    (harguments : ∀ argument ∈ arguments, argument.Shaped)
    (h : catalog.close? definition arguments = some type) : type.Shaped ∧ type.isElement := by
  rw [close?] at h
  split at h
  · cases h
    exact ⟨.named, rfl⟩
  · split at h
    · cases h
      exact ⟨.generic harguments, rfl⟩
    · cases h

/-- Whether suffixes may follow what a declaration's parameters stand for. -/
def BindingsShaped (bindings : Bindings) : Prop :=
  ∀ type ∈ bindings.typeArgs ++ bindings.methodArgs, type.Shaped ∧ type.isElement

mutual

/-- A tree that the grammar derives is resolved to a type of the same shape. -/
theorem resolveType_shaped (hbindings : BindingsShaped bindings) :
    (node : Node) → node.IsType → node.Writable → ∀ {type : TypeExpr},
      catalog.resolveType bindings node = some type →
      type.Shaped ∧ (node.isElement → type.isElement)
  | .root _, _, _, type, h => by
    simp only [resolveType, Option.bind_eq_bind, Option.bind_eq_some_iff] at h
    obtain ⟨definition, -, hclose⟩ := h
    have htype := close?_shaped (by simp) hclose
    exact ⟨htype.1, fun _ => htype.2⟩
  | .child scope _, hnode, hwritable, type, h => by
    simp only [resolveType, Option.bind_eq_bind, Option.bind_eq_some_iff] at h
    obtain ⟨⟨outer, bound⟩, hscope, definition, -, hclose⟩ := h
    have htype := close?_shaped
      (resolveScope_shaped hbindings scope hnode.1 hwritable.1 hscope) hclose
    exact ⟨htype.1, fun _ => htype.2⟩
  | .closed (.root _) arguments, hnode, hwritable, type, h => by
    simp only [resolveType, Option.bind_eq_bind, Option.bind_eq_some_iff] at h
    obtain ⟨own, hown, definition, -, hclose⟩ := h
    have htype := close?_shaped
      (resolveAll_shaped hbindings arguments hnode.2.2.2 hwritable.2 hown) hclose
    exact ⟨htype.1, fun _ => htype.2⟩
  | .closed (.child scope _) arguments, hnode, hwritable, type, h => by
    simp only [resolveType, Option.bind_eq_bind, Option.bind_eq_some_iff] at h
    obtain ⟨own, hown, ⟨outer, bound⟩, hscope, definition, -, hclose⟩ := h
    have hboth : ∀ argument ∈ bound ++ own, argument.Shaped := by
      intro argument hargument
      rcases List.mem_append.mp hargument with hbound | hown'
      · exact resolveScope_shaped hbindings scope hnode.1.1 hwritable.1.1 hscope argument hbound
      · exact resolveAll_shaped hbindings arguments hnode.2.2.2 hwritable.2 hown argument hown'
    have htype := close?_shaped hboth hclose
    exact ⟨htype.1, fun _ => htype.2⟩
  | .closed (.closed ..) _, _, _, _, h | .closed (.array ..) _, _, _, _, h
  | .closed (.byRef _) _, _, _, _, h | .closed (.pointer _) _, _, _, _, h
  | .closed (.typeParam _) _, _, _, _, h | .closed (.methodParam _) _, _, _, _, h
  | .closed (.method ..) _, _, _, _, h | .method .., _, _, _, h => by
    cases h
  | .array element _, hnode, hwritable, type, h => by
    obtain ⟨_, helement, rfl⟩ := Option.map_eq_some_iff.mp h
    have hshaped := resolveType_shaped hbindings element hnode.1 hwritable.1 helement
    exact ⟨.array hshaped.1 (hshaped.2 hnode.2) hwritable.2.1, fun _ => rfl⟩
  | .byRef target, hnode, hwritable, type, h => by
    obtain ⟨_, htarget, rfl⟩ := Option.map_eq_some_iff.mp h
    have hshaped := resolveType_shaped hbindings target hnode.1 hwritable htarget
    exact ⟨.byRef hshaped.1 (hshaped.2 hnode.2), fun hmark => absurd hmark Bool.false_ne_true⟩
  | .pointer target, hnode, hwritable, type, h => by
    obtain ⟨_, htarget, rfl⟩ := Option.map_eq_some_iff.mp h
    have hshaped := resolveType_shaped hbindings target hnode.1 hwritable htarget
    exact ⟨.pointer hshaped.1 (hshaped.2 hnode.2), fun hmark => absurd hmark Bool.false_ne_true⟩
  | .typeParam _, _, _, type, h => by
    have hshaped := hbindings type (List.mem_append_left _ (List.mem_of_getElem? h))
    exact ⟨hshaped.1, fun _ => hshaped.2⟩
  | .methodParam _, _, _, type, h => by
    have hshaped := hbindings type (List.mem_append_right _ (List.mem_of_getElem? h))
    exact ⟨hshaped.1, fun _ => hshaped.2⟩

theorem resolveScope_shaped (hbindings : BindingsShaped bindings) :
    (node : Node) → node.IsType → node.Writable → ∀ {name : Text} {bound : List TypeExpr},
      catalog.resolveScope bindings node = some (name, bound) → ∀ type ∈ bound, type.Shaped
  | .root _, _, _, _, _, h => by
    cases h
    simp
  | .child scope _, hnode, hwritable, _, _, h => by
    simp only [resolveScope, Option.bind_eq_bind, Option.bind_eq_some_iff] at h
    obtain ⟨⟨outer, bound⟩, hscope, heq⟩ := h
    cases heq
    exact resolveScope_shaped hbindings scope hnode.1 hwritable.1 hscope
  | .closed generic arguments, hnode, hwritable, _, _, h => by
    simp only [resolveScope, Option.bind_eq_bind, Option.bind_eq_some_iff] at h
    obtain ⟨⟨name, bound⟩, hgeneric, own, hown, name', -, heq⟩ := h
    cases heq
    intro type htype
    rcases List.mem_append.mp htype with hbound | hown'
    · exact resolveScope_shaped hbindings generic hnode.1 hwritable.1 hgeneric type hbound
    · exact resolveAll_shaped hbindings arguments hnode.2.2.2 hwritable.2 hown type hown'

theorem resolveAll_shaped (hbindings : BindingsShaped bindings) :
    (nodes : List Node) → Node.AllTypes nodes → Node.AllWritable nodes →
      ∀ {types : List TypeExpr}, catalog.resolveAll bindings nodes = some types →
      ∀ type ∈ types, type.Shaped
  | [], _, _, _, h => by
    cases h
    simp
  | node :: nodes, hnodes, hwritable, _, h => by
    simp only [resolveAll, Option.bind_eq_bind, Option.bind_eq_some_iff] at h
    obtain ⟨head, hhead, tail, htail, heq⟩ := h
    cases heq
    intro type htype
    rcases List.mem_cons.mp htype with rfl | htype
    · exact (resolveType_shaped hbindings node hnodes.1 hwritable.1 hhead).1
    · exact resolveAll_shaped hbindings nodes hnodes.2 hwritable.2 htail type htype

end

end DocRef.Catalog
