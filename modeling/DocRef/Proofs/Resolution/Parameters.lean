import DocRef.Resolution

/-!
What the meaning of a tree owes to what its parameters stand for. Whether a tree means a type depends
on how many parameters there are, and on nothing else about them (`resolveType_isSome_iff`); and
whether it means a catalog type without arguments depends on no parameter at all
(`resolveType_eq_named`).
-/

namespace DocRef

namespace Node

mutual

/-- Whether every parameter in a tree is among the first `typeCount` of the enclosing type or the
first `methodCount` of the enclosing method. -/
def ParamsBelow (typeCount methodCount : Nat) : Node → Prop
  | .root _ => True
  | .child scope _ => scope.ParamsBelow typeCount methodCount
  | .closed generic arguments =>
    generic.ParamsBelow typeCount methodCount ∧ AllParamsBelow typeCount methodCount arguments
  | .array element _ => element.ParamsBelow typeCount methodCount
  | .byRef target | .pointer target => target.ParamsBelow typeCount methodCount
  | .typeParam position => position < typeCount
  | .methodParam position => position < methodCount
  | .method member parameters returns =>
    member.ParamsBelow typeCount methodCount ∧ AllParamsBelow typeCount methodCount parameters ∧
      ReturnParamsBelow typeCount methodCount returns

/-- Whether every parameter in all trees is among the first ones. -/
def AllParamsBelow (typeCount methodCount : Nat) : List Node → Prop
  | [] => True
  | node :: nodes =>
    node.ParamsBelow typeCount methodCount ∧ AllParamsBelow typeCount methodCount nodes

/-- Whether every parameter in a return type is among the first ones. -/
def ReturnParamsBelow (typeCount methodCount : Nat) : Option Node → Prop
  | none => True
  | some node => node.ParamsBelow typeCount methodCount

end

end Node

namespace Catalog

variable {catalog : Catalog} {bindings other : Bindings}

/-! ### Parameters that are there -/

/-- Whether the parameters of a tree are among those that are bound. -/
def Binds (bindings : Bindings) (node : Node) : Prop :=
  node.ParamsBelow bindings.typeArgs.length bindings.methodArgs.length

/-- Whether the parameters of all trees are among those that are bound. -/
def BindsAll (bindings : Bindings) (nodes : List Node) : Prop :=
  Node.AllParamsBelow bindings.typeArgs.length bindings.methodArgs.length nodes

mutual

/-- A tree that means a type has no parameters that are not bound. -/
theorem binds_of_resolveType : (node : Node) → ∀ {type : TypeExpr},
    catalog.resolveType bindings node = some type → Binds bindings node
  | .root _, _, _ => trivial
  | .child scope _, _, h => by
    simp only [resolveType, Option.bind_eq_bind, Option.bind_eq_some_iff] at h
    obtain ⟨⟨outer, bound⟩, hscope, -⟩ := h
    exact binds_of_resolveScope scope hscope
  | .closed (.root _) arguments, _, h => by
    simp only [resolveType, Option.bind_eq_bind, Option.bind_eq_some_iff] at h
    obtain ⟨own, hown, -⟩ := h
    exact ⟨trivial, binds_of_resolveAll arguments hown⟩
  | .closed (.child scope _) arguments, _, h => by
    simp only [resolveType, Option.bind_eq_bind, Option.bind_eq_some_iff] at h
    obtain ⟨own, hown, ⟨outer, bound⟩, hscope, -⟩ := h
    exact ⟨binds_of_resolveScope scope hscope, binds_of_resolveAll arguments hown⟩
  | .closed (.closed ..) _, _, h | .closed (.array ..) _, _, h | .closed (.byRef _) _, _, h
  | .closed (.pointer _) _, _, h | .closed (.typeParam _) _, _, h
  | .closed (.methodParam _) _, _, h | .closed (.method ..) _, _, h | .method .., _, h => by
    cases h
  | .array element _, _, h => by
    obtain ⟨_, helement, -⟩ := Option.map_eq_some_iff.mp h
    exact binds_of_resolveType element helement
  | .byRef target, _, h | .pointer target, _, h => by
    obtain ⟨_, htarget, -⟩ := Option.map_eq_some_iff.mp h
    exact binds_of_resolveType target htarget
  | .typeParam _, _, h | .methodParam _, _, h => (List.getElem?_eq_some_iff.mp h).1

theorem binds_of_resolveScope : (node : Node) → ∀ {name : Text} {bound : List TypeExpr},
    catalog.resolveScope bindings node = some (name, bound) → Binds bindings node
  | .root _, _, _, _ => trivial
  | .child scope _, _, _, h => by
    simp only [resolveScope, Option.bind_eq_bind, Option.bind_eq_some_iff] at h
    obtain ⟨⟨outer, bound⟩, hscope, -⟩ := h
    exact binds_of_resolveScope scope hscope
  | .closed generic arguments, _, _, h => by
    simp only [resolveScope, Option.bind_eq_bind, Option.bind_eq_some_iff] at h
    obtain ⟨⟨name, bound⟩, hgeneric, own, hown, -⟩ := h
    exact ⟨binds_of_resolveScope generic hgeneric, binds_of_resolveAll arguments hown⟩

theorem binds_of_resolveAll : (nodes : List Node) → ∀ {types : List TypeExpr},
    catalog.resolveAll bindings nodes = some types → BindsAll bindings nodes
  | [], _, _ => trivial
  | node :: nodes, _, h => by
    simp only [resolveAll, Option.bind_eq_bind, Option.bind_eq_some_iff] at h
    obtain ⟨head, hhead, tail, htail, -⟩ := h
    exact ⟨binds_of_resolveType node hhead, binds_of_resolveAll nodes htail⟩

end

/-! ### What they stand for -/

/-- Whether a type can be closed over arguments depends on their number. -/
theorem close?_of_length_eq {definition : TypeId} {arguments others : List TypeExpr}
    {type : TypeExpr} (hlength : others.length = arguments.length)
    (h : catalog.close? definition arguments = some type) :
    ∃ otherType, catalog.close? definition others = some otherType := by
  by_cases hnil : arguments = []
  · have hothers : others = [] := List.eq_nil_of_length_eq_zero (by rw [hlength, hnil]; rfl)
    exact ⟨_, if_pos hothers⟩
  · have hothers : others ≠ [] := by
      intro heq
      rw [heq] at hlength
      exact hnil (List.eq_nil_of_length_eq_zero hlength.symm)
    rw [close?, if_neg hnil, ← hlength] at h
    rw [close?, if_neg hothers]
    split at h
    · next hcount => exact ⟨_, if_pos hcount⟩
    · cases h

mutual

/-- A tree that means a type under some bindings means one under all that bind its parameters. -/
theorem exists_resolveType : (node : Node) → Binds bindings node → ∀ {type : TypeExpr},
    catalog.resolveType other node = some type →
      ∃ found, catalog.resolveType bindings node = some found
  | .root _, _, type, h => ⟨type, h⟩
  | .child scope _, hbinds, _, h => by
    simp only [resolveType, Option.bind_eq_bind, Option.bind_eq_some_iff] at h ⊢
    obtain ⟨⟨outer, bound⟩, hscope, definition, hdefinition, hclose⟩ := h
    obtain ⟨found, hfound, hlength⟩ := exists_resolveScope scope hbinds hscope
    obtain ⟨type, htype⟩ := close?_of_length_eq hlength hclose
    exact ⟨type, (outer, found), hfound, definition, hdefinition, htype⟩
  | .closed (.root _) arguments, hbinds, _, h => by
    simp only [resolveType, Option.bind_eq_bind, Option.bind_eq_some_iff] at h ⊢
    obtain ⟨own, hown, definition, hdefinition, hclose⟩ := h
    obtain ⟨found, hfound, hlength⟩ := exists_resolveAll arguments hbinds.2 hown
    obtain ⟨type, htype⟩ := close?_of_length_eq hlength hclose
    exact ⟨type, found, hfound, definition, hdefinition, htype⟩
  | .closed (.child scope _) arguments, hbinds, _, h => by
    simp only [resolveType, Option.bind_eq_bind, Option.bind_eq_some_iff] at h ⊢
    obtain ⟨own, hown, ⟨outer, bound⟩, hscope, definition, hdefinition, hclose⟩ := h
    obtain ⟨foundOwn, hfoundOwn, hownLength⟩ := exists_resolveAll arguments hbinds.2 hown
    obtain ⟨found, hfound, hlength⟩ := exists_resolveScope scope hbinds.1 hscope
    have hboth : (found ++ foundOwn).length = (bound ++ own).length := by
      rw [List.length_append, List.length_append, hlength, hownLength]
    obtain ⟨type, htype⟩ := close?_of_length_eq hboth hclose
    exact ⟨type, foundOwn, hfoundOwn, (outer, found), hfound, definition, hdefinition, htype⟩
  | .closed (.closed ..) _, _, _, h | .closed (.array ..) _, _, _, h
  | .closed (.byRef _) _, _, _, h | .closed (.pointer _) _, _, _, h
  | .closed (.typeParam _) _, _, _, h | .closed (.methodParam _) _, _, _, h
  | .closed (.method ..) _, _, _, h | .method .., _, _, h => by
    cases h
  | .array element _, hbinds, _, h => by
    obtain ⟨_, helement, -⟩ := Option.map_eq_some_iff.mp h
    obtain ⟨found, hfound⟩ := exists_resolveType element hbinds helement
    exact ⟨_, Option.map_eq_some_iff.mpr ⟨found, hfound, rfl⟩⟩
  | .byRef target, hbinds, _, h | .pointer target, hbinds, _, h => by
    obtain ⟨_, htarget, -⟩ := Option.map_eq_some_iff.mp h
    obtain ⟨found, hfound⟩ := exists_resolveType target hbinds htarget
    exact ⟨_, Option.map_eq_some_iff.mpr ⟨found, hfound, rfl⟩⟩
  | .typeParam _, hbinds, _, _ | .methodParam _, hbinds, _, _ =>
    ⟨_, List.getElem?_eq_getElem hbinds⟩

theorem exists_resolveScope : (node : Node) → Binds bindings node →
    ∀ {name : Text} {bound : List TypeExpr},
      catalog.resolveScope other node = some (name, bound) →
      ∃ found, catalog.resolveScope bindings node = some (name, found) ∧
        found.length = bound.length
  | .root _, _, _, bound, h => ⟨bound, h, rfl⟩
  | .child scope _, hbinds, _, _, h => by
    simp only [resolveScope, Option.bind_eq_bind, Option.bind_eq_some_iff] at h
    obtain ⟨⟨outer, bound⟩, hscope, heq⟩ := h
    cases heq
    obtain ⟨found, hfound, hlength⟩ := exists_resolveScope scope hbinds hscope
    refine ⟨found, ?_, hlength⟩
    rw [resolveScope, hfound]
    rfl
  | .closed generic arguments, hbinds, _, _, h => by
    simp only [resolveScope, Option.bind_eq_bind, Option.bind_eq_some_iff] at h
    obtain ⟨⟨name, bound⟩, hgeneric, own, hown, closed, hclosed, heq⟩ := h
    cases heq
    obtain ⟨found, hfound, hlength⟩ := exists_resolveScope generic hbinds.1 hgeneric
    obtain ⟨foundOwn, hfoundOwn, hownLength⟩ := exists_resolveAll arguments hbinds.2 hown
    refine ⟨found ++ foundOwn, ?_, ?_⟩
    · simp only [resolveScope, hfound, hfoundOwn, Option.bind_eq_bind, Option.bind_some, hclosed]
      rfl
    · rw [List.length_append, List.length_append, hlength, hownLength]

theorem exists_resolveAll : (nodes : List Node) → BindsAll bindings nodes →
    ∀ {types : List TypeExpr}, catalog.resolveAll other nodes = some types →
      ∃ found, catalog.resolveAll bindings nodes = some found ∧ found.length = types.length
  | [], _, types, h => ⟨types, h, rfl⟩
  | node :: nodes, hbinds, _, h => by
    simp only [resolveAll, Option.bind_eq_bind, Option.bind_eq_some_iff] at h
    obtain ⟨head, hhead, tail, htail, heq⟩ := h
    cases heq
    obtain ⟨found, hfound⟩ := exists_resolveType node hbinds.1 hhead
    obtain ⟨others, hothers, hlength⟩ := exists_resolveAll nodes hbinds.2 htail
    refine ⟨found :: others, ?_, by rw [List.length_cons, List.length_cons, hlength]⟩
    rw [resolveAll, hfound, hothers]
    rfl

end

/-- Whether a tree means a type depends on the number of the parameters that are bound, and not on
what they stand for. -/
theorem resolveType_isSome_iff (node : Node) :
    (∃ type, catalog.resolveType bindings node = some type) ↔
      Binds bindings node ∧ ∃ other type, catalog.resolveType other node = some type := by
  constructor
  · rintro ⟨type, htype⟩
    exact ⟨binds_of_resolveType node htype, bindings, type, htype⟩
  · rintro ⟨hbinds, other, type, htype⟩
    exact exists_resolveType node hbinds htype

/-! ### Names that stand open -/

theorem eq_nil_of_resolveAll {nodes : List Node}
    (h : catalog.resolveAll bindings nodes = some []) : nodes = [] := by
  cases nodes with
  | nil => rfl
  | cons node nodes =>
    simp only [resolveAll, Option.bind_eq_bind, Option.bind_eq_some_iff] at h
    obtain ⟨_, -, _, -, heq⟩ := h
    cases heq

/-- A scope that binds nothing has no arguments, and means the same under all bindings. -/
theorem resolveScope_eq_nil : (node : Node) → ∀ {name : Text},
    catalog.resolveScope bindings node = some (name, []) →
      catalog.resolveScope other node = some (name, [])
  | .root _, _, h => h
  | .child scope _, _, h => by
    simp only [resolveScope, Option.bind_eq_bind, Option.bind_eq_some_iff] at h
    obtain ⟨⟨outer, bound⟩, hscope, heq⟩ := h
    cases heq
    rw [resolveScope, resolveScope_eq_nil scope hscope]
    rfl
  | .closed generic arguments, _, h => by
    simp only [resolveScope, Option.bind_eq_bind, Option.bind_eq_some_iff] at h
    obtain ⟨⟨name, bound⟩, hgeneric, own, hown, closed, hclosed, heq⟩ := h
    simp only [Option.pure_def, Option.some.injEq, Prod.mk.injEq, List.append_eq_nil_iff] at heq
    obtain ⟨rfl, rfl, rfl⟩ := heq
    have hnil : arguments = [] := eq_nil_of_resolveAll hown
    subst hnil
    simp only [resolveScope, resolveScope_eq_nil generic hgeneric, resolveAll,
      Option.bind_eq_bind, Option.bind_some, hclosed]
    rfl

/-- Whether a catalog type stands among what parameters stand for. -/
def BindsNames (bindings : Bindings) : Prop :=
  ∃ definition, .named definition ∈ bindings.typeArgs ++ bindings.methodArgs

theorem close?_eq_named {definition id : TypeId} {arguments : List TypeExpr}
    (h : catalog.close? definition arguments = some (.named id)) :
    arguments = [] ∧ definition = id := by
  rw [close?] at h
  split at h
  · next hnil =>
    cases h
    exact ⟨hnil, rfl⟩
  · split at h <;> cases h

/-- Whether a tree means a catalog type without arguments depends on no parameter, as long as no
parameter stands for one. -/
theorem resolveType_eq_named (hbindings : ¬ BindsNames bindings) : (node : Node) →
    ∀ {id : TypeId}, catalog.resolveType bindings node = some (.named id) →
      catalog.resolveType other node = some (.named id)
  | .root _, _, h => h
  | .child scope _, _, h => by
    simp only [resolveType, Option.bind_eq_bind, Option.bind_eq_some_iff] at h ⊢
    obtain ⟨⟨outer, bound⟩, hscope, definition, hdefinition, hclose⟩ := h
    obtain ⟨rfl, -⟩ := close?_eq_named hclose
    exact ⟨(outer, []), resolveScope_eq_nil scope hscope, definition, hdefinition, hclose⟩
  | .closed (.root _) arguments, _, h => by
    simp only [resolveType, Option.bind_eq_bind, Option.bind_eq_some_iff] at h ⊢
    obtain ⟨own, hown, definition, hdefinition, hclose⟩ := h
    obtain ⟨rfl, -⟩ := close?_eq_named hclose
    obtain rfl := eq_nil_of_resolveAll hown
    exact ⟨[], rfl, definition, hdefinition, hclose⟩
  | .closed (.child scope _) arguments, _, h => by
    simp only [resolveType, Option.bind_eq_bind, Option.bind_eq_some_iff] at h ⊢
    obtain ⟨own, hown, ⟨outer, bound⟩, hscope, definition, hdefinition, hclose⟩ := h
    obtain ⟨hnil, -⟩ := close?_eq_named hclose
    obtain ⟨rfl, rfl⟩ := List.append_eq_nil_iff.mp hnil
    obtain rfl := eq_nil_of_resolveAll hown
    exact ⟨[], rfl, (outer, []), resolveScope_eq_nil scope hscope, definition, hdefinition, hclose⟩
  | .closed (.closed ..) _, _, h | .closed (.array ..) _, _, h | .closed (.byRef _) _, _, h
  | .closed (.pointer _) _, _, h | .closed (.typeParam _) _, _, h
  | .closed (.methodParam _) _, _, h | .closed (.method ..) _, _, h | .method .., _, h => by
    cases h
  | .array _ _, _, h | .byRef _, _, h | .pointer _, _, h => by
    obtain ⟨_, -, heq⟩ := Option.map_eq_some_iff.mp h
    cases heq
  | .typeParam _, id, h =>
    absurd ⟨id, List.mem_append_left _ (List.mem_of_getElem? h)⟩ hbindings
  | .methodParam _, id, h =>
    absurd ⟨id, List.mem_append_right _ (List.mem_of_getElem? h)⟩ hbindings

end Catalog

end DocRef
