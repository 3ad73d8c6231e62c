import DocRef.Catalog

/-!
What the types of signatures are like. They are in scope (`WellScoped`), they are built as the grammar
writes types (`Shaped`, or `InOrder` but for the ranks of arrays), and most of their arrays have one
dimension (`IsFlat`). `map` carries a type over to another declaration's parameters.
-/

namespace DocRef

/-- Whether a parameter stands among the first `count` of an owner. -/
def GenericParam.BelongsTo (owner : ParamOwner) (count : Nat) (param : GenericParam) : Prop :=
  param.owner = owner ∧ param.position < count

namespace TypeExpr

/-- Whether a type is in scope: catalog types are there, generic ones are closed over as many
arguments as they have parameters, and at least one, and parameters are owned. -/
inductive WellScoped (arity? : TypeId → Option Nat) (owns : GenericParam → Prop) : TypeExpr → Prop
  | named {id : TypeId} {count : Nat} : arity? id = some count → WellScoped arity? owns (.named id)
  | generic {definition : TypeId} {arguments : List TypeExpr} : arguments ≠ [] →
      arity? definition = some arguments.length →
      (∀ type ∈ arguments, WellScoped arity? owns type) →
      WellScoped arity? owns (.generic definition arguments)
  | array {element : TypeExpr} {rank : Nat} : WellScoped arity? owns element →
      WellScoped arity? owns (.array element rank)
  | byRef {target : TypeExpr} : WellScoped arity? owns target → WellScoped arity? owns (.byRef target)
  | pointer {target : TypeExpr} : WellScoped arity? owns target →
      WellScoped arity? owns (.pointer target)
  | param {param : GenericParam} : owns param → WellScoped arity? owns (.param param)

theorem WellScoped.mono {arity? : TypeId → Option Nat} {owns owns' : GenericParam → Prop}
    {type : TypeExpr} (h : type.WellScoped arity? owns) (howns : ∀ param, owns param → owns' param) :
    type.WellScoped arity? owns' := by
  induction h with
  | named harity => exact .named harity
  | generic hne harity _ ih => exact .generic hne harity ih
  | array _ ih => exact .array ih
  | byRef _ ih => exact .byRef ih
  | pointer _ ih => exact .pointer ih
  | param hparam => exact .param (howns _ hparam)

/-- The parameters of a type may be told in one table, and the types it mentions in another one. -/
theorem WellScoped.restrict {arity? other? : TypeId → Option Nat} {owns : GenericParam → Prop}
    {type : TypeExpr} (h : type.WellScoped arity? owns)
    (hother : type.WellScoped other? fun _ => True) : type.WellScoped other? owns := by
  induction h with
  | named _ =>
    cases hother with
    | named harity => exact .named harity
  | generic hne _ _ ih =>
    cases hother with
    | generic _ harity harguments =>
      exact .generic hne harity fun type htype => ih type htype (harguments type htype)
  | array _ ih =>
    cases hother with
    | array helement => exact .array (ih helement)
  | byRef _ ih =>
    cases hother with
    | byRef htarget => exact .byRef (ih htarget)
  | pointer _ ih =>
    cases hother with
    | pointer htarget => exact .pointer (ih htarget)
  | param hparam => exact .param hparam

/-- Whether array suffixes and a mark may follow. -/
def isElement : TypeExpr → Bool
  | .byRef _ | .pointer _ => false
  | _ => true

/-- Whether a type is built as the grammar writes types: a by-ref type or a pointer is no part of a
larger type but its argument, and an array has a dimension. -/
inductive Shaped : TypeExpr → Prop
  | named {id : TypeId} : Shaped (.named id)
  | generic {definition : TypeId} {arguments : List TypeExpr} : (∀ type ∈ arguments, Shaped type) →
      Shaped (.generic definition arguments)
  | array {element : TypeExpr} {rank : Nat} : Shaped element → element.isElement → 1 ≤ rank →
      Shaped (.array element rank)
  | byRef {target : TypeExpr} : Shaped target → target.isElement → Shaped (.byRef target)
  | pointer {target : TypeExpr} : Shaped target → target.isElement → Shaped (.pointer target)
  | param {param : GenericParam} : Shaped (.param param)

/-- Whether suffixes stand in the order in which the grammar writes them, whatever the ranks of
arrays. -/
inductive InOrder : TypeExpr → Prop
  | named {id : TypeId} : InOrder (.named id)
  | generic {definition : TypeId} {arguments : List TypeExpr} : (∀ type ∈ arguments, InOrder type) →
      InOrder (.generic definition arguments)
  | array {element : TypeExpr} {rank : Nat} : InOrder element → element.isElement →
      InOrder (.array element rank)
  | byRef {target : TypeExpr} : InOrder target → target.isElement → InOrder (.byRef target)
  | pointer {target : TypeExpr} : InOrder target → target.isElement → InOrder (.pointer target)
  | param {param : GenericParam} : InOrder (.param param)

theorem Shaped.inOrder {type : TypeExpr} (h : type.Shaped) : type.InOrder := by
  induction h with
  | named => exact .named
  | generic _ ih => exact .generic ih
  | array _ helement _ ih => exact .array ih helement
  | byRef _ htarget ih => exact .byRef ih htarget
  | pointer _ htarget ih => exact .pointer ih htarget
  | param => exact .param

/-- Whether no array in a type has more than one dimension. -/
inductive IsFlat : TypeExpr → Prop
  | named {id : TypeId} : IsFlat (.named id)
  | generic {definition : TypeId} {arguments : List TypeExpr} : (∀ type ∈ arguments, IsFlat type) →
      IsFlat (.generic definition arguments)
  | array {element : TypeExpr} {rank : Nat} : IsFlat element → rank ≤ 1 → IsFlat (.array element rank)
  | byRef {target : TypeExpr} : IsFlat target → IsFlat (.byRef target)
  | pointer {target : TypeExpr} : IsFlat target → IsFlat (.pointer target)
  | param {param : GenericParam} : IsFlat (.param param)

section Map

variable (onParam : GenericParam → GenericParam) (onRank : Nat → Nat)

mutual

/-- A type with other parameters, and with arrays of other ranks. -/
def map : TypeExpr → TypeExpr
  | .named id => .named id
  | .generic definition arguments => .generic definition (mapAll arguments)
  | .array element rank => .array element.map (onRank rank)
  | .byRef target => .byRef target.map
  | .pointer target => .pointer target.map
  | .param p => .param (onParam p)

/-- Several types with other parameters and ranks. -/
def mapAll : List TypeExpr → List TypeExpr
  | [] => []
  | type :: types => type.map :: mapAll types

end

theorem mapAll_eq (types : List TypeExpr) :
    mapAll onParam onRank types = types.map (map onParam onRank) := by
  induction types with
  | nil => rfl
  | cons type types ih => rw [mapAll, ih, List.map_cons]

end Map

mutual

theorem map_id : (type : TypeExpr) → type.map id id = type
  | .named _ | .param _ => rfl
  | .generic _ arguments => by rw [map, mapAll_id arguments]
  | .array element _ => by rw [map, map_id element]; rfl
  | .byRef target => by rw [map, map_id target]
  | .pointer target => by rw [map, map_id target]

theorem mapAll_id : (types : List TypeExpr) → mapAll id id types = types
  | [] => rfl
  | type :: types => by rw [mapAll, map_id type, mapAll_id types]

end

/-- The rank that is read back from an array whose dimensions are not written. -/
def readRank (_ : Nat) : Nat := 1

/-- Of a type without larger arrays, no rank is lost. -/
theorem IsFlat.map_readRank {type : TypeExpr} (hflat : type.IsFlat) (hshaped : type.Shaped)
    (onParam : GenericParam → GenericParam) :
    type.map onParam readRank = type.map onParam id := by
  induction hflat with
  | named => rfl
  | generic _ ih =>
    cases hshaped with
    | generic harguments =>
      rw [map, map, mapAll_eq, mapAll_eq]
      exact congrArg _ (List.map_congr_left fun type htype => ih type htype (harguments type htype))
  | @array element rank _ hrank ih =>
    cases hshaped with
    | array helement _ hone =>
      have heq : readRank rank = rank := Nat.le_antisymm hone hrank
      rw [map, map, ih helement, heq]
      rfl
  | byRef _ ih =>
    cases hshaped with
    | byRef htarget _ => rw [map, map, ih htarget]
  | pointer _ ih =>
    cases hshaped with
    | pointer htarget _ => rw [map, map, ih htarget]
  | param => rfl

/-- With ranks as they are read back, no array has more than one dimension. -/
theorem map_readRank_isFlat {arity? : TypeId → Option Nat} {owns : GenericParam → Prop}
    {type : TypeExpr} (h : type.WellScoped arity? owns) (onParam : GenericParam → GenericParam) :
    (type.map onParam readRank).IsFlat := by
  induction h with
  | named => exact .named
  | generic _ _ _ ih =>
    rw [map, mapAll_eq]
    refine .generic fun type htype => ?_
    obtain ⟨argument, hargument, rfl⟩ := List.mem_map.mp htype
    exact ih argument hargument
  | array _ ih => exact .array ih (Nat.le_refl 1)
  | byRef _ ih => exact .byRef ih
  | pointer _ ih => exact .pointer ih
  | param => exact .param

end TypeExpr

end DocRef
