import DocRef.Proofs.TypeExpr
import DocRef.Substitution

/-!
The parameters in a type, and types that are put in their place. What comes out depends on no other
parameters (`replace_congr`), and to replace parameters and then those of what was put in is to
replace them once (`replace_replace`). A substitution replaces the parameters that it binds
(`apply_eq_replace`).
-/

namespace DocRef

namespace TypeExpr

/-- A property of all types, from one case for each way to build a type. -/
@[elab_as_elim]
theorem inductionOn {motive : TypeExpr → Prop} (type : TypeExpr) (named : ∀ id, motive (.named id))
    (generic : ∀ definition arguments, (∀ type ∈ arguments, motive type) →
      motive (.generic definition arguments))
    (array : ∀ element rank, motive element → motive (.array element rank))
    (byRef : ∀ target, motive target → motive (.byRef target))
    (pointer : ∀ target, motive target → motive (.pointer target))
    (param : ∀ param, motive (.param param)) : motive type :=
  TypeExpr.rec (motive_2 := fun types => ∀ type ∈ types, motive type) named generic array byRef
    pointer param (fun _ h => absurd h List.not_mem_nil)
    (fun _ _ hhead htail => List.forall_mem_cons.mpr ⟨hhead, htail⟩) type

mutual

/-- The parameters in a type, in the order in which they stand there. -/
def params : TypeExpr → List GenericParam
  | .named _ => []
  | .generic _ arguments => allParams arguments
  | .array element _ => element.params
  | .byRef target | .pointer target => target.params
  | .param p => [p]

/-- The parameters in several types. -/
def allParams : List TypeExpr → List GenericParam
  | [] => []
  | type :: types => type.params ++ allParams types

end

theorem mem_allParams {param : GenericParam} {types : List TypeExpr} :
    param ∈ allParams types ↔ ∃ type ∈ types, param ∈ type.params := by
  induction types with
  | nil => simp [allParams]
  | cons type types ih => simp [allParams, ih]

/-- The parameters of a type in scope are owned. -/
theorem WellScoped.owns_of_mem_params {arity? : TypeId → Option Nat} {owns : GenericParam → Prop}
    {type : TypeExpr} (h : type.WellScoped arity? owns) : ∀ param ∈ type.params, owns param := by
  induction h with
  | named => exact List.forall_mem_nil _
  | generic _ _ _ ih =>
    intro param hparam
    obtain ⟨type, htype, hparam⟩ := mem_allParams.mp hparam
    exact ih type htype param hparam
  | array _ ih | byRef _ ih | pointer _ ih => exact ih
  | param hparam => exact List.forall_mem_singleton.mpr hparam

section Replace

variable (meaning : GenericParam → TypeExpr)

mutual

/-- A type with other types in the place of its parameters, all at once. -/
def replace : TypeExpr → TypeExpr
  | .named id => .named id
  | .generic definition arguments => .generic definition (replaceAll arguments)
  | .array element rank => .array element.replace rank
  | .byRef target => .byRef target.replace
  | .pointer target => .pointer target.replace
  | .param p => meaning p

/-- Several types with other types in the place of their parameters. -/
def replaceAll : List TypeExpr → List TypeExpr
  | [] => []
  | type :: types => type.replace :: replaceAll types

end

theorem replaceAll_eq_map (types : List TypeExpr) :
    replaceAll meaning types = types.map (replace meaning) := by
  induction types with
  | nil => rfl
  | cons type types ih => rw [replaceAll, ih, List.map_cons]

end Replace

section Laws

variable {f g : GenericParam → TypeExpr}

theorem replace_congr {type : TypeExpr} (h : ∀ param ∈ type.params, f param = g param) :
    type.replace f = type.replace g := by
  induction type using inductionOn with
  | named => rfl
  | generic definition arguments ih =>
    rw [replace, replace, replaceAll_eq_map, replaceAll_eq_map]
    refine congrArg (TypeExpr.generic definition) (List.map_congr_left fun type htype => ?_)
    exact ih type htype fun param hparam => h param (mem_allParams.mpr ⟨type, htype, hparam⟩)
  | array element rank ih => rw [replace, replace, ih h]
  | byRef target ih => rw [replace, replace, ih h]
  | pointer target ih => rw [replace, replace, ih h]
  | param param => exact h param List.mem_cons_self

theorem replace_param (type : TypeExpr) : type.replace .param = type := by
  induction type using inductionOn with
  | named => rfl
  | param => rfl
  | generic definition arguments ih =>
    rw [replace, replaceAll_eq_map, List.map_congr_left ih, List.map_id']
  | array element rank ih => rw [replace, ih]
  | byRef target ih => rw [replace, ih]
  | pointer target ih => rw [replace, ih]

/-- Replacing parameters and then those of what was put in is replacing them once. -/
theorem replace_replace (type : TypeExpr) :
    (type.replace f).replace g = type.replace fun param => (f param).replace g := by
  induction type using inductionOn with
  | named | param => rfl
  | generic definition arguments ih =>
    rw [replace, replace, replace, replaceAll_eq_map, replaceAll_eq_map, replaceAll_eq_map,
      List.map_map]
    exact congrArg (TypeExpr.generic definition) (List.map_congr_left ih)
  | array element rank ih => rw [replace, replace, replace, ih]
  | byRef target ih => rw [replace, replace, replace, ih]
  | pointer target ih => rw [replace, replace, replace, ih]

/-- The parameters that stand in a type afterwards come from what was put in. -/
theorem mem_params_replace {type : TypeExpr} {param : GenericParam} :
    param ∈ (type.replace f).params ↔ ∃ source ∈ type.params, param ∈ (f source).params := by
  induction type using inductionOn with
  | named => simp [replace, params]
  | generic definition arguments ih =>
    rw [replace, replaceAll_eq_map, params, params, mem_allParams]
    constructor
    · rintro ⟨_, hreplaced, hparam⟩
      obtain ⟨type, htype, rfl⟩ := List.mem_map.mp hreplaced
      obtain ⟨source, hsource, hparam⟩ := (ih type htype).mp hparam
      exact ⟨source, mem_allParams.mpr ⟨type, htype, hsource⟩, hparam⟩
    · rintro ⟨source, hsource, hparam⟩
      obtain ⟨type, htype, hsource⟩ := mem_allParams.mp hsource
      exact ⟨_, List.mem_map_of_mem htype, (ih type htype).mpr ⟨source, hsource, hparam⟩⟩
  | array element rank ih => exact ih
  | byRef target ih => exact ih
  | pointer target ih => exact ih
  | param param => simp [replace, params]

/-- A type in scope stays in scope where its parameters stand for types in scope. -/
theorem WellScoped.replace {arity? : TypeId → Option Nat} {owns owns' : GenericParam → Prop}
    {type : TypeExpr} (h : type.WellScoped arity? owns)
    (hparams : ∀ param, owns param → (f param).WellScoped arity? owns') :
    (type.replace f).WellScoped arity? owns' := by
  induction h with
  | named harity => exact .named harity
  | @generic definition arguments hne harity _ ih =>
    rw [TypeExpr.replace, replaceAll_eq_map]
    refine .generic ?_ ?_ ?_
    · rwa [Ne, List.map_eq_nil_iff]
    · rwa [List.length_map]
    · intro type htype
      obtain ⟨argument, hargument, rfl⟩ := List.mem_map.mp htype
      exact ih argument hargument
  | array _ ih => exact .array ih
  | byRef _ ih => exact .byRef ih
  | pointer _ ih => exact .pointer ih
  | param hparam => exact hparams _ hparam

end Laws

end TypeExpr

namespace Substitution

/-- What a parameter stands for: itself, if it is not bound. -/
def meaning (σ : Substitution) (param : GenericParam) : TypeExpr :=
  (σ.find? param).getD (.param param)

theorem meaning_of_find? {σ : Substitution} {param : GenericParam} {type : TypeExpr}
    (h : σ.find? param = some type) : σ.meaning param = type := by
  rw [meaning, h, Option.getD_some]

theorem meaning_of_find?_eq_none {σ : Substitution} {param : GenericParam}
    (h : σ.find? param = none) : σ.meaning param = .param param := by
  rw [meaning, h, Option.getD_none]

/-- A substitution replaces the parameters that it binds. -/
theorem apply_eq_replace (σ : Substitution) (type : TypeExpr) :
    σ.apply type = type.replace σ.meaning := by
  induction type using TypeExpr.inductionOn with
  | named | param => rfl
  | generic definition arguments ih =>
    rw [apply, TypeExpr.replace, applyAll_eq_map, TypeExpr.replaceAll_eq_map,
      List.map_congr_left ih]
  | array element rank ih => rw [apply, TypeExpr.replace, ih]
  | byRef target ih => rw [apply, TypeExpr.replace, ih]
  | pointer target ih => rw [apply, TypeExpr.replace, ih]

theorem apply_identity (target : TypeId) (type : TypeExpr) : (identity target).apply type = type := by
  rw [apply_eq_replace]
  exact type.replace_param

end Substitution

end DocRef
