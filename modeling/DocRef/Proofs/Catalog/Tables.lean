import DocRef.Proofs.TypeExpr
import Mathlib.Data.List.Nodup

/-! Looking up types in the tables of a catalog, by id and by name. -/

namespace DocRef.Catalog

variable {catalog : Catalog} {id : TypeId} {type : TypeDef} {name : Text}

/-- The number of generic parameters of a type of the catalog. -/
def arity? (catalog : Catalog) (id : TypeId) : Option Nat :=
  (catalog.typeDef? id).map (·.genericParams.length)

theorem arity?_eq_some (h : catalog.typeDef? id = some type) :
    catalog.arity? id = some type.genericParams.length := by
  rw [arity?, h, Option.map_some]

theorem typeDef?_of_arity? {count : Nat} (h : catalog.arity? id = some count) :
    ∃ type, catalog.typeDef? id = some type ∧ type.genericParams.length = count :=
  Option.map_eq_some_iff.mp h

theorem genericArity_eq {count : Nat} (h : catalog.arity? id = some count) :
    catalog.genericArity id = count := by
  show (catalog.arity? id).getD 0 = count
  rw [h, Option.getD_some]

/-- Tables that agree in the parameters of all types agree in arities. -/
theorem arity?_congr {other : Catalog}
    (h : catalog.types.map (·.genericParams) = other.types.map (·.genericParams)) :
    catalog.arity? = other.arity? := by
  funext id
  have hget := congrArg (fun params : List (List Text) => params[id.index]?.map List.length) h
  simpa [List.getElem?_map, Function.comp_def, arity?, typeDef?] using hget

theorem typeDef?_of_typeNamed? (h : catalog.typeNamed? name = some id) :
    ∃ type, catalog.typeDef? id = some type ∧ type.name = name := by
  obtain ⟨index, hindex, rfl⟩ := Option.map_eq_some_iff.mp h
  obtain ⟨hlt, hname, -⟩ := List.findIdx?_eq_some_iff_getElem.mp hindex
  exact ⟨catalog.types[index], List.getElem?_eq_getElem hlt, of_decide_eq_true hname⟩

/-- Where names are distinct, a type is found by its name. -/
theorem typeNamed?_name (hnames : (catalog.types.map (·.name)).Nodup)
    (h : catalog.typeDef? id = some type) : catalog.typeNamed? type.name = some id := by
  obtain ⟨hlt, htype⟩ := List.getElem?_eq_some_iff.mp h
  have hindex : catalog.types.findIdx? (·.name = type.name) = some id.index := by
    rw [List.findIdx?_eq_some_iff_getElem]
    refine ⟨hlt, decide_eq_true (congrArg TypeDef.name htype), ?_⟩
    intro other hother hname
    have hsame : (catalog.types.map (·.name))[other]? = (catalog.types.map (·.name))[id.index]? := by
      rw [List.getElem?_map, List.getElem?_map, List.getElem?_eq_getElem hlt,
        List.getElem?_eq_getElem (Nat.lt_trans hother hlt), htype, Option.map_some, Option.map_some]
      exact congrArg some (of_decide_eq_true hname)
    have hplace : other < (catalog.types.map (·.name)).length := by
      rw [List.length_map]
      exact Nat.lt_trans hother hlt
    have heq : other = id.index := (List.getElem?_inj hplace hnames).mp hsame
    omega
  rw [typeNamed?, hindex, Option.map_some]

end DocRef.Catalog
