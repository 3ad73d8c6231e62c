import DocRef.Proofs.TypeExpr.Parameters
import DocRef.Resolution

/-!
Resolution does not look into what parameters stand for. What it is given it only hands on, puts in
lists and counts, so a tree means under replaced bindings what it means under the bindings themselves,
with the same replacement made in the result (`resolveType_replace`). In particular, substituting before
resolving and after it comes to the same (`resolveType_apply`).
-/

namespace DocRef

variable {f : GenericParam → TypeExpr}

/-- Bindings with other types in the place of the parameters that stand in them. -/
def Bindings.replace (f : GenericParam → TypeExpr) (bindings : Bindings) : Bindings :=
  ⟨bindings.typeArgs.map (TypeExpr.replace f), bindings.methodArgs.map (TypeExpr.replace f)⟩

/-- What a scope spells and binds, with other types in the place of the parameters. -/
def replaceBound (f : GenericParam → TypeExpr) (scope : Text × List TypeExpr) :
    Text × List TypeExpr :=
  (scope.1, scope.2.map (TypeExpr.replace f))

namespace Catalog

variable {catalog : Catalog} {bindings : Bindings}

/-- Whether and how a type is closed depends on the number of the arguments. -/
theorem close?_replace (definition : TypeId) (arguments : List TypeExpr) :
    catalog.close? definition (arguments.map (TypeExpr.replace f)) =
      (catalog.close? definition arguments).map (TypeExpr.replace f) := by
  simp only [close?, List.map_eq_nil_iff, List.length_map]
  by_cases hnil : arguments = []
  · rw [if_pos hnil, if_pos hnil]
    rfl
  · rw [if_neg hnil, if_neg hnil]
    by_cases hcount : catalog.genericArity definition = arguments.length
    · rw [if_pos hcount, if_pos hcount, Option.map_some, TypeExpr.replace,
        TypeExpr.replaceAll_eq_map]
    · rw [if_neg hcount, if_neg hcount]
      rfl

/-- Closing a type that may have been found over replaced arguments. -/
theorem bind_close?_replace (definition? : Option TypeId) (arguments : List TypeExpr) :
    (definition?.bind fun definition =>
        catalog.close? definition (arguments.map (TypeExpr.replace f))) =
      (definition?.bind fun definition => catalog.close? definition arguments).map
        (TypeExpr.replace f) := by
  rw [Option.map_bind]
  exact congrArg definition?.bind (funext fun definition => close?_replace definition arguments)

mutual

/-- What a tree means under replaced bindings is what it means, replaced. -/
theorem resolveType_replace : (node : Node) →
    catalog.resolveType (bindings.replace f) node =
      (catalog.resolveType bindings node).map (TypeExpr.replace f)
  | .root text => bind_close?_replace (catalog.typeInScope? none text 0) []
  | .child scope text => by
    simp only [resolveType, resolveScope_replace scope, Option.bind_eq_bind]
    cases catalog.resolveScope bindings scope with
    | none => rfl
    | some found => exact bind_close?_replace (catalog.typeInScope? (some found.1) text 0) found.2
  | .closed (.root text) arguments => by
    simp only [resolveType, resolveAll_replace arguments, Option.bind_eq_bind]
    cases catalog.resolveAll bindings arguments with
    | none => rfl
    | some own => exact bind_close?_replace (catalog.typeInScope? none text arguments.length) own
  | .closed (.child scope text) arguments => by
    simp only [resolveType, resolveAll_replace arguments, resolveScope_replace scope,
      Option.bind_eq_bind]
    cases catalog.resolveAll bindings arguments with
    | none => rfl
    | some own =>
      cases catalog.resolveScope bindings scope with
      | none => rfl
      | some found =>
        show (catalog.typeInScope? (some found.1) text arguments.length).bind (fun definition =>
          catalog.close? definition
            (found.2.map (TypeExpr.replace f) ++ own.map (TypeExpr.replace f))) = _
        rw [← List.map_append]
        exact bind_close?_replace _ (found.2 ++ own)
  | .closed (.closed ..) _ | .closed (.array ..) _ | .closed (.byRef _) _ | .closed (.pointer _) _
  | .closed (.typeParam _) _ | .closed (.methodParam _) _ | .closed (.method ..) _
  | .method .. => rfl
  | .array inner _ | .byRef inner | .pointer inner => by
    rw [resolveType, resolveType, resolveType_replace inner, Option.map_map, Option.map_map]
    rfl
  | .typeParam position => List.getElem?_map
  | .methodParam position => List.getElem?_map

theorem resolveScope_replace : (node : Node) →
    catalog.resolveScope (bindings.replace f) node =
      (catalog.resolveScope bindings node).map (replaceBound f)
  | .root text => rfl
  | .child scope text => by
    rw [resolveScope, resolveScope, resolveScope_replace scope]
    cases catalog.resolveScope bindings scope <;> rfl
  | .closed generic arguments => by
    rw [resolveScope, resolveScope, resolveScope_replace generic, resolveAll_replace arguments]
    cases catalog.resolveScope bindings generic with
    | none => rfl
    | some found =>
      cases catalog.resolveAll bindings arguments with
      | none => rfl
      | some own =>
        show (closedName? found.1 arguments.length).bind _ = _
        cases hname : closedName? found.1 arguments.length with
        | none => simp [hname]
        | some name => simp [hname, replaceBound]
  | .array .. | .byRef _ | .pointer _ | .typeParam _ | .methodParam _ | .method .. => rfl

theorem resolveAll_replace : (nodes : List Node) →
    catalog.resolveAll (bindings.replace f) nodes =
      (catalog.resolveAll bindings nodes).map (List.map (TypeExpr.replace f))
  | [] => rfl
  | node :: nodes => by
    rw [resolveAll, resolveAll, resolveType_replace node, resolveAll_replace nodes]
    cases catalog.resolveType bindings node with
    | none => rfl
    | some type => cases catalog.resolveAll bindings nodes <;> rfl

end

/-- A tree under bindings to which a substitution is applied means what it means under the bindings
themselves, with the substitution applied to that; it means nothing under the ones if it means nothing
under the others. -/
theorem resolveType_apply (catalog : Catalog) (node : Node) (typeArgs methodArgs : List TypeExpr)
    (σ : Substitution) :
    catalog.resolveType ⟨typeArgs.map σ.apply, methodArgs.map σ.apply⟩ node =
      (catalog.resolveType ⟨typeArgs, methodArgs⟩ node).map σ.apply := by
  have happly : σ.apply = TypeExpr.replace σ.meaning := funext σ.apply_eq_replace
  have hreplace := @resolveType_replace σ.meaning catalog ⟨typeArgs, methodArgs⟩ node
  rw [Bindings.replace] at hreplace
  rw [happly]
  exact hreplace

end Catalog

end DocRef
