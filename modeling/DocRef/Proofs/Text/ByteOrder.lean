import DocRef.Text
import Mathlib.Data.List.Perm.Basic

/-!
The order of texts by their UTF-8 bytes. It is a linear order, because no two texts have the same bytes,
so a list has one sorted form whatever its order was before (`mergeSort_eq_of_perm`).
-/

namespace DocRef.Text

theorem utf8_injective : Function.Injective utf8 := by
  intro first second h
  have hbytes : (String.ofList first).toByteArray = (String.ofList second).toByteArray := by
    rw [String.toByteArray_ofList, String.toByteArray_ofList]
    exact congrArg List.toByteArray h
  exact String.ofList_injective (String.toByteArray_inj.mp hbytes)

theorem byteOrdered_iff {first second : Text} :
    byteOrdered first second = true ↔ first.utf8 ≤ second.utf8 :=
  decide_eq_true_iff

theorem byteOrdered_trans (first second third : Text) (hfirst : byteOrdered first second = true)
    (hsecond : byteOrdered second third = true) : byteOrdered first third = true :=
  byteOrdered_iff.mpr (List.le_trans (byteOrdered_iff.mp hfirst) (byteOrdered_iff.mp hsecond))

theorem byteOrdered_total (first second : Text) :
    (byteOrdered first second || byteOrdered second first) = true := by
  rw [Bool.or_eq_true, byteOrdered_iff, byteOrdered_iff]
  exact List.le_total first.utf8 second.utf8

theorem byteOrdered_antisymm {first second : Text} (hfirst : byteOrdered first second = true)
    (hsecond : byteOrdered second first = true) : first = second :=
  utf8_injective (List.le_antisymm (byteOrdered_iff.mp hfirst) (byteOrdered_iff.mp hsecond))

/-- Texts are sorted in one way only. -/
theorem mergeSort_eq_of_perm {texts others : List Text} (h : texts.Perm others) :
    texts.mergeSort byteOrdered = others.mergeSort byteOrdered := by
  have hsorted : ∀ list : List Text,
      (list.mergeSort byteOrdered).Pairwise fun first second => byteOrdered first second = true :=
    List.pairwise_mergeSort byteOrdered_trans byteOrdered_total
  have hperm : (texts.mergeSort byteOrdered).Perm (others.mergeSort byteOrdered) :=
    (List.mergeSort_perm texts _).trans (h.trans (List.mergeSort_perm others _).symm)
  exact hperm.eq_of_pairwise (fun _ _ _ _ => byteOrdered_antisymm) (hsorted texts) (hsorted others)

end DocRef.Text
