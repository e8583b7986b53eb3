import Cospend.Sorting
import Mathlib.Data.List.Sort

/-!
# Sorted lists

To sort a list is to put its members in another order, in which none of them comes before one that it should
follow.
-/

namespace Cospend

variable {α : Type} {le : α → α → Bool} {as : List α} {a : α}

theorem insertBy_eq (le : α → α → Bool) (a : α) (as : List α) :
    insertBy le a as = as.orderedInsert (fun a b => le a b = true) a := by
  induction as with
  | nil => rfl
  | cons b bs ih => rw [insertBy, List.orderedInsert, ih]

theorem sortBy_eq (le : α → α → Bool) (as : List α) :
    sortBy le as = as.insertionSort fun a b => le a b = true := by
  induction as with
  | nil => rfl
  | cons a as ih => exact (insertBy_eq le a _).trans (congrArg (List.orderedInsert _ a) ih)

theorem sortBy_perm (le : α → α → Bool) (as : List α) : (sortBy le as).Perm as :=
  sortBy_eq le as ▸ List.perm_insertionSort _ as

@[simp] theorem mem_sortBy : a ∈ sortBy le as ↔ a ∈ as := (sortBy_perm le as).mem_iff

@[simp] theorem length_sortBy : (sortBy le as).length = as.length := (sortBy_perm le as).length_eq

theorem pairwise_sortBy (htrans : ∀ {a b c : α}, le a b = true → le b c = true → le a c = true)
    (htotal : ∀ a b : α, le a b = true ∨ le b a = true) (as : List α) :
    (sortBy le as).Pairwise fun a b => le a b = true := by
  have : IsTrans α fun a b => le a b = true := ⟨fun _ _ _ => htrans⟩
  have : Std.Total fun a b => le a b = true := ⟨htotal⟩
  exact sortBy_eq le as ▸ List.pairwise_insertionSort _ as

end Cospend
