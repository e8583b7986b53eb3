import Cospend.Chain.Address
import Cospend.Proofs.Sorting

/-!
# Addresses in order

The order of the addresses in a list does not matter for the list in order, and the list in order has
the same members.
-/

namespace Cospend.Address

variable {as bs : List Address} {a b c : Address}

theorem le_trans (hab : le a b = true) (hbc : le b c = true) : le a c = true :=
  Std.TransCmp.isLE_trans hab hbc

theorem le_total (a b : Address) : le a b = true ∨ le b a = true := by
  have hswap : compare b a = (compare a b).swap := Std.OrientedCmp.eq_swap
  rw [le, le, hswap]
  cases compare a b <;> simp

theorem le_antisymm (hab : le a b = true) (hba : le b a = true) : a = b :=
  Std.LawfulEqCmp.eq_of_compare (Std.OrientedCmp.isLE_antisymm hab hba)

theorem sort_perm (as : List Address) : (sort as).Perm as := sortBy_perm le as

@[simp] theorem mem_sort : a ∈ sort as ↔ a ∈ as := (sort_perm as).mem_iff

theorem pairwise_sort (as : List Address) : (sort as).Pairwise fun a b => le a b = true :=
  @pairwise_sortBy Address le le_trans le_total as

theorem sort_eq_of_perm (h : as.Perm bs) : sort as = sort bs := by
  have hperm : (sort as).Perm (sort bs) := (sort_perm as).trans (h.trans (sort_perm bs).symm)
  exact hperm.eq_of_pairwise (fun _ _ _ _ => le_antisymm) (pairwise_sort as) (pairwise_sort bs)

end Cospend.Address
