import Cospend.Export.Row
import Cospend.Proofs.Export.Relation
import Cospend.Proofs.Partition.Sound
import Cospend.Proofs.Sorting

/-!
# Rows of a partition

A partition that was finalized has one row for each registered address, with the number that stands for
its cluster. So the rows tell the clusters, in whatever order they come.
-/

namespace Cospend.Partition

variable {p : Partition} {r : Row}

theorem length_rows (p : Partition) : p.rows.length = p.ids.size := by
  rw [rows, rowsOf, List.length_map, length_sortBy, Std.ExtTreeMap.length_toList]

theorem nodup_rows (p : Partition) : p.rows.Nodup := by
  have hmem : ∀ {a : Address} {i : Nat}, (a, i) ∈ p.ids.toList ↔ p.ids[a]? = some i :=
    Std.ExtTreeMap.mem_toList_iff_getElem?_eq_some
  have hnodup : p.ids.toList.Nodup := p.ids.distinct_keys_toList.imp fun h he => by simp [he] at h
  refine List.Nodup.map_on ?_ ((sortBy_perm _ _).nodup_iff.mpr hnodup)
  rintro ⟨a, i⟩ ha ⟨b, j⟩ hb heq
  obtain rfl : a = b := congrArg Row.address heq
  have hi := hmem.mp (mem_sortBy.mp ha)
  have hj := hmem.mp (mem_sortBy.mp hb)
  rw [Option.some.inj (hi.symm.trans hj)]

theorem Sound.row_finalize (hp : p.Sound) (a : Address) (i : Nat) :
    p.finalize.row (a, i) = ⟨AddressId.ofNat (p.forest.root i), a⟩ := by
  rw [row, Partition.finalize, hp.forest.next_flatten]

/-- The rows are the registered addresses with their clusters. -/
theorem Sound.mem_rows (hp : p.Sound) :
    r ∈ p.finalize.rows ↔ (p.clusterOf r.address).map AddressId.ofNat = some r.cluster := by
  simp only [rows, rowsOf, List.mem_map, mem_sortBy, clusterOf, Option.map_map,
    Option.map_eq_some_iff, Function.comp_apply]
  constructor
  · rintro ⟨⟨a, i⟩, ha, rfl⟩
    rw [hp.row_finalize]
    exact ⟨i, Std.ExtTreeMap.mem_toList_iff_getElem?_eq_some.mp ha, rfl⟩
  · rintro ⟨i, hi, hcluster⟩
    refine ⟨(r.address, i), Std.ExtTreeMap.mem_toList_iff_getElem?_eq_some.mpr hi, ?_⟩
    rw [hp.row_finalize, hcluster]

theorem Sound.firstOf_rows (hp : p.Sound) {rows : List Row} (h : rows.Perm p.finalize.rows) (a : Address) :
    Row.firstOf rows a = (p.clusterOf a).map AddressId.ofNat := by
  rw [Row.firstOf]
  cases hfind : rows.find? fun r => r.address == a with
  | none =>
      cases hcluster : p.clusterOf a with
      | none => rfl
      | some c =>
          have hmem : (⟨AddressId.ofNat c, a⟩ : Row) ∈ rows := by
            rw [h.mem_iff, hp.mem_rows, hcluster]
            rfl
          have hnone := List.find?_eq_none.mp hfind _ hmem
          simp at hnone
  | some r =>
      have haddress : r.address = a := by simpa using List.find?_some hfind
      have hmem := hp.mem_rows.mp (h.mem_iff.mp (List.mem_of_find?_eq_some hfind))
      rw [← haddress, hmem]
      rfl

end Cospend.Partition
