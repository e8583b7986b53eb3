import Cospend.Proofs.Store.Entries
import Cospend.Store.Batch

/-!
# What batches do to a table

A batch is lawful if it makes its changes in the order in which they were recorded. A delta and a
journal both are, so that nothing else needs to be known of them.
-/

namespace Cospend

@[simp] theorem Table.change_set {t : Table} {k v : Bytes} : t.change (.set k v) = t.insert k v := rfl

/-- A batch makes its changes in the order in which they were recorded. -/
class LawfulBatch (β : Type) [WriteBatch β] : Prop where
  applyTo_empty (t : Table) : WriteBatch.applyTo (WriteBatch.empty : β) t = t
  applyTo_record (c : Change) (b : β) (t : Table) :
    WriteBatch.applyTo (WriteBatch.record c b) t = (WriteBatch.applyTo b t).change c

attribute [simp] LawfulBatch.applyTo_empty LawfulBatch.applyTo_record

namespace Delta

/-- Where a key is both set and deleted, the deletion wins, in whatever order the keys are taken. -/
theorem getElem?_applyInOrder {d : Delta} {ins : List (Bytes × Bytes)} {dels : List Bytes}
    (hins : ins.Perm d.insertions.toList) (hdels : dels.Perm d.deletions.toList) (t : Table)
    (k : Bytes) :
    (applyInOrder ins dels t)[k]? =
      if k ∈ d.deletions then none else d.insertions[k]?.or t[k]? := by
  rw [applyInOrder, getElem?_eraseAll]
  simp only [hdels.mem_iff, Std.ExtTreeSet.mem_toList]
  congr 1
  cases h : d.insertions[k]? with
  | none =>
      rw [Option.none_or]
      refine getElem?_putAll_of_not_mem fun v hv => ?_
      rw [hins.mem_iff, Std.ExtTreeMap.mem_toList_iff_getElem?_eq_some, h] at hv
      cases hv
  | some v =>
      rw [Option.some_or]
      refine getElem?_putAll_of_mem ?_ fun v' hv => ?_
      · rwa [hins.mem_iff, Std.ExtTreeMap.mem_toList_iff_getElem?_eq_some]
      · rw [hins.mem_iff, Std.ExtTreeMap.mem_toList_iff_getElem?_eq_some, h] at hv
        exact (Option.some.inj hv).symm

theorem getElem?_applyTo (d : Delta) (t : Table) (k : Bytes) :
    (d.applyTo t)[k]? =
      if k ∈ d.deletions then none else d.insertions[k]?.or t[k]? :=
  getElem?_applyInOrder .rfl .rfl t k

theorem applyTo_record (c : Change) (d : Delta) (t : Table) :
    (d.record c).applyTo t = (d.applyTo t).change c := by
  refine Std.ExtTreeMap.ext_getElem? fun k => ?_
  cases c with
  | set key value =>
      simp only [Table.change, Std.ExtTreeMap.getElem?_insert, getElem?_applyTo, record,
        Std.ExtTreeSet.mem_erase, Std.LawfulEqCmp.compare_eq_iff_eq]
      by_cases hk : key = k <;> simp [hk]
  | delete key =>
      simp only [Table.change, Std.ExtTreeMap.getElem?_erase, getElem?_applyTo, record,
        Std.ExtTreeSet.mem_insert, Std.LawfulEqCmp.compare_eq_iff_eq]
      by_cases hk : key = k <;> simp [hk]

instance : LawfulBatch Delta where
  applyTo_empty t := by
    refine Std.ExtTreeMap.ext_getElem? fun k => ?_
    rw [show WriteBatch.applyTo (WriteBatch.empty : Delta) t = empty.applyTo t from rfl,
      getElem?_applyTo]
    simp [empty]
  applyTo_record := applyTo_record

end Delta

namespace Journal

theorem replay_record (c : Change) (j : Journal) :
    ((j.record c).replay : Delta) = (j.replay : Delta).record c := by
  simp only [replay, record, Array.toList_push, WriteBatch.ofChanges, List.foldl_append]
  rfl

instance : LawfulBatch Journal where
  applyTo_empty t := LawfulBatch.applyTo_empty (β := Delta) t
  applyTo_record c j t := by
    change ((j.record c).replay : Delta).applyTo t = ((j.replay : Delta).applyTo t).change c
    rw [replay_record, Delta.applyTo_record]

end Journal

end Cospend
