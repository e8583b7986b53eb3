import Cospend.Proofs.Store.Batch
import Cospend.Store.Basic
import Mathlib.Data.List.Dedup
import Mathlib.Data.List.Induction

/-!
# A batch of changes, written

Writing a batch of recorded changes leaves the table that the changes make one after the other. A
delta keeps no order among them: it may make its insertions in any order and its deletions after
them, because no key is ever in both, and the number that it counts is the number of keys changed.
-/

namespace Cospend

/-! ## Changes one after the other -/

namespace Table

variable {t : Table} {k : Bytes}

theorem getElem?_change_of_ne {c : Change} (h : c.key ≠ k) : (t.change c)[k]? = t[k]? := by
  cases c with
  | set key value => exact getElem?_insert_ne h
  | delete key => simp [change, Std.ExtTreeMap.getElem?_erase, show key ≠ k from h]

theorem getElem?_changeAll_of_not_mem {cs : List Change} (h : ∀ c ∈ cs, c.key ≠ k) :
    (t.changeAll cs)[k]? = t[k]? := by
  induction cs generalizing t with
  | nil => rfl
  | cons c cs ih =>
      have hrest := ih (t := t.change c) fun c' hc' => h c' (List.mem_cons_of_mem _ hc')
      exact hrest.trans (getElem?_change_of_ne (h c List.mem_cons_self))

end Table

namespace WriteBatch

variable {β : Type} [WriteBatch β]

theorem ofChanges_concat (cs : List Change) (c : Change) :
    (ofChanges (cs ++ [c]) : β) = record c (ofChanges cs) := by
  rw [ofChanges, List.foldl_append]
  rfl

/-- What holds of the empty batch and is kept when a change is recorded holds of every batch of changes. -/
theorem ofChanges_induction {motive : List Change → β → Prop} (hempty : motive [] empty)
    (hrecord : ∀ cs b c, motive cs b → motive (cs ++ [c]) (record c b)) (cs : List Change) :
    motive cs (ofChanges cs) := by
  induction cs using List.reverseRecOn with
  | nil => exact hempty
  | append_singleton cs c ih =>
      rw [ofChanges_concat]
      exact hrecord cs _ c ih

theorem isEmpty_iff {b : β} : isEmpty b = true ↔ size b = 0 := by simp [isEmpty]

end WriteBatch

/-- Any lawful batch makes the changes that were recorded in it, one after the other. -/
theorem LawfulBatch.applyTo_ofChanges {β : Type} [WriteBatch β] [LawfulBatch β] (cs : List Change)
    (t : Table) : WriteBatch.applyTo (WriteBatch.ofChanges cs : β) t = t.changeAll cs := by
  refine WriteBatch.ofChanges_induction (motive := fun cs b => WriteBatch.applyTo b t = t.changeAll cs)
    (applyTo_empty t) (fun cs b c ih => ?_) cs
  rw [applyTo_record, ih]
  simp only [Table.changeAll, List.foldl_append, List.foldl_cons, List.foldl_nil]

/-! ## The keys of a delta -/

namespace Delta

/-- No key is both set and deleted. -/
def Disjoint (d : Delta) : Prop := ∀ k, k ∈ d.insertions → k ∉ d.deletions

/-- Each key that is set and each that is deleted. -/
def keys (d : Delta) : List Bytes := d.insertions.keys ++ d.deletions.toList

variable {d : Delta} {k : Bytes}

theorem Disjoint.record (h : d.Disjoint) (c : Change) : (d.record c).Disjoint := by
  intro k hk
  cases c with
  | set key value =>
      simp only [Delta.record, Std.ExtTreeMap.mem_insert, Std.ExtTreeSet.mem_erase,
        ne_eq, Std.LawfulEqCmp.compare_eq_iff_eq, not_and] at hk ⊢
      intro hne
      exact h k (hk.resolve_left hne)
  | delete key =>
      simp only [Delta.record, Std.ExtTreeMap.mem_erase, Std.ExtTreeSet.mem_insert,
        ne_eq, Std.LawfulEqCmp.compare_eq_iff_eq, not_or] at hk ⊢
      exact ⟨hk.1, h k hk.2⟩

theorem disjoint_empty : empty.Disjoint := fun _ hk => absurd hk Std.ExtTreeMap.not_mem_empty

theorem disjoint_ofChanges (cs : List Change) : (WriteBatch.ofChanges cs : Delta).Disjoint :=
  WriteBatch.ofChanges_induction (motive := fun _ => Disjoint) disjoint_empty
    (fun _ _ c ih => ih.record c) cs

theorem mem_keys : k ∈ d.keys ↔ k ∈ d.insertions ∨ k ∈ d.deletions := by
  rw [keys, List.mem_append, Std.ExtTreeMap.mem_keys, Std.ExtTreeSet.mem_toList]

theorem mem_keys_record {c : Change} : k ∈ (d.record c).keys ↔ c.key = k ∨ k ∈ d.keys := by
  cases c with
  | set key value =>
      simp only [mem_keys, record, Change.key, Std.ExtTreeMap.mem_insert, Std.ExtTreeSet.mem_erase,
        ne_eq, Std.LawfulEqCmp.compare_eq_iff_eq]
      by_cases hk : key = k <;> simp [hk]
  | delete key =>
      simp only [mem_keys, record, Change.key, Std.ExtTreeMap.mem_erase, Std.ExtTreeSet.mem_insert,
        ne_eq, Std.LawfulEqCmp.compare_eq_iff_eq]
      by_cases hk : key = k <;> simp [hk]

theorem mem_keys_ofChanges {cs : List Change} :
    k ∈ (WriteBatch.ofChanges cs : Delta).keys ↔ k ∈ cs.map Change.key := by
  refine WriteBatch.ofChanges_induction
    (motive := fun cs (d : Delta) => k ∈ d.keys ↔ k ∈ cs.map Change.key) ?_ (fun cs d c ih => ?_) cs
  · simp [mem_keys, WriteBatch.empty, empty]
  · refine mem_keys_record.trans ?_
    rw [ih, List.map_append, List.mem_append, List.map_singleton, List.mem_singleton, or_comm, eq_comm]

theorem Disjoint.nodup_keys (h : d.Disjoint) : d.keys.Nodup := by
  refine List.nodup_append'.mpr ⟨Std.ExtTreeMap.nodup_keys, ?_, fun k hins hdel => ?_⟩
  · refine (Std.ExtTreeSet.distinct_toList (t := d.deletions)).imp fun hne he => hne ?_
    exact Std.LawfulEqCmp.compare_eq_iff_eq.mpr he
  · exact h k (Std.ExtTreeMap.mem_keys.mp hins) (Std.ExtTreeSet.mem_toList.mp hdel)

theorem size_eq_length_keys : d.size = d.keys.length := by
  rw [size, keys, List.length_append, Std.ExtTreeMap.length_keys, Std.ExtTreeSet.length_toList]

/-- A delta counts every key once, however often it was changed. -/
theorem size_ofChanges (cs : List Change) :
    (WriteBatch.ofChanges cs : Delta).size = (cs.map Change.key).dedup.length := by
  rw [size_eq_length_keys]
  refine List.Perm.length_eq ?_
  refine (List.perm_ext_iff_of_nodup (disjoint_ofChanges cs).nodup_keys (List.nodup_dedup _)).mpr ?_
  exact fun k => mem_keys_ofChanges.trans List.mem_dedup.symm

/-- A delta makes the same table in whatever order its keys are taken. -/
theorem applyInOrder_eq_applyTo {ins : List (Bytes × Bytes)} {dels : List Bytes}
    (hins : ins.Perm d.insertions.toList) (hdels : dels.Perm d.deletions.toList) (t : Table) :
    applyInOrder ins dels t = d.applyTo t :=
  Std.ExtTreeMap.ext_getElem? fun k =>
    (getElem?_applyInOrder hins hdels t k).trans (getElem?_applyTo d t k).symm

end Delta

/-! ## The changes of a journal -/

theorem Journal.toList_ofChanges (cs : List Change) :
    (WriteBatch.ofChanges cs : Journal).changes.toList = cs :=
  WriteBatch.ofChanges_induction (motive := fun cs (j : Journal) => j.changes.toList = cs) rfl
    (fun _ _ c ih => Array.toList_push.trans (congrArg (· ++ [c]) ih)) cs

/-! ## The write -/

theorem Store.write_of_lawful {β : Type} [WriteBatch β] [LawfulBatch β] (t : Table) (n : Nat)
    (cs : List Change) :
    Store.write ⟨t, .none, n⟩ (WriteBatch.ofChanges cs : β) =
      (.ok (), ⟨t.changeAll cs, .none, n + 1⟩) := by
  rw [← LawfulBatch.applyTo_ofChanges (β := β) cs t]
  rfl

/-- A delta and a journal of the same changes are written alike, and a delta is not bound to any order
of its keys. -/
theorem Store.write_ofChanges (t : Table) (n : Nat) (cs : List Change) :
    let delta : Delta := WriteBatch.ofChanges cs
    let journal : Journal := WriteBatch.ofChanges cs
    let written : Except StoreError Unit × Store := (.ok (), ⟨t.changeAll cs, .none, n + 1⟩)
    (Store.write ⟨t, .none, n⟩ delta = written ∧ Store.write ⟨t, .none, n⟩ journal = written) ∧
      (journal.replay = delta ∧ delta.Disjoint ∧
        ∀ ins dels, ins.Perm delta.insertions.toList → dels.Perm delta.deletions.toList →
          Delta.applyInOrder ins dels t = t.changeAll cs) ∧
      (WriteBatch.size delta = (cs.map Change.key).dedup.length ∧
        WriteBatch.size journal = cs.length) ∧
      (WriteBatch.isEmpty delta = true ↔ cs = []) ∧ (WriteBatch.isEmpty journal = true ↔ cs = []) := by
  intro delta journal written
  have hsize : WriteBatch.size delta = (cs.map Change.key).dedup.length := Delta.size_ofChanges cs
  have hcount : WriteBatch.size journal = cs.length :=
    Array.length_toList.symm.trans (congrArg List.length (Journal.toList_ofChanges cs))
  have hreplay : journal.replay = delta :=
    congrArg WriteBatch.ofChanges (Journal.toList_ofChanges cs)
  refine ⟨⟨write_of_lawful t n cs, write_of_lawful t n cs⟩,
    ⟨hreplay, Delta.disjoint_ofChanges cs, fun ins dels hins hdels => ?_⟩, ⟨hsize, hcount⟩, ?_, ?_⟩
  · rw [Delta.applyInOrder_eq_applyTo hins hdels]
    exact LawfulBatch.applyTo_ofChanges (β := Delta) cs t
  · rw [WriteBatch.isEmpty_iff, hsize, List.length_eq_zero_iff, List.dedup_eq_nil, List.map_eq_nil_iff]
  · rw [WriteBatch.isEmpty_iff, hcount, List.length_eq_zero_iff]

/-- One key is set, deleted and set again, and the keys are taken against their order. -/
theorem Store.write_alternating :
    let t : Table := Table.changeAll ∅ [.set [1] [20], .set [2] [20]]
    let cs : List Change :=
      [.set [1] [21], .delete [1], .delete [4], .set [3] [22], .set [2] [23], .delete [2], .set [1] [24]]
    let delta : Delta := WriteBatch.ofChanges cs
    [([3], [22]), ([1], [24])].Perm delta.insertions.toList ∧
      [[4], [2]].Perm delta.deletions.toList ∧
      Delta.applyInOrder [([3], [22]), ([1], [24])] [[4], [2]] t = t.changeAll cs ∧
      (t.changeAll cs).toList = [([1], [24]), ([3], [22])] ∧ WriteBatch.size delta = 4 := by
  intro t cs delta
  have hins : [([3], [22]), ([1], [24])].Perm delta.insertions.toList := by decide +kernel
  have hdels : [[4], [2]].Perm delta.deletions.toList := by decide +kernel
  obtain ⟨-, ⟨-, -, horder⟩, ⟨hsize, -⟩, -⟩ := write_ofChanges t 0 cs
  refine ⟨hins, hdels, horder _ _ hins hdels, by decide +kernel, hsize.trans ?_⟩
  decide +kernel

end Cospend
