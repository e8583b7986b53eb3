import Cospend.Proofs.Partition.Edits
import Cospend.Proofs.Partition.Overlay

/-!
# Everything that changes is staged

Each elementary change of a workspace changes the partition in a way that can be repeated on any
partition that is alike, and what it stages makes the same change to the partition that the pending
writes led to. So the two partitions stay alike, and if they were one they stay one.
-/

namespace Cospend.Workspace

variable {β : Type} [WriteBatch β] [LawfulBatch β]
variable {w w' w'' : Workspace β} {a b : Address}

/-- What was changed from `w` to `w'` was staged, for every partition that the pending writes may have
led to. -/
structure Staged (w w' : Workspace β) : Prop where
  numbered : w'.partition.Numbered
  checkpoint_eq : w'.pending.checkpoint = w.pending.checkpoint
  change : ∃ change : Partition → Partition, w'.partition = change w.partition ∧
    ∀ q, Partition.Alike q w.partition → Partition.Alike (change q) w'.partition ∧
      ∀ t, w.pending.LeadsTo t q → w'.pending.LeadsTo t (change q)

namespace Staged

omit [LawfulBatch β]

theorem refl (hw : w.partition.Numbered) : Staged w w :=
  ⟨hw, rfl, id, rfl, fun _ hq => ⟨hq, fun _ h => h⟩⟩

theorem trans (h : Staged w w') (h' : Staged w' w'') : Staged w w'' := by
  obtain ⟨-, hcheckpoint, change, heq, hchange⟩ := h
  obtain ⟨hw'', hcheckpoint', change', heq', hchange'⟩ := h'
  refine ⟨hw'', hcheckpoint'.trans hcheckpoint, change' ∘ change, by rw [heq', heq]; rfl, ?_⟩
  intro q hq
  obtain ⟨hq', hleads⟩ := hchange q hq
  obtain ⟨hq'', hleads'⟩ := hchange' _ hq'
  exact ⟨hq'', fun t h => hleads' t (hleads t h)⟩

/-- Pending writes that led to the partition lead to the one that it became. -/
theorem leadsTo (h : Staged w w') (hw : w.partition.Sound) {t : Table}
    (hleads : w.pending.LeadsTo t w.partition) : w'.pending.LeadsTo t w'.partition := by
  obtain ⟨change, heq, hchange⟩ := h.change
  rw [heq]
  exact (hchange _ hw.alike).2 t hleads

end Staged

/-! ## The operations one by one -/

theorem staged_add (hw : w.partition.Numbered) (ha : w.partition.ids[a]? = none)
    (hroom : w.partition.size + 1 < Partition.capacityLimit) : Staged w (w.add a) := by
  refine ⟨hw.add ha hroom, w.checkpoint_add a, fun q => q.add a, rfl, fun q hq => ⟨hq.add a, fun t h => ?_⟩⟩
  exact add_leadsTo h (hq.numbered hw).toSound hq.size_eq.symm a

omit [LawfulBatch β] in
/-- The same nodes are moved in a partition that is alike, and it stays alike. -/
theorem alike_shorten (hw : w.partition.Sound) {q : Partition} (hq : Partition.Alike q w.partition)
    (i : Nat) :
    let c := w.partition.forest.compress i
    Partition.Alike { q with forest := q.forest.reparent c.moved c.root } (w.shorten c).partition :=
  have hmoved := hq.forest.sound_left.reparent fun _ hj => hq.forest.compress_moved hj
  (Partition.alike_of_forest hmoved).trans
    (hq.trans (Partition.alike_of_forest (hw.forest.compress i)).symm)

theorem shorten_compress_leadsTo {q : Partition} {t : Table} (hq : Partition.Alike q w.partition)
    (i : Nat) (h : w.pending.LeadsTo t q) :
    let c := w.partition.forest.compress i
    (w.shorten c).pending.LeadsTo t { q with forest := q.forest.reparent c.moved c.root } := by
  refine shorten_leadsTo h fun j hj => Forest.lt_size_of_root_ne ?_
  obtain ⟨hroot, hne⟩ := hq.forest.compress_moved hj
  rw [hroot]
  exact hne.symm

theorem staged_shorten (hw : w.partition.Numbered) (i : Nat) :
    Staged w (w.shorten (w.partition.forest.compress i)) := by
  have hp := Partition.alike_of_forest (hw.forest.compress i)
  refine ⟨hp.numbered hw, w.checkpoint_shorten _,
    fun q => { q with forest := q.forest.reparent _ _ }, rfl, fun q hq => ?_⟩
  exact ⟨alike_shorten hw.toSound hq i, fun t h => shorten_compress_leadsTo hq i h⟩

theorem staged_join (hw : w.partition.Numbered) {l : Forest.Link} (hl : l.Fits w.partition.forest) :
    Staged w (w.join l) := by
  refine ⟨hw.link hl, w.checkpoint_join l,
    fun q => { q with forest := q.forest.link l }, rfl, fun q hq => ?_⟩
  have hl' := hl.of_alike hq.symm.forest
  exact ⟨hq.link hl', fun t h => join_leadsTo h (hq.numbered hw).toSound hl'⟩

/-! ## Registering, finding and merging -/

theorem Edits.staged (h : Edits w w') (hw : w.partition.Numbered) : Staged w w' := by
  induction h with
  | refl => exact .refl hw
  | add _ ha hroom ih => exact ih.trans (staged_add ih.numbered ha hroom)
  | shorten _ i ih => exact ih.trans (staged_shorten ih.numbered i)
  | join _ hl _ ih => exact ih.trans (staged_join ih.numbered hl)

theorem staged_register (hw : w.partition.Numbered) (a : Address) : Staged w (register a w).2 :=
  (edits_register w a).staged hw

theorem staged_find (hw : w.partition.Numbered) (a : Address) : Staged w (find a w).2 :=
  (edits_find w a).staged hw

theorem staged_union (hw : w.partition.Numbered) (a b : Address) : Staged w (union a b w).2 :=
  (edits_union hw.toSound a b).staged hw

end Cospend.Workspace
