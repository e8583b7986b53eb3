import Cospend.Proofs.Forest.Ranked
import Cospend.Proofs.Session.Closure

/-!
# The ranks of a session

In every session the forest in memory is ranked and balanced, and so is the one that the store holds, with
whatever ways to the roots: an export shortens ways in memory and not in the store. So no way is longer
than the logarithm of the number of addresses, and no rank comes near the greatest one.
-/

namespace Cospend

/-! ## Ranked partitions -/

namespace Partition

variable {p q : Partition} {a b : Address}

/-- The forest of the partition is one that registering and linking by rank make. -/
structure ByRank (p : Partition) : Prop extends Numbered p where
  ranked : p.forest.Ranked
  balanced : p.forest.Balanced

theorem byRank_empty : empty.ByRank :=
  ⟨numbered_empty, Forest.ranked_empty, Forest.balanced_empty⟩

namespace ByRank

variable (hp : p.ByRank)
include hp

theorem shallow : p.forest.Shallow := hp.ranked.shallow hp.balanced hp.forest

theorem checkpointed (c : Option Height) : (p.checkpointed c).ByRank :=
  ⟨hp.toNumbered.checkpointed c, hp.ranked, hp.balanced⟩

theorem finalize : p.finalize.ByRank where
  toNumbered := hp.toSound.finalize.numbered hp.toNumbered
  ranked := hp.ranked.flatten hp.forest
  balanced := hp.balanced.of_alike hp.forest.flatten

/-- The weights are those of the trees, so they need not be looked at in a partition that is alike. -/
theorem of_alike (h : Alike q p) (hq : q.forest.Ranked) : q.ByRank :=
  ⟨h.numbered hp.toNumbered, hq, hp.balanced.of_alike h.forest⟩

/-- The ranks grow too slowly for a merge to be abandoned. -/
theorem merged_ne_abort {answer : Except (Failure PartitionError) Nat} {e : Abort}
    (h : p.Merged a b answer q) : answer ≠ .error (.abort e) := by
  intro habort
  obtain ⟨-, x, y, hx, -, -, hrank, -⟩ := h.aborts_iff.mp habort
  have hlt := hp.balanced.rankOf_lt (hp.clusterOf_lt hx) (hp.next_clusterOf hx)
  have hsize := hp.size_lt_uint64
  rw [hrank, show Forest.maxRank.toNat = UInt64.size - 1 from rfl] at hlt
  simp only [size] at hsize
  omega

end ByRank

end Partition

/-! ## Elementary changes -/

namespace Workspace

variable {β : Type} [WriteBatch β] {w w' : Workspace β}

theorem Edits.byRank (h : Edits w w') (hw : w.partition.ByRank) : w'.partition.ByRank := by
  induction h with
  | refl => exact hw
  | add _ ha hroom ih =>
      exact ⟨ih.toNumbered.add ha hroom, ih.ranked.push ih.forest, ih.balanced.push ih.forest⟩
  | shorten _ i ih =>
      have halike := Partition.alike_of_forest (ih.forest.compress i)
      exact Partition.ByRank.of_alike ih halike (ih.ranked.compress ih.forest i)
  | join _ hl hchoose ih =>
      exact ⟨ih.toNumbered.link hl, ih.ranked.link ih.forest hl hchoose,
        ih.balanced.link ih.forest hl hchoose⟩

/-- What is staged keeps the forest ranked that the pending writes lead to. -/
theorem Edits.shown [LawfulBatch β] (h : Edits w w') (hw : w.partition.Sound) {q : Partition}
    {t : Table} (hq : Partition.Alike q w.partition) (hranked : q.forest.Ranked)
    (hleads : w.pending.LeadsTo t q) :
    ∃ q', Partition.Alike q' w'.partition ∧ q'.forest.Ranked ∧ w'.pending.LeadsTo t q' := by
  induction h with
  | refl => exact ⟨q, hq, hranked, hleads⟩
  | @add w' a h _ _ ih =>
      obtain ⟨q', hq', hranked', hleads'⟩ := ih
      have hsound := hq'.sound (h.sound hw)
      exact ⟨q'.add a, hq'.add a, hranked'.push hsound.forest,
        add_leadsTo hleads' hsound hq'.size_eq.symm a⟩
  | @shorten w' h i ih =>
      obtain ⟨q', hq', hranked', hleads'⟩ := ih
      exact ⟨_, alike_shorten (h.sound hw) hq' i,
        hranked'.reparent hq'.forest.sound_left fun _ hj => hq'.forest.compress_moved hj,
        shorten_compress_leadsTo hq' i hleads'⟩
  | @join w' x y l h hl hchoose ih =>
      obtain ⟨q', hq', hranked', hleads'⟩ := ih
      have hl' := hl.of_alike hq'.symm.forest
      have hsound := hq'.sound (h.sound hw)
      rw [← hq'.forest.chooseLink_eq] at hchoose
      exact ⟨_, hq'.link hl', hranked'.link hsound.forest hl' hchoose,
        join_leadsTo hleads' hsound hl'⟩

end Workspace

/-! ## Every call keeps the ranks -/

namespace Session

variable {β : Type} [WriteBatch β] [LawfulBatch β] {s s' : Session β} {c : Call}

/-- The partition in memory and the one in the store come of linking by rank, and so does the one that
the store overlaid with the current batch shows. -/
structure ByRank (s : Session β) : Prop where
  memory : s.partition.ByRank
  durable : ∃ q : Partition, q.ByRank ∧ s.store.table = q.table
  shown : s.lost = false → ∃ q, Partition.Alike q s.partition ∧ q.forest.Ranked ∧
    s.pending.LeadsTo s.store.table q

/-- With nothing pending, the store holds what it shows. -/
theorem ByRank.of_table {p q : Partition} {store : Store} (hp : p.ByRank)
    (hq : Partition.Alike q p) (hranked : q.forest.Ranked) (ht : store.table = q.table) :
    ByRank (⟨store, ⟨p, .empty⟩, false⟩ : Session β) where
  memory := hp
  durable := ⟨q, hp.of_alike hq hranked, ht⟩
  shown _ := ⟨q, hq, hranked, by rw [show store.table = _ from ht]; exact Pending.leadsTo_empty q⟩

theorem byRank_start : (start : Session β).ByRank :=
  .of_table Partition.byRank_empty Partition.byRank_empty.alike Forest.ranked_empty
    Partition.table_empty.symm

theorem ByRank.becomes (h : s.ByRank) (hs' : Becomes s c s') : s'.ByRank := by
  obtain ⟨hmemory, hdurable, hshown⟩ := h
  cases hs' with
  | worked hlost hw =>
      obtain ⟨q, hq, hranked, hleads⟩ := hshown hlost
      exact ⟨hw.byRank hmemory, hdurable, fun _ => hw.shown hmemory.toSound hq hranked hleads⟩
  | measured hlost height =>
      obtain ⟨q, hq, hranked, hleads⟩ := hshown hlost
      exact ⟨hmemory, hdurable, fun _ => ⟨q, hq, hranked, hleads.stage_height height⟩⟩
  | finalized hlost _ =>
      obtain ⟨q, hq, hranked, hleads⟩ := hshown hlost
      have hfinalize := hmemory.toSound.finalize
      exact ⟨hmemory.finalize, hdurable, fun _ => ⟨q, hq.trans hfinalize.symm, hranked, hleads⟩⟩
  | written hlost =>
      obtain ⟨q, hq, hranked, hleads⟩ := hshown hlost
      rw [perform_flush_none]
      exact .of_table (hmemory.checkpointed _) (hq.checkpointed _) hranked hleads
  | givenUp ht => exact ⟨hmemory, ht ▸ hdurable, nofun⟩
  | @readBack faults p hload =>
      obtain ⟨q, hq, ht⟩ := hdurable
      obtain rfl := hq.load_eq (s := s.store.withFaults faults) ht hload
      exact .of_table hq hq.alike hq.ranked ht

theorem Reachable.byRank {usable : Call → Prop} (h : Reachable usable s) : s.ByRank := by
  induction h with
  | start => exact byRank_start
  | call _ _ hlost ih => exact ih.becomes (becomes_perform (fun _ => ih.memory.toSound) hlost)

/-- The trees in memory are shallow, and no merge is abandoned for want of a higher rank. -/
structure Shallow (s : Session β) : Prop where
  forest : s.partition.forest.Shallow
  union_ne_abort : ∀ a b e, (s.perform (.union a b)).1 ≠ .error (.abort e)

omit [LawfulBatch β] in
theorem ByRank.shallow (h : s.ByRank) : s.Shallow where
  forest := h.memory.shallow
  union_ne_abort a b e := by
    have hmerged := Workspace.union_merged (w := s.workspace) h.memory.toSound a b
    have hne := h.memory.merged_ne_abort hmerged (e := e)
    rw [perform, work]
    cases hunion : (Workspace.union a b s.workspace).1 with
    | ok x =>
        intro he
        cases he
    | error e' =>
        rw [hunion] at hne
        intro he
        cases he
        exact hne rfl

/-- Linking by rank keeps the trees of every session shallow: every node but a root has a lower rank than
its parent, the tree of a root has at least two to the power of its rank nodes, and so the way from a node
to its root is no longer than the rank of the root, which is at most the logarithm of the number of
addresses. The store can be read back at any time, and all of this holds of what is read, whatever was
finalized in memory before the batch was written. -/
theorem reachable_shallow {usable : Call → Prop} (h : Reachable usable s) :
    s.Shallow ∧ (s.perform (.restore .none)).1 = .ok none ∧
      ∀ faults, (s.perform (.restore faults)).2.Shallow := by
  have hrank := h.byRank
  refine ⟨hrank.shallow, ?_, fun faults => (hrank.becomes (becomes_restore faults)).shallow⟩
  obtain ⟨q, hq, ht⟩ := hrank.durable
  have hload := Partition.load_eq_ok.mpr (hq.loadedFrom (s := s.store.withFaults .none) rfl ht)
  rw [perform_restore_of_ok hload]

/-- Four addresses get into one tree of rank two, and all ways are shortened in memory only. -/
def fourFinalized : Session Delta :=
  (start.run [.register ⟨"a"⟩, .register ⟨"b"⟩, .register ⟨"c"⟩, .register ⟨"d"⟩,
    .union ⟨"a"⟩ ⟨"b"⟩, .union ⟨"c"⟩ ⟨"d"⟩, .union ⟨"a"⟩ ⟨"c"⟩, .finalize, .flush none]).2

theorem shallow_fourFinalized :
    Reachable (fun _ => True) fourFinalized ∧
      fourFinalized.partition.forest = ⟨#[0, 0, 0, 0], #[2, 0, 1, 0]⟩ ∧
      (fourFinalized.perform (.restore .none)).2.partition.forest = ⟨#[0, 0, 0, 2], #[2, 0, 1, 0]⟩ ∧
      fourFinalized.Shallow ∧ (fourFinalized.perform (.restore .none)).2.Shallow := by
  have hreach : Reachable (fun _ => True) fourFinalized :=
    Reachable.run .start rfl (by simp [Call.givesUp])
  obtain ⟨hshallow, -, hrestored⟩ := reachable_shallow hreach
  exact ⟨hreach, by rfl, by rfl, hshallow, hrestored .none⟩

end Session

end Cospend
