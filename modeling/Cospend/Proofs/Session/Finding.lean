import Cospend.Proofs.Forest.Compression
import Cospend.Proofs.Forest.Cycle
import Cospend.Proofs.Session.Safety

/-!
# What a find changes and stages

A find shortens the way from the number of an address to its root. In the partition it changes the parents
of the nodes that it reports and no other, and the parents of these nodes are what it stages.
-/

namespace Cospend.Workspace

variable {β : Type} [WriteBatch β] [LawfulBatch β]

/-- Take any parents that are nodes and from which following parents comes to a root, and the way from a
node. The loops that shorten it end without a read out of bounds, with the root of the node. Afterwards
every node of the way has the root as its parent, the root itself included, every other node has the parent
that it had, and every walk ends where it ended. The nodes that are reported are those of the way whose
parent changed, in its order and none twice; they are all nodes whose parent changed, and there is none
exactly if the root was the parent of the node already. A find of an address with this number answers the
root and stages the new parents of these nodes in that order, so that of all parents that the store shows
exactly theirs change. -/
theorem find_stages_moved {f : Forest} (hrange : ∀ p ∈ f.parent, p < f.size)
    (hroots : ∀ j < f.size, ∃ n, f.next (f.next^[n] j) = f.next^[n] j) {i : Nat} (hi : i < f.size) :
    let c := f.compress i
    (Forest.Climbs f.parent i c.root ∧ Forest.Sweeps c.root f.parent i c.moved c.forest.parent) ∧
    (∃ way, f.Walk i way c.root ∧ (∀ j ∈ way ++ [c.root], c.forest.next j = c.root) ∧
      (∀ j ∉ way, c.forest.next j = f.next j) ∧
      c.moved = way.filter fun j => c.forest.next j ≠ f.next j) ∧
    (c.forest.size = f.size ∧ c.forest.rank = f.rank ∧ ∀ j r, c.forest.Leads j r ↔ f.Leads j r) ∧
    (c.moved.Nodup ∧ (∀ j, j ∈ c.moved ↔ c.forest.next j ≠ f.next j) ∧
      (c.moved = [] ↔ f.next i = c.root)) ∧
    ∀ (w : Workspace β) (a : Address), w.partition.forest = f → w.partition.ids[a]? = some i →
      find a w = (.ok c.root, {
        partition := { w.partition with forest := c.forest }
        pending := c.moved.foldl (fun b j => b.stage (.parent j) (.ofNat c.root)) w.pending }) ∧
      ∀ (t : Table) (j : Nat), (find a w).2.shownParent t j =
        if c.forest.next j = f.next j then w.shownParent t j
        else some ((Variable.parent j).encode (.ofNat (c.forest.next j))) := by
  intro c
  have hall := Forest.exists_leads hroots
  obtain ⟨r, way, w⟩ := hall i
  have hr := w.end_lt (Forest.next_lt_of_mem hrange) hi
  have hc : c = ⟨f.reparent way.dropLast r, r, way.dropLast⟩ := w.compress
  have hroot : c.root = r := by rw [hc]
  have hmoved : ∀ j, j ∈ c.moved ↔ c.forest.next j ≠ f.next j := fun _ => w.mem_moved_iff
  refine ⟨⟨?_, ?_⟩, ⟨way, ?_, ?_, fun j => w.next_compress_of_not_mem, w.moved_eq⟩,
    ⟨?_, ?_, fun j s => w.leads_compress_iff hall⟩, ⟨?_, hmoved, ?_⟩, fun v a hf ha => ?_⟩
  · rw [hroot]
    exact w.climbs hr
  · rw [hc]
    exact w.sweeps hr
  · rwa [hroot]
  · intro j hj
    rw [hroot] at hj ⊢
    exact w.next_compress hj
  · rw [hc]
    exact Forest.size_reparent _ _
  · rw [hc]
    exact Forest.rank_reparent _ _
  · rw [w.moved_eq]
    exact w.nodup.filter _
  · rw [hroot]
    exact w.moved_eq_nil_iff
  · have hfind := find_of_some ha
    rw [hf] at hfind
    refine ⟨hfind, fun t j => ?_⟩
    rw [hfind, shownParent_shorten]
    by_cases hj : c.forest.next j = f.next j
    · rw [if_neg fun h => (hmoved j).mp h hj, if_pos hj]
    · have hway : j ∈ way := by
        by_contra hout
        exact hj (w.next_compress_of_not_mem hout)
      rw [if_pos ((hmoved j).mpr hj), if_neg hj, hroot, w.next_compress (List.mem_append_left _ hway)]

/-- A way of three steps, and a root beside it. -/
def deepForest : Forest := ⟨#[0, 0, 1, 2, 4], #[3, 2, 1, 0, 0]⟩

def deepWorkspace : Workspace Delta :=
  ⟨⟨none, deepForest, [("A", 0), ("B", 1), ("C", 2), ("D", 3), ("E", 4)].foldl
    (fun ids e => ids.insert ⟨e.1⟩ e.2) (∅ : Std.ExtTreeMap Address Nat)⟩, .empty⟩

theorem find_stages_moved_deep :
    (∀ p ∈ deepForest.parent, p < deepForest.size) ∧
    (∀ j < deepForest.size, ∃ n, deepForest.next (deepForest.next^[n] j) = deepForest.next^[n] j) ∧
    3 < deepForest.size ∧
    Forest.Climbs #[0, 0, 1, 2, 4] 3 0 ∧ Forest.Sweeps 0 #[0, 0, 1, 2, 4] 3 [3, 2] #[0, 0, 0, 0, 4] ∧
    (deepForest.compress 3).forest.Leads 3 0 ∧
    (find ⟨"D"⟩ deepWorkspace).1 = .ok 0 ∧
    (find ⟨"D"⟩ deepWorkspace).2.shownParent ∅ 2 = some ((Variable.parent 2).encode (.ofNat 0)) ∧
    (find ⟨"D"⟩ deepWorkspace).2.shownParent ∅ 1 = deepWorkspace.shownParent ∅ 1 := by
  have hrange : ∀ p ∈ deepForest.parent, p < deepForest.size := by decide
  have hthree : ∀ j < deepForest.size,
      deepForest.next (deepForest.next^[3] j) = deepForest.next^[3] j := by decide
  have hroots : ∀ j < deepForest.size,
      ∃ n, deepForest.next (deepForest.next^[n] j) = deepForest.next^[n] j := fun j hj => ⟨3, hthree j hj⟩
  have hi : 3 < deepForest.size := by decide
  have ha : deepWorkspace.partition.ids[(⟨"D"⟩ : Address)]? = some 3 := by rfl
  obtain ⟨⟨hclimbs, hsweeps⟩, ⟨way, hwalk, -⟩, ⟨-, -, hleads⟩, -, hfind⟩ :=
    @find_stages_moved Delta _ _ deepForest hrange hroots 3 hi
  obtain ⟨hanswer, hshown⟩ := hfind deepWorkspace ⟨"D"⟩ rfl ha
  refine ⟨hrange, hroots, hi, hclimbs, hsweeps, (hleads 3 0).mpr ⟨way, hwalk⟩, ?_, ?_, ?_⟩
  · rw [hanswer]
    rfl
  · exact (hshown ∅ 2).trans (if_neg (by decide))
  · exact (hshown ∅ 1).trans (if_pos (by decide))

end Cospend.Workspace
