import Cospend.Proofs.Forest.Change

/-!
# What shortening a way changes

Shortening the way from a node makes the root the parent of every node on it and touches nothing else. The
nodes that it reports are the ones whose parent is another one afterwards, in the order of the way.
-/

namespace Cospend.Forest

variable {f : Forest} {i j r s : Nat} {way : List Nat}

namespace Walk

/-- The last node of a way is the only one whose parent is the root. -/
theorem dropLast_eq (w : f.Walk i way r) : way.dropLast = way.filter fun j => f.next j ≠ r := by
  induction w with
  | root _ => rfl
  | @step i r way h w ih =>
      cases w with
      | root _ => simp
      | step hr w =>
          have hne : f.next i ≠ r := (Walk.step hr w).ne_end List.mem_cons_self
          rw [List.dropLast_cons_of_ne_nil (List.cons_ne_nil _ _), ih, List.filter_cons (x := i),
            if_pos (decide_eq_true hne)]

theorem mem_dropLast_iff (w : f.Walk i way r) : j ∈ way.dropLast ↔ j ∈ way ∧ f.next j ≠ r := by
  rw [w.dropLast_eq, List.mem_filter, decide_eq_true_iff]

theorem next_compress (w : f.Walk i way r) (hj : j ∈ way ++ [r]) :
    (f.compress i).forest.next j = r := by
  rw [w.compress, next_reparent]
  split
  · rfl
  · rename_i hout
    rcases List.mem_append.mp hj with hj | hj
    · -- it is left out as its parent is the root already
      have hlt := lt_size_of_next_ne (w.not_root hj)
      by_contra hne
      exact hout ⟨w.mem_dropLast_iff.mpr ⟨hj, hne⟩, hlt⟩
    · rw [List.mem_singleton.mp hj]
      exact w.next_end

theorem next_compress_of_not_mem (w : f.Walk i way r) (hj : j ∉ way) :
    (f.compress i).forest.next j = f.next j := by
  rw [w.compress, next_reparent, if_neg fun h => hj (w.mem_dropLast_iff.mp h.1).1]

/-- What is reported are the nodes of the way that have another parent afterwards, in the order of the
way. -/
theorem moved_eq (w : f.Walk i way r) :
    (f.compress i).moved = way.filter fun j => (f.compress i).forest.next j ≠ f.next j := by
  have hmoved : (f.compress i).moved = way.dropLast := by rw [w.compress]
  rw [hmoved, w.dropLast_eq]
  refine List.filter_congr fun j hj => ?_
  rw [w.next_compress (List.mem_append_left _ hj)]
  exact decide_eq_decide.mpr ne_comm

theorem mem_moved_iff (w : f.Walk i way r) :
    j ∈ (f.compress i).moved ↔ (f.compress i).forest.next j ≠ f.next j := by
  rw [w.moved_eq, List.mem_filter, decide_eq_true_iff, and_iff_right_iff_imp]
  intro hj
  by_contra hout
  exact hj (w.next_compress_of_not_mem hout)

theorem moved_eq_nil_iff (w : f.Walk i way r) : (f.compress i).moved = [] ↔ f.next i = r := by
  rw [w.compress]
  cases w with
  | root h => simp [h]
  | step _ w =>
      cases w with
      | root _ => simp
      | step hr w =>
          have hne : f.next i ≠ r := (Walk.step hr w).ne_end List.mem_cons_self
          simp [hne]

theorem leads_compress_iff (w : f.Walk i way r) (hall : ∀ j, ∃ r, f.Leads j r) :
    (f.compress i).forest.Leads j s ↔ f.Leads j s := by
  have hmoved : ∀ j ∈ way.dropLast, f.next j ≠ j ∧ f.Leads j r := fun j hj =>
    have hway := (w.mem_dropLast_iff.mp hj).1
    ⟨w.not_root hway, w.leads_of_mem hway⟩
  rw [w.compress]
  constructor
  · intro h
    obtain ⟨s', hs'⟩ := hall j
    rwa [h.unique (hs'.reparent hmoved)]
  · exact Leads.reparent hmoved

end Walk

end Cospend.Forest
