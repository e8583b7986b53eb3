import Cospend.Proofs.Forest.Change

/-!
# Walks as loops over the parents

A walk may be made without counting its steps, by a loop that reads one parent after the other and stops
at a root, and a way is shortened in place by a second loop that overwrites each parent after it was
read. Over the parents of a sound forest both loops end, no read of theirs is out of bounds, and they come
to what `Forest.root` and `Forest.compress` answer.
-/

namespace Cospend.Forest

variable {f g : Forest} {i r : Nat} {way : List Nat}

/-- The loop that goes from `i` to the parent of `i`, and so on, stops at `r`. Each parent that it reads
is there. -/
inductive Climbs (parents : Array Nat) : Nat → Nat → Prop
  | stop {i : Nat} (h : parents[i]? = some i) : Climbs parents i i
  | step {i j r : Nat} (h : parents[i]? = some j) (hne : j ≠ i) (rest : Climbs parents j r) :
    Climbs parents i r

/-- The loop that starts at `i`, makes `r` the parent of the node at hand and goes on with the parent that
this had before, stops where the parent is `r`. It overwrites the parents of `moved`, in this order, and
leaves the last array. -/
inductive Sweeps (r : Nat) : Array Nat → Nat → (moved : List Nat) → Array Nat → Prop
  | stop {parents : Array Nat} {i : Nat} (h : parents[i]? = some r) : Sweeps r parents i [] parents
  | step {parents parents' : Array Nat} {i j : Nat} {moved : List Nat} (h : parents[i]? = some j)
    (hne : j ≠ r) (rest : Sweeps r (parents.setIfInBounds i r) j moved parents') :
    Sweeps r parents i (i :: moved) parents'

theorem Walk.climbs (w : f.Walk i way r) (hr : r < f.size) : Climbs f.parent i r := by
  induction w with
  | @root i h =>
      refine .stop ?_
      rw [getElem?_parent hr, h]
  | step h _ ih => exact .step (getElem?_parent (lt_size_of_next_ne h)) h (ih hr)

/-- A walk stays as it is if the parents of the nodes on it do. -/
theorem Walk.congr_on (w : f.Walk i way r) (hway : ∀ j ∈ way, g.next j = f.next j)
    (hr : g.next r = f.next r) : g.Walk i way r := by
  induction w with
  | root h => exact .root (hr.trans h)
  | @step i r way h w ih =>
      have hi := hway i List.mem_cons_self
      refine .step (by rwa [hi]) ?_
      rw [hi]
      exact ih (fun j hj => hway j (List.mem_cons_of_mem i hj)) hr

theorem Walk.sweeps (w : f.Walk i way r) (hr : r < f.size) :
    Sweeps r f.parent i way.dropLast (f.reparent way.dropLast r).parent := by
  -- the forest changes on the way: what is left of the way is a way of the next forest, as no node is on
  -- it twice
  induction way generalizing f i with
  | nil =>
      cases w with
      | root h =>
          refine .stop ?_
          rw [getElem?_parent hr, h]
  | cons i rest ih =>
      have hnodup := w.nodup
      cases w with
      | step h w =>
          have hread := getElem?_parent (lt_size_of_next_ne h)
          cases rest with
          | nil =>
              cases w with
              | root _ => exact .stop hread
          | cons k rest =>
              have hne : f.next i ≠ r := by
                cases w with
                | step h' w => exact (Walk.step h' w).ne_end List.mem_cons_self
              have hmoved : ∀ j, j ≠ i → (f.reparent [i] r).next j = f.next j := by
                intro j hj
                rw [next_reparent, if_neg fun hm => hj (List.mem_singleton.mp hm.1)]
              have hri : r ≠ i := ((Walk.step h w).ne_end List.mem_cons_self).symm
              have w' : (f.reparent [i] r).Walk (f.next i) (k :: rest) r := by
                refine w.congr_on (fun j hj => hmoved j fun he => ?_) (hmoved r hri)
                exact (List.nodup_cons.mp hnodup).1 (he ▸ hj)
              rw [List.dropLast_cons_of_ne_nil (List.cons_ne_nil k rest)]
              exact .step hread hne (ih w' (by rwa [size_reparent]))

theorem Sound.climbs (hf : f.Sound) (hi : i < f.size) : Climbs f.parent i (f.root i) := by
  obtain ⟨_, w⟩ := hf.leads_root i
  exact w.climbs (hf.root_lt hi)

theorem Sound.sweeps (hf : f.Sound) (hi : i < f.size) :
    Sweeps (f.root i) f.parent i (f.compress i).moved (f.compress i).forest.parent := by
  obtain ⟨way, w⟩ := hf.leads_root i
  rw [w.compress]
  exact w.sweeps (hf.root_lt hi)

end Cospend.Forest
