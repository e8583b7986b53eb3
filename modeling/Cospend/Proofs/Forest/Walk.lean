import Cospend.Forest.Basic
import Mathlib.Data.List.Nodup
import Mathlib.Data.List.Perm.Subperm

/-!
# Walks to a root

A walk follows parents and ends at the first root. `Walk` is the walk as a relation, with the nodes
that it passes; a forest is sound if every walk ends and no parent is out of range. As no node is
passed twice, `Forest.root` makes enough steps to end where the walk ends.
-/

namespace Cospend.Forest

variable {f : Forest}

/-- The walk from `i` passes the nodes `way`, none of them a root, and ends at the root `r`. -/
inductive Walk (f : Forest) : (i : Nat) → (way : List Nat) → (r : Nat) → Prop
  | root {i : Nat} (h : f.next i = i) : Walk f i [] i
  | step {i r : Nat} {way : List Nat} (h : f.next i ≠ i) (w : Walk f (f.next i) way r) :
      Walk f i (i :: way) r

/-- The walk from `i` ends at the root `r`. -/
def Leads (f : Forest) (i r : Nat) : Prop := ∃ way, f.Walk i way r

/-- There is a rank for each node, parents are nodes, and every walk ends. -/
structure Sound (f : Forest) : Prop where
  rank_size : f.rank.size = f.size
  next_lt : ∀ {i}, i < f.size → f.next i < f.size
  leads : ∀ i, ∃ r, f.Leads i r

theorem next_of_size_le {i : Nat} (h : f.size ≤ i) : f.next i = i := by
  simp only [next, Array.getD_eq_getD_getElem?]
  rw [Array.getElem?_eq_none h, Option.getD_none]

theorem next_eq_getElem {i : Nat} (h : i < f.parent.size) : f.next i = f.parent[i] := by
  simp only [next, Array.getD_eq_getD_getElem?]
  rw [Array.getElem?_eq_getElem h, Option.getD_some]

theorem getElem?_parent {i : Nat} (h : i < f.size) : f.parent[i]? = some (f.next i) := by
  rw [next_eq_getElem h, Array.getElem?_eq_getElem h]

theorem next_of_getElem? {i j : Nat} (h : f.parent[i]? = some j) : i < f.size ∧ f.next i = j := by
  have hi : i < f.size := (Array.getElem?_eq_some_iff.mp h).1
  rw [getElem?_parent hi] at h
  exact ⟨hi, Option.some.inj h⟩

theorem next_lt_of_mem (hrange : ∀ p ∈ f.parent, p < f.size) {i : Nat} (hi : i < f.size) :
    f.next i < f.size := by
  rw [next_eq_getElem hi]
  exact hrange _ (Array.getElem_mem hi)

theorem getElem?_rank {i : Nat} (h : i < f.rank.size) : f.rank[i]? = some (f.rankOf i) := by
  simp [rankOf, h]

/-! ## The course of a walk -/

theorem Walk.next_end {i r : Nat} {way : List Nat} (w : f.Walk i way r) : f.next r = r := by
  induction w with
  | root h => exact h
  | step _ _ ih => exact ih

theorem Walk.unique {i r r' : Nat} {way way' : List Nat} (w : f.Walk i way r)
    (w' : f.Walk i way' r') : way = way' ∧ r = r' := by
  induction w generalizing way' with
  | root h =>
      cases w' with
      | root _ => exact ⟨rfl, rfl⟩
      | step h' _ => exact absurd h h'
  | step h _ ih =>
      cases w' with
      | root h' => exact absurd h' h
      | step _ w' =>
          obtain ⟨hway, hr⟩ := ih w'
          exact ⟨by rw [hway], hr⟩

theorem Leads.unique {i r r' : Nat} (h : f.Leads i r) (h' : f.Leads i r') : r = r' := by
  obtain ⟨_, w⟩ := h
  obtain ⟨_, w'⟩ := h'
  exact (w.unique w').2

/-- From a node that a walk passes, the walk goes on as it did. -/
theorem Walk.drop {i j r : Nat} {way : List Nat} (w : f.Walk i way r) (hj : j ∈ way) :
    ∃ rest, f.Walk j rest r ∧ rest <:+ way := by
  induction w with
  | root _ => cases hj
  | @step i r way h w ih =>
      rcases List.mem_cons.mp hj with rfl | hj
      · exact ⟨_, .step h w, List.suffix_refl _⟩
      · obtain ⟨rest, wj, hrest⟩ := ih hj
        exact ⟨rest, wj, hrest.trans (List.suffix_cons _ _)⟩

theorem Walk.leads_of_mem {i j r : Nat} {way : List Nat} (w : f.Walk i way r) (hj : j ∈ way) :
    f.Leads j r := by
  obtain ⟨rest, wj, _⟩ := w.drop hj
  exact ⟨rest, wj⟩

theorem Walk.end_lt {i r : Nat} {way : List Nat} (w : f.Walk i way r)
    (hnext : ∀ {j}, j < f.size → f.next j < f.size) (hi : i < f.size) : r < f.size := by
  induction w with
  | root _ => exact hi
  | step _ _ ih => exact ih (hnext hi)

theorem Walk.not_root {i j r : Nat} {way : List Nat} (w : f.Walk i way r) (hj : j ∈ way) :
    f.next j ≠ j := by
  induction w with
  | root _ => cases hj
  | step h _ ih =>
      rcases List.mem_cons.mp hj with rfl | hj
      · exact h
      · exact ih hj

theorem Walk.ne_end {i j r : Nat} {way : List Nat} (w : f.Walk i way r) (hj : j ∈ way) : j ≠ r :=
  fun he => w.not_root hj (he ▸ w.next_end)

theorem Walk.nodup {i r : Nat} {way : List Nat} (w : f.Walk i way r) : way.Nodup := by
  induction w with
  | root _ => exact List.nodup_nil
  | @step i r way h w ih =>
      refine List.nodup_cons.mpr ⟨?_, ih⟩
      intro hi
      obtain ⟨rest, wi, hrest⟩ := w.drop hi
      have hlen := hrest.length_le
      rw [← ((Walk.step h w).unique wi).1, List.length_cons] at hlen
      omega

theorem Walk.length_le {i r : Nat} {way : List Nat} (w : f.Walk i way r) : way.length ≤ f.size := by
  have hsub : way ⊆ List.range f.size := by
    intro j hj
    refine List.mem_range.mpr (Nat.lt_of_not_le fun hle => ?_)
    exact w.not_root hj (next_of_size_le hle)
  simpa using (w.nodup.subperm hsub).length_le

/-! ## The root as a function -/

theorem Walk.climb {i r n : Nat} {way : List Nat} (w : f.Walk i way r) (hn : way.length ≤ n) :
    f.climb n i = r := by
  induction w generalizing n with
  | root h =>
      cases n with
      | zero => rfl
      | succ n => simp [Forest.climb, h]
  | step h _ ih =>
      cases n with
      | zero => simp at hn
      | succ n => simpa [Forest.climb, h] using ih (by simpa using hn)

theorem Leads.root_eq {i r : Nat} (h : f.Leads i r) : f.root i = r := by
  obtain ⟨_, w⟩ := h
  exact w.climb w.length_le

theorem Leads.of_root {i : Nat} (h : f.next i = i) : f.Leads i i := ⟨[], .root h⟩

theorem Leads.of_next {i r : Nat} (h : f.Leads (f.next i) r) : f.Leads i r := by
  by_cases hi : f.next i = i
  · rwa [hi] at h
  · obtain ⟨way, w⟩ := h
    exact ⟨i :: way, .step hi w⟩

theorem Leads.next {i r : Nat} (h : f.Leads i r) : f.Leads (f.next i) r := by
  obtain ⟨way, w⟩ := h
  cases w with
  | root hi =>
      rw [hi]
      exact .of_root hi
  | step _ w => exact ⟨_, w⟩

theorem root_of_next_eq {i : Nat} (h : f.next i = i) : f.root i = i := (Leads.of_root h).root_eq

theorem lt_size_of_next_ne {i : Nat} (h : f.next i ≠ i) : i < f.size :=
  Nat.lt_of_not_le fun hle => h (next_of_size_le hle)

theorem lt_size_of_root_ne {i : Nat} (h : f.root i ≠ i) : i < f.size :=
  lt_size_of_next_ne fun hi => h (root_of_next_eq hi)

namespace Sound

variable (hf : f.Sound)
include hf

theorem leads_root (i : Nat) : f.Leads i (f.root i) := by
  obtain ⟨r, h⟩ := hf.leads i
  rwa [h.root_eq]

theorem next_root (i : Nat) : f.next (f.root i) = f.root i := by
  obtain ⟨_, w⟩ := hf.leads_root i
  exact w.next_end

theorem root_eq_self_iff {i : Nat} : f.root i = i ↔ f.next i = i :=
  ⟨fun h => by rw [← h]; exact hf.next_root i, root_of_next_eq⟩

theorem root_lt {i : Nat} (hi : i < f.size) : f.root i < f.size := by
  obtain ⟨_, w⟩ := hf.leads_root i
  exact w.end_lt hf.next_lt hi

end Sound

theorem sound_empty : empty.Sound where
  rank_size := rfl
  next_lt h := absurd h (Nat.not_lt_zero _)
  leads i := ⟨i, .of_root (next_of_size_le (Nat.zero_le i))⟩

end Cospend.Forest
