import Cospend.Proofs.Forest.Cycle
import Mathlib.Dynamics.PeriodicPts.Defs

/-!
# The search for a cycle as a loop over marks

A forest may be searched for a cycle by walks that mark the nodes they pass. A walk stops at a root or at a
node with a mark. If the mark is from the same walk, the node is on a cycle; if it is from an earlier one,
the rest of the way is known to end at a root. Where all parents are nodes the search ends, no read of it
is out of bounds, and it comes to what `Forest.cycle?` answers.
-/

namespace Cospend.Forest

/-- What a search has found out about a node. -/
inductive Mark
  | unvisited
  /-- The walk at hand passed the node. -/
  | onWalk
  | reachesRoot
  deriving DecidableEq

/-- The marks after some nodes were given the same one, node by node. -/
def markAll (m : Mark) (marks : Array Mark) (nodes : List Nat) : Array Mark :=
  nodes.foldl (fun marks i => marks.setIfInBounds i m) marks

/-- The loop that starts at `i`, marks the node at hand and goes on with its parent, stops at `e`, which has
a mark or is a root. It passes the nodes `walk`, in this order, and leaves the last array of marks. Each mark
and each parent that it reads is there. -/
inductive Visits (parents : Array Nat) :
    Array Mark → Nat → (walk : List Nat) → Array Mark → (e : Nat) → Prop
  | marked {marks : Array Mark} {i : Nat} {m : Mark} (h : marks[i]? = some m) (hm : m ≠ .unvisited) :
      Visits parents marks i [] marks i
  | root {marks : Array Mark} {i : Nat} (h : marks[i]? = some .unvisited) (hp : parents[i]? = some i) :
      Visits parents marks i [] marks i
  | step {marks marks' : Array Mark} {i j e : Nat} {walk : List Nat} (h : marks[i]? = some .unvisited)
      (hp : parents[i]? = some j) (hne : j ≠ i)
      (rest : Visits parents (marks.setIfInBounds i .onWalk) j walk marks' e) :
      Visits parents marks i (i :: walk) marks' e

/-- The search that makes a walk from each of `starts` ends with the node `found` at which a walk met
itself. After a walk that did not, the nodes that it passed and the one at which it stopped are known to
reach a root. -/
inductive Searches (parents : Array Nat) : (starts : List Nat) → Array Mark → (found : Option Nat) → Prop
  | done {marks : Array Mark} : Searches parents [] marks none
  | cycle {marks marks' : Array Mark} {i e : Nat} {walk starts : List Nat}
      (v : Visits parents marks i walk marks' e) (h : marks'[e]? = some .onWalk) :
      Searches parents (i :: starts) marks (some e)
  | next {marks marks' : Array Mark} {i e : Nat} {walk starts : List Nat} {m : Mark} {found : Option Nat}
      (v : Visits parents marks i walk marks' e) (h : marks'[e]? = some m) (hm : m ≠ .onWalk)
      (rest : Searches parents starts (markAll .reachesRoot marks' (e :: walk)) found) :
      Searches parents (i :: starts) marks found

variable {f : Forest} {marks marks' : Array Mark} {seen walk starts : List Nat} {i j e r c : Nat}

/-! ## Ways that run into a cycle -/

theorem next_ne_of_period (h : 2 ≤ Function.minimalPeriod f.next c) : f.next c ≠ c := by
  intro hc
  rw [Function.minimalPeriod_eq_one_iff_isFixedPt.mpr hc] at h
  omega

theorem period_of_iterate {k : Nat} (hk : 0 < k) (h : f.next^[k] c = c) (hc : f.next c ≠ c) :
    2 ≤ Function.minimalPeriod f.next c := by
  have hpos : 0 < Function.minimalPeriod f.next c := Function.IsPeriodicPt.minimalPeriod_pos hk h
  have hne : Function.minimalPeriod f.next c ≠ 1 := fun hone =>
    hc (Function.minimalPeriod_eq_one_iff_isFixedPt.mp hone)
  omega

/-- A node that a walk comes back to leads to no root. -/
theorem not_leads_of_period (h : 2 ≤ Function.minimalPeriod f.next c) : ¬ ∃ r, f.Leads c r := by
  rw [exists_leads_iff]
  rintro ⟨n, hn⟩
  have hmem : c ∈ Function.periodicPts f.next := by
    rw [← Function.minimalPeriod_pos_iff_mem_periodicPts]
    omega
  have hroot := Function.minimalPeriod_eq_one_iff_isFixedPt.mpr hn
  rw [Function.minimalPeriod_apply_iterate hmem] at hroot
  omega

/-! ## Marks -/

@[simp] theorem size_markAll (m : Mark) (nodes : List Nat) :
    (markAll m marks nodes).size = marks.size := by
  induction nodes generalizing marks with
  | nil => rfl
  | cons i nodes ih => exact ih.trans Array.size_setIfInBounds

theorem getElem?_markAll {m : Mark} {nodes : List Nat} :
    (markAll m marks nodes)[j]? = if j ∈ nodes ∧ j < marks.size then some m else marks[j]? := by
  induction nodes generalizing marks with
  | nil => simp [markAll]
  | cons i nodes ih =>
      have hrec : markAll m marks (i :: nodes) = markAll m (marks.setIfInBounds i m) nodes := rfl
      rw [hrec, ih, Array.size_setIfInBounds, Array.getElem?_setIfInBounds]
      by_cases hlt : j < marks.size
      · by_cases hj : j ∈ nodes
        · simp [hlt, hj]
        · by_cases hi : i = j
          · subst hi
            simp [hlt]
          · simp [hj, hi, Ne.symm hi]
      · by_cases hi : i = j
        · subst hi
          simp [hlt]
        · simp [hlt, hi]

/-- The nodes that the walk at hand passed are `seen`, and those that an earlier walk passed lead to
roots. -/
structure Marked (f : Forest) (marks : Array Mark) (seen : List Nat) : Prop where
  size_eq : marks.size = f.size
  onWalk_iff : ∀ j : Nat, marks[j]? = some .onWalk ↔ j ∈ seen
  leads : ∀ j : Nat, marks[j]? = some .reachesRoot → ∃ r, f.Leads j r

theorem marked_start : f.Marked (Array.replicate f.size .unvisited) [] where
  size_eq := Array.size_replicate
  onWalk_iff j := by simp [Array.getElem?_replicate]
  leads j hj := by simp [Array.getElem?_replicate] at hj

/-- A walk passes one more node. -/
theorem Marked.pass (h : f.Marked marks seen) (hi : i < f.size) :
    f.Marked (marks.setIfInBounds i .onWalk) (i :: seen) where
  size_eq := Array.size_setIfInBounds.trans h.size_eq
  onWalk_iff j := by
    have hi' : i < marks.size := h.size_eq ▸ hi
    rw [Array.getElem?_setIfInBounds, List.mem_cons, ← h.onWalk_iff]
    by_cases hj : i = j
    · simp [hj, hj ▸ hi']
    · simp [hj, Ne.symm hj]
  leads j hj := by
    rw [Array.getElem?_setIfInBounds] at hj
    split at hj
    · split at hj <;> cases hj
    · exact h.leads j hj

/-- A walk is over, and all nodes of it lead to a root. -/
theorem Marked.settle (h : f.Marked marks seen) {nodes : List Nat} (hseen : seen ⊆ nodes)
    (hleads : ∀ j ∈ nodes, ∃ r, f.Leads j r) : f.Marked (markAll .reachesRoot marks nodes) [] where
  size_eq := (size_markAll _ _).trans h.size_eq
  onWalk_iff j := by
    rw [getElem?_markAll]
    have hwalk : marks[j]? = some .onWalk → j ∈ nodes ∧ j < marks.size := fun hj =>
      ⟨hseen ((h.onWalk_iff j).mp hj), (Array.getElem?_eq_some_iff.mp hj).1⟩
    split
    · simp
    · rename_i hout
      simpa using fun hj => hout (hwalk hj)
  leads j hj := by
    rw [getElem?_markAll] at hj
    split at hj
    · rename_i hin
      exact hleads j hin.1
    · exact h.leads j hj

/-- Passing a node uses up one that was not visited. -/
theorem count_pass (h : marks[i]? = some .unvisited) :
    (marks.setIfInBounds i .onWalk).count .unvisited + 1 = marks.count .unvisited := by
  obtain ⟨hi, hmark⟩ := Array.getElem?_eq_some_iff.mp h
  have hpos : 0 < marks.count .unvisited := Array.count_pos_iff.mpr (hmark ▸ Array.getElem_mem hi)
  rw [Array.setIfInBounds_def, dif_pos hi, Array.count_set hi, hmark,
    if_pos (beq_self_eq_true _), if_neg (by decide)]
  omega

/-! ## One walk -/

theorem exists_mark (hsize : marks.size = f.size) (hi : i < f.size) : ∃ m, marks[i]? = some m :=
  ⟨_, Array.getElem?_eq_getElem (hsize ▸ hi)⟩

/-- The walk ends, as every node that it passes is one fewer to be visited. -/
theorem exists_visits (hrange : ∀ p ∈ f.parent, p < f.size) (hsize : marks.size = f.size)
    (hi : i < f.size) : ∃ walk marks' e, Visits f.parent marks i walk marks' e := by
  -- by induction on how many nodes are not visited, over all nodes that the walk may come to
  induction hn : marks.count .unvisited generalizing marks i with
  | zero =>
      obtain ⟨m, hm⟩ := exists_mark hsize hi
      refine ⟨[], marks, i, .marked hm ?_⟩
      rintro rfl
      have hcount := count_pass hm
      omega
  | succ n ih =>
      obtain ⟨m, hm⟩ := exists_mark hsize hi
      cases m with
      | onWalk => exact ⟨[], marks, i, .marked hm (by decide)⟩
      | reachesRoot => exact ⟨[], marks, i, .marked hm (by decide)⟩
      | unvisited =>
          have hread := getElem?_parent hi
          by_cases hroot : f.next i = i
          · rw [hroot] at hread
            exact ⟨[], marks, i, .root hm hread⟩
          · have hfewer : (marks.setIfInBounds i .onWalk).count .unvisited = n := by
              have hcount := count_pass hm
              omega
            obtain ⟨walk, marks', e, v⟩ := ih (Array.size_setIfInBounds.trans hsize)
              (next_lt_of_mem hrange hi) hfewer
            exact ⟨i :: walk, marks', e, .step hm hread hroot v⟩

namespace Visits

theorem count_add (v : Visits f.parent marks i walk marks' e) :
    marks'.count .unvisited + walk.length = marks.count .unvisited := by
  induction v with
  | marked _ _ => rfl
  | root _ _ => rfl
  | step h _ _ _ ih =>
      rw [List.length_cons, ← count_pass h, ← ih]
      omega

theorem marked_after (v : Visits f.parent marks i walk marks' e) (h : f.Marked marks seen) :
    f.Marked marks' (walk.reverse ++ seen) := by
  induction v generalizing seen with
  | marked _ _ => exact h
  | root _ _ => exact h
  | @step _ _ i _ _ walk _ hp _ _ ih =>
      have hlater := ih (h.pass (next_of_getElem? hp).1)
      simpa using hlater

theorem mark_end (v : Visits f.parent marks i walk marks' e) :
    ∃ m, marks'[e]? = some m ∧ (m = .unvisited → f.next e = e) := by
  induction v with
  | marked h hm => exact ⟨_, h, fun hu => absurd hu hm⟩
  | root h hp => exact ⟨_, h, fun _ => (next_of_getElem? hp).2⟩
  | step _ _ _ _ ih => exact ih

/-- The node at which the walk stops comes after the start and after every node that the walk passes; none
of these is a root. -/
theorem iterate_eq (v : Visits f.parent marks i walk marks' e) :
    (∃ k, f.next^[k] i = e) ∧ ∀ j ∈ walk, f.next j ≠ j ∧ ∃ k, 0 < k ∧ f.next^[k] j = e := by
  induction v with
  | marked _ _ => exact ⟨⟨0, rfl⟩, fun _ hj => absurd hj List.not_mem_nil⟩
  | root _ _ => exact ⟨⟨0, rfl⟩, fun _ hj => absurd hj List.not_mem_nil⟩
  | @step _ _ i _ e _ _ hp hne _ ih =>
      obtain ⟨⟨k, hk⟩, hwalk⟩ := ih
      have hnext := (next_of_getElem? hp).2
      have hi : f.next^[k + 1] i = e := by rw [Function.iterate_succ_apply, hnext, hk]
      refine ⟨⟨k + 1, hi⟩, fun j hj => ?_⟩
      rcases List.mem_cons.mp hj with rfl | hj
      · exact ⟨by rwa [hnext], k + 1, Nat.succ_pos k, hi⟩
      · exact hwalk j hj

/-- The node at which the walk meets itself is the first one that it comes to again. -/
theorem firstRepeat_eq (v : Visits f.parent marks i walk marks' e) (h : f.Marked marks seen)
    (he : e ∈ walk.reverse ++ seen) {n : Nat} (hn : walk.length < n) : f.firstRepeat n seen i = e := by
  induction v generalizing seen n with
  | marked _ _ =>
      cases n with
      | zero => cases hn
      | succ n =>
          have hseen : seen.contains _ = true := List.contains_iff_mem.mpr he
          rw [firstRepeat, if_pos hseen]
  | root hu _ =>
      have hon := (h.onWalk_iff _).mpr he
      rw [hu] at hon
      cases hon
  | @step marks _ i j _ walk hu hp _ _ ih =>
      cases n with
      | zero => cases hn
      | succ n =>
          have hnew : ¬ seen.contains i = true := by
            rw [List.contains_iff_mem, ← h.onWalk_iff, hu]
            exact fun hon => by cases hon
          obtain ⟨hi, hnext⟩ := next_of_getElem? hp
          rw [firstRepeat, if_neg hnew, hnext]
          exact ih (h.pass hi) (by simpa using he) (by simpa using hn)

/-- A walk that met itself stops on a cycle, and no root is ahead of its start. -/
theorem meets (v : Visits f.parent marks i walk marks' e) (h : f.Marked marks [])
    (he : marks'[e]? = some .onWalk) :
    2 ≤ Function.minimalPeriod f.next e ∧ f.reachesRoot i = false ∧
      f.firstRepeat (f.size + 1) [] i = e := by
  have hmem : e ∈ walk.reverse ++ [] := ((v.marked_after h).onWalk_iff e).mp he
  obtain ⟨⟨k, hk⟩, hwalk⟩ := v.iterate_eq
  obtain ⟨hne, n, hn, hagain⟩ := hwalk e (by simpa using hmem)
  have hperiod := period_of_iterate hn hagain hne
  have hlength : walk.length < f.size + 1 := by
    have hcount := v.count_add
    have hle : marks.count .unvisited ≤ marks.size := Array.count_le_size
    rw [h.size_eq] at hle
    omega
  refine ⟨hperiod, ?_, v.firstRepeat_eq h hmem hlength⟩
  rw [Bool.eq_false_iff, Ne, reachesRoot_iff]
  intro hroot
  rw [← leads_iterate_iff (k := k), hk] at hroot
  exact not_leads_of_period hperiod ⟨_, hroot⟩

/-- A walk that did not meet itself stops at a node that leads to a root, and so does every node that it
passed. -/
theorem settles (v : Visits f.parent marks i walk marks' e) (h : f.Marked marks [])
    {m : Mark} (he : marks'[e]? = some m) (hm : m ≠ .onWalk) :
    f.reachesRoot i = true ∧ f.Marked (markAll .reachesRoot marks' (e :: walk)) [] := by
  have hafter := v.marked_after h
  have hend : ∃ r, f.Leads e r := by
    obtain ⟨m', he', hroot⟩ := v.mark_end
    obtain rfl : m' = m := Option.some.inj (he'.symm.trans he)
    cases m' with
    | unvisited => exact ⟨e, .of_root (hroot rfl)⟩
    | onWalk => exact absurd rfl hm
    | reachesRoot => exact hafter.leads e he
  obtain ⟨r, hr⟩ := hend
  obtain ⟨⟨k, hk⟩, hwalk⟩ := v.iterate_eq
  constructor
  · have hi : f.Leads i r := leads_iterate_iff.mp (hk ▸ hr)
    rw [reachesRoot_iff, hi.root_eq]
    exact hi
  · refine hafter.settle (fun j hj => ?_) fun j hj => ⟨r, ?_⟩
    · exact List.mem_cons_of_mem e (by simpa using hj)
    · rcases List.mem_cons.mp hj with rfl | hj
      · exact hr
      · obtain ⟨-, n, -, hn⟩ := hwalk j hj
        exact leads_iterate_iff.mp (hn ▸ hr)

end Visits

/-! ## The search -/

theorem exists_searches (hrange : ∀ p ∈ f.parent, p < f.size) (hstarts : ∀ s ∈ starts, s < f.size)
    (h : f.Marked marks []) : ∃ found, Searches f.parent starts marks found := by
  induction starts generalizing marks with
  | nil => exact ⟨none, .done⟩
  | cons i starts ih =>
      obtain ⟨hi, hstarts⟩ := List.forall_mem_cons.mp hstarts
      obtain ⟨walk, marks', e, v⟩ := exists_visits hrange h.size_eq hi
      obtain ⟨m, he, -⟩ := v.mark_end
      by_cases hm : m = .onWalk
      · exact ⟨some e, .cycle v (hm ▸ he)⟩
      · obtain ⟨found, hrest⟩ := ih hstarts (v.settles h he hm).2
        exact ⟨found, .next v he hm hrest⟩

theorem Searches.found_eq {found : Option Nat} (hs : Searches f.parent starts marks found)
    (h : f.Marked marks []) :
    found = (starts.find? fun i => !f.reachesRoot i).map (f.firstRepeat (f.size + 1) []) := by
  induction hs with
  | done => rfl
  | cycle v he =>
      obtain ⟨-, hi, hfirst⟩ := v.meets h he
      rw [List.find?_cons_of_pos (by simp [hi]), Option.map_some, hfirst]
  | next v he hm _ ih =>
      obtain ⟨hi, hsettled⟩ := v.settles h he hm
      rw [List.find?_cons_of_neg (by simp [hi])]
      exact ih hsettled

theorem Searches.period (hs : Searches f.parent starts marks (some c)) (h : f.Marked marks []) :
    2 ≤ Function.minimalPeriod f.next c := by
  generalize hfound : some c = found at hs
  induction hs with
  | done => cases hfound
  | cycle v he =>
      cases hfound
      exact (v.meets h he).1
  | next v he hm _ ih => exact ih (v.settles h he hm).2 hfound

/-- The search comes to an end, and to no other answer than `Forest.cycle?`. -/
theorem searches_iff (hrange : ∀ p ∈ f.parent, p < f.size) {found : Option Nat} :
    Searches f.parent (List.range f.size) (Array.replicate f.size .unvisited) found ↔ f.cycle? = found := by
  constructor
  · exact fun hs => (hs.found_eq marked_start).symm
  · rintro rfl
    obtain ⟨found, hs⟩ := exists_searches hrange (fun _ => List.mem_range.mp) (marked_start (f := f))
    rw [cycle?, ← hs.found_eq marked_start]
    exact hs

theorem period_of_cycle? (hrange : ∀ p ∈ f.parent, p < f.size) (h : f.cycle? = some c) :
    2 ≤ Function.minimalPeriod f.next c :=
  ((searches_iff hrange).mpr h).period marked_start

end Cospend.Forest
