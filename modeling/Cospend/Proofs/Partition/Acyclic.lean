import Cospend.Proofs.Forest.Search
import Cospend.Proofs.Partition.Loading

/-!
# Stored forests with a cycle

The nodes that a store holds are a forest if following parents ends at a root from every node. Loading
decides this, and where it does not hold the error names a node that lies on a cycle itself, not one from
which the way only leads into a cycle.
-/

namespace Cospend.Partition

/-- Take any parents that are nodes. The search that marks what it walks ends without a read out of bounds,
and with the answer of `Forest.cycle?` and no other: there is no cycle exactly if following parents comes to
a root from every node, and a node that is found is on a cycle of two nodes or more itself. A store that
holds these parents is refused exactly if a node is found, and the error names this node. -/
theorem loadForest_decides {f : Forest} (hrange : ∀ p ∈ f.parent, p < f.size) :
    (∀ found, Forest.Searches f.parent (List.range f.size) (Array.replicate f.size .unvisited) found ↔
      f.cycle? = found) ∧
    (f.cycle? = none ↔ ∀ i < f.size, ∃ n, f.next (f.next^[n] i) = f.next^[n] i) ∧
    (∀ c, f.cycle? = some c → c < f.size ∧ 2 ≤ Function.minimalPeriod f.next c) ∧
    ∀ s : Store, loadNodes s f.size f.size .empty = .ok f →
      (loadForest s f.size = .ok f ↔ f.cycle? = none) ∧
      ∀ c, f.cycle? = some c → loadForest s f.size =
        .error (.error (.inconsistent s!"parent pointers of id {c} form a cycle")) := by
  refine ⟨fun _ => Forest.searches_iff hrange, ?_, fun c hc => ?_, fun s hs => ?_⟩
  · rw [Forest.cycle?_eq_none_iff]
    refine forall₂_congr fun i _ => ?_
    rw [← Forest.exists_leads_iff]
    constructor
    · exact fun h => ⟨_, h⟩
    · rintro ⟨r, h⟩
      rwa [h.root_eq]
  · have hperiod := Forest.period_of_cycle? hrange hc
    exact ⟨Forest.lt_size_of_next_ne (Forest.next_ne_of_period hperiod), hperiod⟩
  · have hnone : f.cycle? = none → loadForest s f.size = .ok f := by
      intro hc
      simp only [loadForest, hs, bind, Except.bind, hc]
      rfl
    have hsome : ∀ c, f.cycle? = some c → loadForest s f.size = refuse (.cycle c) := by
      intro c hc
      simp only [loadForest, hs, bind, Except.bind, hc]
    refine ⟨⟨fun hok => ?_, hnone⟩, hsome⟩
    cases hc : f.cycle? with
    | none => rfl
    | some c => exact absurd ((hsome c hc).symm.trans hok) refuse_ne_ok

/-- A root with a child, and a node from which the way leads into a cycle of two others. -/
def lasso : Forest := ⟨#[0, 0, 3, 4, 3], #[0, 0, 0, 0, 0]⟩

def lassoStore : Store :=
  ⟨Table.changeAll ∅ ([(0, 0), (1, 0), (2, 3), (3, 4), (4, 3)].flatMap fun e =>
    [.set (Variable.parent e.1).key (Variable.encode (.parent e.1) (.ofNat e.2)),
      .set (Variable.rank e.1).key (Variable.encode (.rank e.1) 0)]), .none, 0⟩

theorem loadForest_decides_lasso :
    (∀ p ∈ lasso.parent, p < lasso.size) ∧
    Forest.Searches #[0, 0, 3, 4, 3] [0, 1, 2, 3, 4] (Array.replicate 5 .unvisited) (some 3) ∧
    2 ≤ Function.minimalPeriod lasso.next 3 ∧
    (¬ ∀ i < 5, ∃ n, lasso.next (lasso.next^[n] i) = lasso.next^[n] i) ∧
    loadForest lassoStore 5 =
      .error (.error (.inconsistent "parent pointers of id 3 form a cycle")) := by
  have hrange : ∀ p ∈ lasso.parent, p < lasso.size := by decide
  have hcycle : lasso.cycle? = some 3 := by decide
  have hnodes : loadNodes lassoStore lasso.size lasso.size .empty = .ok lasso := by rfl
  obtain ⟨hsearch, hnone, hperiod, hload⟩ := loadForest_decides hrange
  refine ⟨hrange, (hsearch _).mpr hcycle, (hperiod 3 hcycle).2, ?_, (hload _ hnodes).2 3 hcycle⟩
  intro hroots
  rw [hnone.mpr hroots] at hcycle
  cases hcycle

end Cospend.Partition
