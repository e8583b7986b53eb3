import Cospend.Proofs.Forest.Walk
import Mathlib.Logic.Function.Iterate

/-!
# Forests without a cycle

Parents that are nodes lead to a root or run into a cycle. A forest with such parents is sound if no
cycle is found in it.
-/

namespace Cospend.Forest

variable {f : Forest}

theorem leads_climb {n i : Nat} (h : f.next (f.climb n i) = f.climb n i) :
    f.Leads i (f.climb n i) := by
  induction n generalizing i with
  | zero => exact .of_root h
  | succ n ih =>
      by_cases hi : f.next i = i
      · simp only [climb, if_pos hi]
        exact .of_root hi
      · simp only [climb, if_neg hi] at h ⊢
        exact (ih h).of_next

/-- A walk ends exactly if following parents comes to a root after some number of steps. -/
theorem exists_leads_iff {i : Nat} :
    (∃ r, f.Leads i r) ↔ ∃ n, f.next (f.next^[n] i) = f.next^[n] i := by
  constructor
  · rintro ⟨r, way, w⟩
    induction w with
    | root h => exact ⟨0, h⟩
    | step _ _ ih =>
        obtain ⟨n, hn⟩ := ih
        exact ⟨n + 1, hn⟩
  · rintro ⟨n, hn⟩
    induction n generalizing i with
    | zero => exact ⟨i, .of_root hn⟩
    | succ n ih =>
        obtain ⟨r, hr⟩ := ih hn
        exact ⟨r, hr.of_next⟩

theorem leads_iterate_iff {i r k : Nat} : f.Leads (f.next^[k] i) r ↔ f.Leads i r := by
  induction k generalizing i with
  | zero => rfl
  | succ k ih => exact ih.trans ⟨Leads.of_next, Leads.next⟩

theorem exists_leads (hroots : ∀ i < f.size, ∃ n, f.next (f.next^[n] i) = f.next^[n] i) (i : Nat) :
    ∃ r, f.Leads i r := by
  rcases Nat.lt_or_ge i f.size with hi | hi
  · exact exists_leads_iff.mpr (hroots i hi)
  · exact ⟨i, .of_root (next_of_size_le hi)⟩

theorem reachesRoot_iff {i : Nat} : f.reachesRoot i = true ↔ f.Leads i (f.root i) := by
  rw [reachesRoot, beq_iff_eq]
  refine ⟨leads_climb, fun ⟨_, w⟩ => w.next_end⟩

theorem cycle?_eq_none_iff : f.cycle? = none ↔ ∀ i < f.size, f.Leads i (f.root i) := by
  simp [cycle?, List.find?_eq_none, reachesRoot_iff]

theorem sound_iff : f.Sound ↔
    f.rank.size = f.size ∧ (∀ i < f.size, f.next i < f.size) ∧ f.cycle? = none := by
  rw [cycle?_eq_none_iff]
  constructor
  · exact fun hf => ⟨hf.rank_size, fun _ hi => hf.next_lt hi, fun i _ => hf.leads_root i⟩
  · rintro ⟨hrank, hnext, hleads⟩
    refine ⟨hrank, fun {i} hi => hnext i hi, fun i => ?_⟩
    rcases Nat.lt_or_ge i f.size with hi | hi
    · exact ⟨_, hleads i hi⟩
    · exact ⟨i, .of_root (next_of_size_le hi)⟩

end Cospend.Forest
