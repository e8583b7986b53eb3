import Cospend.Pool.Basic
import Mathlib.Data.List.GetD
import Mathlib.Data.List.Perm.Basic
import Mathlib.Logic.Relation

/-!
# Moves of workers

A worker that has a job can run it and then report how it ended, or get lost with it, and each such move
brings all workers nearer to being idle or gone. So a pool that waits does not wait for ever: handing a job
over and waiting for a group are finitely many moves. A job is refused only by a pool whose workers are all
gone.
-/

namespace Cospend

variable {σ ε : Type}

namespace Pool

variable {p q : Pool σ ε} (schedule : Schedule)

/-- A worker that has a job moves. -/
inductive Move (p : Pool σ ε) : Pool σ ε → Prop
  | run {i : Nat} {t : Task σ ε} (h : p.workers[i]? = some (.holding t)) :
      Move p { p.setWorker i (.finished t.grouped (t.job p.shared).1) with
        shared := (t.job p.shared).2, ran := p.ran ++ [t.number] }
  | report {i : Nat} {g : Bool} {r : JobEnd ε} (h : p.workers[i]? = some (.finished g r))
      (hr : r.isFatal = false) : Move p ((p.setWorker i .idle).report g r)
  | lose {i : Nat} {g : Bool} {r : JobEnd ε} (h : p.workers[i]? = some (.finished g r))
      (hr : r.isFatal = true) : Move p (p.setWorker i .gone)

/-- Finitely many moves. -/
abbrev Moves : Pool σ ε → Pool σ ε → Prop := Relation.ReflTransGen Move

/-! ## Replacing one worker -/

theorem workers_perm {i : Nat} {w : Worker σ ε} (h : p.workers[i]? = some w) :
    p.workers.Perm (w :: p.workers.eraseIdx i) := by
  obtain ⟨hi, rfl⟩ := List.getElem?_eq_some_iff.mp h
  exact (List.getElem_cons_eraseIdx_perm hi).symm

theorem set_perm {i : Nat} {w : Worker σ ε} (h : p.workers[i]? = some w) (w' : Worker σ ε) :
    (p.workers.set i w').Perm (w' :: p.workers.eraseIdx i) := by
  obtain ⟨hi, -⟩ := List.getElem?_eq_some_iff.mp h
  exact List.set_perm_cons_eraseIdx hi w'

theorem load_set {i : Nat} {w : Worker σ ε} (h : p.workers[i]? = some w) (w' : Worker σ ε) :
    (p.setWorker i w').load + w.load = p.load + w'.load := by
  simp only [load, setWorker]
  generalize p.workers = ws at h
  induction ws generalizing i with
  | nil => cases h
  | cons v ws ih =>
      cases i with
      | zero =>
          cases h
          simp only [List.set_cons_zero, List.foldr_cons]
          omega
      | succ i =>
          have hset := ih h
          simp only [List.set_cons_succ, List.foldr_cons]
          omega

@[simp] theorem workers_report (g : Bool) (r : JobEnd ε) : (p.report g r).workers = p.workers := by
  unfold report
  split <;> rfl

@[simp] theorem submitted_report (g : Bool) (r : JobEnd ε) : (p.report g r).submitted = p.submitted := by
  unfold report
  split <;> rfl

theorem Move.load (m : Move p q) : q.load + 1 = p.load := by
  cases m with
  | @run i t h =>
      have hset := load_set h (.finished t.grouped (t.job p.shared).1)
      exact Nat.succ.inj hset
  | report h _ =>
      have hset := load_set h .idle
      rw [Pool.load, workers_report]
      exact hset
  | lose h _ => exact load_set h .gone

theorem Move.workers_length (m : Move p q) : q.workers.length = p.workers.length := by
  cases m with
  | run h => exact List.length_set
  | report h _ =>
      rw [workers_report]
      exact List.length_set
  | lose h _ => exact List.length_set

theorem Moves.workers_length (m : Moves p q) : q.workers.length = p.workers.length := by
  induction m with
  | refl => rfl
  | tail _ m ih => exact m.workers_length.trans ih

theorem Moves.submitted_eq (m : Moves p q) : q.submitted = p.submitted := by
  induction m with
  | refl => rfl
  | tail _ m ih =>
      rw [← ih]
      cases m with
      | run _ => rfl
      | report _ _ => exact submitted_report _ _
      | lose _ _ => rfl

/-! ## Every worker with a job can move -/

theorem load_eq_zero_iff : p.load = 0 ↔ ∀ w ∈ p.workers, w = .idle ∨ w = .gone := by
  have hload : ∀ {w : Worker σ ε}, w.load = 0 ↔ w = .idle ∨ w = .gone := by
    intro w
    cases w <;> simp [Worker.load]
  rw [load]
  induction p.workers with
  | nil => simp
  | cons w ws ih =>
      rw [List.foldr_cons, List.forall_mem_cons, Nat.add_eq_zero_iff]
      exact and_congr hload ih

theorem load_start (workers : Nat) (init : σ) (clock : Nat) :
    (start workers init clock : Pool σ ε).load = 0 :=
  load_eq_zero_iff.mpr fun _ hw => .inl (List.eq_of_mem_replicate hw)

theorem workers_start (workers : Nat) (init : σ) (clock : Nat) :
    (start workers init clock : Pool σ ε).workers.length = max workers 1 :=
  List.length_replicate

theorem move_advance {i : Nat} (h : (p.workers.getD i .gone).load ≠ 0) : Move p (p.advance i) := by
  have hi : i < p.workers.length := by
    by_contra hi
    rw [List.getD_eq_default _ _ (Nat.le_of_not_lt hi)] at h
    exact h rfl
  have hget : p.workers[i]? = some (p.workers.getD i .gone) := by simp [hi]
  unfold advance
  split
  · rename_i hw
    rw [hw] at h
    exact absurd rfl h
  · rename_i hw
    rw [hw] at h
    exact absurd rfl h
  · rename_i t hw
    exact .run (hget.trans (congrArg some hw))
  · rename_i g r hw
    have hr := hget.trans (congrArg some hw)
    split
    · rename_i hfatal
      exact .lose hr hfatal
    · rename_i hfatal
      exact .report hr (Bool.eq_false_iff.mpr hfatal)

/-! ## Choices -/

theorem pick_eq_none_iff {choices : List Nat} : p.pick schedule choices = none ↔ choices = [] := by
  rw [pick, List.getElem?_eq_none_iff]
  constructor
  · intro h
    by_contra hne
    exact absurd (Nat.mod_lt _ (List.length_pos_iff.mpr hne)) (Nat.not_lt_of_le h)
  · rintro rfl
    exact Nat.zero_le _

theorem mem_of_pick {choices : List Nat} {i : Nat} (h : p.pick schedule choices = some i) : i ∈ choices :=
  List.mem_of_getElem? h

theorem mem_living {i : Nat} :
    i ∈ p.living ↔ ∃ w, p.workers[i]? = some w ∧ w.isGone = false := by
  rw [living, List.mem_filter, List.mem_range, Bool.not_eq_true']
  constructor
  · rintro ⟨hi, h⟩
    rw [List.getD_eq_getElem _ _ hi] at h
    exact ⟨_, List.getElem?_eq_getElem hi, h⟩
  · rintro ⟨w, hw, h⟩
    obtain ⟨hi, rfl⟩ := List.getElem?_eq_some_iff.mp hw
    rw [List.getD_eq_getElem _ _ hi]
    exact ⟨hi, h⟩

theorem living_eq_nil_iff : p.living = [] ↔ ∀ w ∈ p.workers, w = .gone := by
  have hgone : ∀ {w : Worker σ ε}, w.isGone = false ↔ w ≠ .gone := by
    intro w
    cases w <;> simp [Worker.isGone]
  rw [List.eq_nil_iff_forall_not_mem]
  constructor
  · intro h w hw
    by_contra hne
    obtain ⟨i, hi⟩ := List.mem_iff_getElem?.mp hw
    exact h i (mem_living.mpr ⟨w, hi, hgone.mpr hne⟩)
  · intro h i hi
    obtain ⟨w, hw, hne⟩ := mem_living.mp hi
    exact hgone.mp hne (h w (List.mem_of_getElem? hw))

theorem load_eq_zero_of_busy (h : p.busy = []) : p.load = 0 := by
  rw [load_eq_zero_iff]
  intro w hw
  obtain ⟨i, hi, rfl⟩ := List.mem_iff_getElem.mp hw
  have hzero : ¬ (p.workers.getD i .gone).load ≠ 0 := by
    intro hne
    have hmem : i ∈ p.busy := List.mem_filter.mpr ⟨List.mem_range.mpr hi, by simpa using hne⟩
    rw [h] at hmem
    cases hmem
  rw [List.getD_eq_getElem _ _ hi] at hzero
  cases hget : p.workers[i] <;> simp [hget, Worker.load] at hzero ⊢

/-! ## Handing over and waiting -/

/-- The task was handed over to an idle worker, or refused as all workers are gone. -/
inductive HandedOver (t : Task σ ε) (q : Pool σ ε) : Option (WorkerError ε) × Pool σ ε → Prop
  | taken {i : Nat} (h : q.workers[i]? = some .idle) : HandedOver t q (none, q.setWorker i (.holding t))
  | refused (h : ∀ w ∈ q.workers, w = .gone) : HandedOver t q (some .poolClosed, q)

/-- A pool that has to move a number of times at most finds an idle worker in that time, if there is one
left. -/
theorem handOver_moves {t : Task σ ε} {left : Nat} (hleft : p.load ≤ left) :
    ∃ q, Moves p q ∧ HandedOver t q (handOver schedule t left p) := by
  induction left generalizing p with
  | zero =>
      unfold handOver
      split
      · rename_i hpick
        exact ⟨p, .refl, .refused (living_eq_nil_iff.mp ((pick_eq_none_iff schedule).mp hpick))⟩
      · rename_i i hpick
        obtain ⟨w, hw, hgone⟩ := mem_living.mp (mem_of_pick schedule hpick)
        rcases load_eq_zero_iff.mp (Nat.le_zero.mp hleft) w (List.mem_of_getElem? hw) with rfl | rfl
        · exact ⟨p, .refl, .taken hw⟩
        · cases hgone
  | succ left ih =>
      unfold handOver
      split
      · rename_i hpick
        exact ⟨p, .refl, .refused (living_eq_nil_iff.mp ((pick_eq_none_iff schedule).mp hpick))⟩
      · rename_i i hpick
        obtain ⟨w, hw, hgone⟩ := mem_living.mp (mem_of_pick schedule hpick)
        have hget : p.workers.getD i .gone = w := by
          rw [List.getD_eq_getElem?_getD, hw, Option.getD_some]
        rw [hget]
        cases w with
        | idle => exact ⟨p, .refl, .taken hw⟩
        | gone => cases hgone
        | holding _ | finished _ _ =>
            have m : Move p (p.advance i) := move_advance (by rw [hget]; nofun)
            have hload := m.load
            obtain ⟨q, hmoves, hq⟩ := ih (p := p.advance i) (by omega)
            exact ⟨q, .head m hmoves, hq⟩

theorem advanceBusy_moves : (p.load = 0 ∧ p.advanceBusy schedule = p) ∨
    Move p (p.advanceBusy schedule) := by
  unfold advanceBusy
  split
  · rename_i hpick
    exact .inl ⟨load_eq_zero_of_busy ((pick_eq_none_iff schedule).mp hpick), rfl⟩
  · rename_i i hpick
    obtain ⟨-, hload⟩ := List.mem_filter.mp (mem_of_pick schedule hpick)
    exact .inr (move_advance (by simpa using hload))

/-- A pool that waits for its workers goes on until none of them has a job. -/
theorem awaitIdle_moves {left : Nat} (hleft : p.load ≤ left) :
    Moves p (p.awaitIdle schedule left) ∧ (p.awaitIdle schedule left).load = 0 := by
  induction left generalizing p with
  | zero => exact ⟨.refl, Nat.le_zero.mp hleft⟩
  | succ left ih =>
      unfold awaitIdle
      rcases advanceBusy_moves (p := p) schedule with ⟨hzero, heq⟩ | m
      · rw [heq]
        exact ih (by omega)
      · have hload := m.load
        obtain ⟨hmoves, hend⟩ := ih (p := p.advanceBusy schedule) (by omega)
        exact ⟨.head m hmoves, hend⟩

/-- No worker has a job of a group. -/
def Settled (p : Pool σ ε) : Prop := ∀ w ∈ p.workers, w.grouped = false

theorem settled_of_load (h : p.load = 0) : p.Settled := by
  intro w hw
  rcases load_eq_zero_iff.mp h w hw with rfl | rfl <;> rfl

/-- A pool waits for a group until no worker has a job of it. -/
theorem awaitGroup_moves {left : Nat} (hleft : p.load ≤ left) :
    Moves p (p.awaitGroup schedule left) ∧ (p.awaitGroup schedule left).Settled := by
  induction left generalizing p with
  | zero => exact ⟨.refl, settled_of_load (Nat.le_zero.mp hleft)⟩
  | succ left ih =>
      unfold awaitGroup
      split
      · rcases advanceBusy_moves (p := p) schedule with ⟨hzero, heq⟩ | m
        · rw [heq]
          exact ih (by omega)
        · have hload := m.load
          obtain ⟨hmoves, hend⟩ := ih (p := p.advanceBusy schedule) (by omega)
          exact ⟨.head m hmoves, hend⟩
      · rename_i h
        refine ⟨.refl, fun w hw => Bool.eq_false_iff.mpr fun hg => h ?_⟩
        exact List.any_eq_true.mpr ⟨w, hw, hg⟩

end Pool

end Cospend
