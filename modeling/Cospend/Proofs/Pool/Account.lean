import Cospend.Proofs.Pool.Moves
import Mathlib.Data.List.Perm.Lattice

/-!
# Accounts of jobs

An account tells of every job that the workers of a pool took: it was run, once and with the state that the
jobs before it had left, or a worker holds it. Of every job that was run, the end was reported or a worker is
about to report it, unless it is fatal, and there are as many fatal ends as workers that are lost. So when no
worker has a job, every job that was taken was run, and if no worker was lost every end was reported.
-/

namespace Cospend

variable {σ ε : Type}

/-- The job that a worker holds. -/
def Worker.task? : Worker σ ε → Option (Task σ ε)
  | .holding t => some t
  | _ => none

/-- The report that a worker is about to make: whether the job is one of a group, and how it ended. -/
def Worker.report? : Worker σ ε → Option (Bool × JobEnd ε)
  | .finished g r => if r.isFatal then none else some (g, r)
  | _ => none

/-- The worker ran a job with a fatal end. -/
def Worker.isLost : Worker σ ε → Bool
  | .finished _ r => r.isFatal
  | .gone => true
  | _ => false

namespace Pool

/-- The jobs that workers hold. -/
def held (p : Pool σ ε) : List (Task σ ε) := p.workers.filterMap Worker.task?

/-- The reports that workers are about to make. -/
def unreported (p : Pool σ ε) : List (Bool × JobEnd ε) := p.workers.filterMap Worker.report?

/-- Jobs run one after the other, each on the state that was left to it, with their ends. -/
inductive Ran (init : σ) : List (Task σ ε × JobEnd ε) → σ → Prop
  | none : Ran init [] init
  | more {ran : List (Task σ ε × JobEnd ε)} {s : σ} (h : Ran init ran s) (t : Task σ ε) :
      Ran init (ran ++ [(t, (t.job s).1)]) (t.job s).2

/-- The ends that are not fatal, each with whether the job is one of a group. -/
def tellable (ran : List (Task σ ε × JobEnd ε)) : List (Bool × JobEnd ε) :=
  (ran.filter fun e => !e.2.isFatal).map fun e => (e.1.grouped, e.2)

/-- What became of the jobs that workers took: those that were run, and the reports made before the
present group and since. -/
structure Account (p : Pool σ ε) (init : σ) (given : List (Task σ ε))
    (ran : List (Task σ ε × JobEnd ε)) (before since : List (Bool × JobEnd ε)) : Prop where
  shared : Ran init ran p.shared
  numbers : p.ran = ran.map fun e => e.1.number
  given_perm : given.Perm (ran.map Prod.fst ++ p.held)
  told_perm : (tellable ran).Perm (before ++ since ++ p.unreported)
  lost : p.workers.countP Worker.isLost = ran.countP fun e => e.2.isFatal
  inbox : p.inbox = (since.filter Prod.fst).map Prod.snd
  kept : p.kept = firstError? (((before ++ since).filter fun e => !e.1).map Prod.snd)

variable {p q : Pool σ ε} {init : σ} {given : List (Task σ ε)} {ran : List (Task σ ε × JobEnd ε)}
variable {before since : List (Bool × JobEnd ε)}

theorem held_of_load_eq_zero (h : p.load = 0) : p.held = [] ∧ p.unreported = [] := by
  have hidle := load_eq_zero_iff.mp h
  constructor
  · exact List.filterMap_eq_nil_iff.mpr fun w hw => by rcases hidle w hw with rfl | rfl <;> rfl
  · exact List.filterMap_eq_nil_iff.mpr fun w hw => by rcases hidle w hw with rfl | rfl <;> rfl

theorem account_start (workers : Nat) (init : σ) (clock : Nat) :
    Account (start workers init clock : Pool σ ε) init [] [] [] [] := by
  obtain ⟨hheld, hunreported⟩ := held_of_load_eq_zero (load_start (ε := ε) workers init clock)
  exact {
    shared := .none
    numbers := rfl
    given_perm := by rw [hheld]; exact .refl _
    told_perm := by rw [hunreported]; exact .refl _
    lost := List.countP_eq_zero.mpr fun w hw => by rw [List.eq_of_mem_replicate hw]; nofun
    inbox := rfl
    kept := rfl }

/-! ## Moves keep the account -/

/-- A worker that does something else only changes its own part in a list over all workers. -/
theorem filterMap_set {γ : Type} (f : Worker σ ε → Option γ) {i : Nat} {w : Worker σ ε}
    (h : p.workers[i]? = some w) (w' : Worker σ ε) :
    ∃ rest, (p.workers.filterMap f).Perm ((f w).toList ++ rest) ∧
      ((p.workers.set i w').filterMap f).Perm ((f w').toList ++ rest) := by
  have hcons : ∀ v : Worker σ ε, (v :: p.workers.eraseIdx i).filterMap f =
      (f v).toList ++ (p.workers.eraseIdx i).filterMap f := by
    intro v
    rw [List.filterMap_eq_flatMap_toList, List.filterMap_eq_flatMap_toList, List.flatMap_cons]
  refine ⟨(p.workers.eraseIdx i).filterMap f, ?_, ?_⟩
  · rw [← hcons]
    exact (workers_perm h).filterMap f
  · rw [← hcons]
    exact (set_perm h w').filterMap f

theorem countP_set (f : Worker σ ε → Bool) {i : Nat} {w : Worker σ ε} (h : p.workers[i]? = some w)
    (w' : Worker σ ε) :
    (p.workers.set i w').countP f + (if f w then 1 else 0) =
      p.workers.countP f + if f w' then 1 else 0 := by
  rw [(workers_perm h).countP_eq, (set_perm h w').countP_eq, List.countP_cons, List.countP_cons]
  omega

theorem Account.run (h : p.Account init given ran before since) {i : Nat} {t : Task σ ε}
    (hi : p.workers[i]? = some (.holding t)) :
    Account { p.setWorker i (.finished t.grouped (t.job p.shared).1) with
      shared := (t.job p.shared).2, ran := p.ran ++ [t.number] } init given
      (ran ++ [(t, (t.job p.shared).1)]) before since := by
  let w : Worker σ ε := .finished t.grouped (t.job p.shared).1
  obtain ⟨held, hold, hnew⟩ := filterMap_set Worker.task? hi w
  obtain ⟨reports, hold', hnew'⟩ := filterMap_set Worker.report? hi w
  have htellable : tellable (ran ++ [(t, (t.job p.shared).1)]) =
      tellable ran ++ (Worker.report? w).toList := by
    rw [tellable, tellable, List.filter_append, List.map_append]
    congr 1
    cases hr : (t.job p.shared).1.isFatal <;> simp [w, Worker.report?, hr]
  refine ⟨h.shared.more t, ?_, ?_, ?_, ?_, h.inbox, h.kept⟩
  · simp only [h.numbers, List.map_append, List.map_cons, List.map_nil]
  · refine h.given_perm.trans ?_
    rw [List.map_append, List.append_assoc]
    exact (hold.trans (hnew.symm.append_left [t])).append_left _
  · rw [htellable]
    refine (h.told_perm.append_right _).trans ?_
    rw [List.append_assoc]
    exact ((hold'.append_right _).trans ((List.perm_append_comm).trans hnew'.symm)).append_left _
  · have hcount := countP_set Worker.isLost hi w
    rw [List.countP_append, List.countP_singleton, ← h.lost]
    exact hcount

theorem Account.report (h : p.Account init given ran before since) {i : Nat} {g : Bool}
    {r : JobEnd ε} (hi : p.workers[i]? = some (.finished g r)) (hr : r.isFatal = false) :
    Account ((p.setWorker i .idle).report g r) init given ran before (since ++ [(g, r)]) := by
  obtain ⟨held, hold, hnew⟩ := filterMap_set Worker.task? hi .idle
  obtain ⟨reports, hold', hnew'⟩ := filterMap_set Worker.report? hi .idle
  have hlost := countP_set Worker.isLost hi .idle
  have hheld : ((p.setWorker i .idle).report g r).held.Perm p.held := by
    rw [Pool.held, workers_report]
    exact hnew.trans hold.symm
  have hreports : p.unreported.Perm ([(g, r)] ++ ((p.setWorker i .idle).report g r).unreported) := by
    rw [unreported, unreported, workers_report]
    simp only [Worker.report?, hr, Bool.false_eq_true, if_false] at hold'
    exact hold'.trans (hnew'.symm.append_left _)
  constructor
  · cases g <;> exact h.shared
  · cases g <;> exact h.numbers
  · exact h.given_perm.trans (hheld.symm.append_left _)
  · rw [← List.append_assoc, List.append_assoc]
    exact h.told_perm.trans (hreports.append_left _)
  · rw [workers_report, ← h.lost]
    simpa [Worker.isLost, hr, Pool.setWorker] using hlost
  · cases g with
    | false => simpa [Pool.report, setWorker] using h.inbox
    | true => simpa [Pool.report, setWorker] using h.inbox
  · cases g with
    | false => simp [Pool.report, setWorker, h.kept, firstError?, List.filter_append, Option.or_assoc]
    | true => simp [Pool.report, setWorker, h.kept, firstError?, List.filter_append]

/-- A worker that does something else changes nothing of the account, if it held no job, had nothing to
report and was lost as before. -/
theorem Account.setWorker (h : p.Account init given ran before since) {i : Nat} {w w' : Worker σ ε}
    (hi : p.workers[i]? = some w) (hreport : w.report? = none) (hreport' : w'.report? = none)
    (hlost : w'.isLost = w.isLost) (htask : w.task? = none) :
    (p.setWorker i w').Account init (given ++ w'.task?.toList) ran before since := by
  obtain ⟨held, hold, hnew⟩ := filterMap_set Worker.task? hi w'
  obtain ⟨reports, hold', hnew'⟩ := filterMap_set Worker.report? hi w'
  have hcount := countP_set Worker.isLost hi w'
  refine ⟨h.shared, h.numbers, ?_, ?_, ?_, h.inbox, h.kept⟩
  · rw [htask] at hold
    refine (h.given_perm.append_right _).trans ?_
    rw [List.append_assoc]
    exact ((hold.append_right _).trans ((List.perm_append_comm).trans hnew.symm)).append_left _
  · rw [hreport] at hold'
    rw [hreport'] at hnew'
    exact h.told_perm.trans ((hold'.trans hnew'.symm).append_left _)
  · rw [← h.lost]
    rw [hlost] at hcount
    exact Nat.add_right_cancel hcount

end Pool

end Cospend
