import Cospend.Proofs.Pool.Groups

/-!
# Calls to a pool

Jobs are submitted to a pool alone or in groups, in any order, and then the pool is closed. However the
workers take turns, each job that a worker takes is run once. As long as no end is fatal, failed and abandoned
jobs included, all jobs are taken, the answer of a group tells of the jobs of that group, and the answer of
closing tells of the jobs that were submitted alone. A fatal end costs a worker, and the pool refuses jobs once
it has none left.
-/

namespace Cospend

variable {σ ε : Type}

/-- A call to a pool that is open. -/
inductive PoolCall (σ ε : Type) where
  | submit (job : Job σ ε)
  | executeAll (jobs : List (Job σ ε))

/-- The jobs of a call, and whether they are a group. -/
def PoolCall.jobs : PoolCall σ ε → List (Bool × Job σ ε)
  | .submit job => [(false, job)]
  | .executeAll jobs => jobs.map fun job => (true, job)

namespace Pool

variable {p : Pool σ ε} {init : σ} {workers : Nat} {jobs : List (Bool × Job σ ε)}
variable {ran own : List (Task σ ε × JobEnd ε)} {told : List (JobEnd ε)} {ts : List (Task σ ε)}

/-- The answer of a call and the pool after it. -/
def perform (schedule : Schedule) (p : Pool σ ε) : PoolCall σ ε → Option (WorkerError ε) × Pool σ ε
  | .submit job => p.submit schedule job
  | .executeAll jobs => p.executeAll schedule jobs

/-- The pool after calls, whatever they answer. -/
def performAll (schedule : Schedule) (p : Pool σ ε) (calls : List (PoolCall σ ε)) : Pool σ ε :=
  calls.foldl (fun p call => (p.perform schedule call).2) p

/-! ## Open pools -/

/-- The pool was asked to run these jobs, and no job of a group is under way. All of them were taken, unless a
worker was lost. -/
structure Serving (workers : Nat) (init : σ) (jobs : List (Bool × Job σ ε)) (p : Pool σ ε) : Prop where
  workers_length : p.workers.length = max workers 1
  settled : p.Settled
  account : ∃ taken ran before since, p.Orderly init (tasks 0 taken) ran before since ∧
    p.submitted = taken.length ∧ taken.Sublist jobs ∧ (Survived ran → taken = jobs)

theorem serving_start (workers : Nat) (init : σ) (clock : Nat) :
    (start workers init clock : Pool σ ε).Serving workers init [] where
  workers_length := workers_start workers init clock
  settled := settled_of_load (load_start workers init clock)
  account := ⟨[], [], [], [], orderly_start workers init clock, rfl, .slnil, fun _ => rfl⟩

/-- The tasks of more jobs, after those that were taken. -/
theorem tasks_next {taken : List (Bool × Job σ ε)} (h : p.submitted = taken.length)
    (more : List (Bool × Job σ ε)) : tasks 0 (taken ++ more) = tasks 0 taken ++ tasks p.submitted more := by
  rw [tasks_append, Nat.zero_add, h]

namespace Serving

theorem workers_ne_nil (h : p.Serving workers init jobs) : p.workers ≠ [] := by
  rw [← List.length_pos_iff, h.workers_length]
  exact Nat.lt_of_lt_of_le Nat.one_pos (Nat.le_max_right _ _)

theorem single_iff (h : p.Serving workers init jobs) : p.workers.length = 1 ↔ workers ≤ 1 := by
  rw [h.workers_length]
  omega

theorem perform (h : p.Serving workers init jobs) (schedule : Schedule) (call : PoolCall σ ε) :
    (p.perform schedule call).2.Serving workers init (jobs ++ call.jobs) := by
  obtain ⟨taken, ran, before, since, haccount, hsubmitted, hsub, hall⟩ := h.account
  cases call with
  | submit job =>
      obtain ⟨hlength, hsettled, more, since', hcases⟩ := haccount.take schedule false job
      refine ⟨hlength.trans h.workers_length, hsettled rfl h.settled, ?_⟩
      rcases hcases with ⟨-, hnext, -, hq⟩ | ⟨-, hnext, hgone, hq⟩
      · rw [← tasks_next hsubmitted] at hq
        refine ⟨_, _, _, _, hq, ?_, hsub.append_right _, fun hsurvived => ?_⟩
        · rw [List.length_append, ← hsubmitted]
          exact hnext
        · rw [hall (survived_append.mp hsurvived).1]
          rfl
      · have hne := h.workers_ne_nil
        rw [← List.length_pos_iff, ← hlength, List.length_pos_iff] at hne
        exact ⟨_, _, _, _, hq, hnext.trans hsubmitted, hsub.trans (List.sublist_append_left _ _),
          fun hsurvived => absurd hsurvived (hq.not_survived_of_gone hne hgone)⟩
  | executeAll group =>
      obtain ⟨hlength, hsettled, n, more, since', hn, hnext, hq, -, -, hcases⟩ :=
        haccount.executeAll h.settled schedule group
      rw [← tasks_next hsubmitted] at hq
      refine ⟨hlength.trans h.workers_length, hsettled, _, _, _, _, hq, ?_, ?_, fun hsurvived => ?_⟩
      · rw [List.length_append, ← hsubmitted, List.length_map, List.length_take_of_le hn]
        exact hnext
      · exact hsub.append ((List.take_sublist n group).map _)
      · obtain ⟨hn, -⟩ := hcases.resolve_right fun h' => h'.1 h.workers_ne_nil hsurvived
        rw [hall (survived_append.mp hsurvived).1, hn, List.take_length]
        rfl

theorem performAll (h : p.Serving workers init jobs) (schedule : Schedule)
    (calls : List (PoolCall σ ε)) :
    (p.performAll schedule calls).Serving workers init (jobs ++ calls.flatMap PoolCall.jobs) := by
  induction calls generalizing p jobs with
  | nil => simpa [Pool.performAll] using h
  | cons call calls ih =>
      rw [List.flatMap_cons, ← List.append_assoc]
      exact ih (h.perform schedule call)

end Serving

/-! ## Answers -/

/-- The tasks were run, and the answer tells how: it is none if all were done, and otherwise the error of
one of them, which is the first one in order if the tasks are run in order. -/
def Reported (ran : List (Task σ ε × JobEnd ε)) (ts : List (Task σ ε)) (ordered : Prop)
    (answer : Option (WorkerError ε)) : Prop :=
  ∃ ends, List.Forall₂ (fun t e => (t, e) ∈ ran) ts ends ∧ (answer = none ↔ ∀ e ∈ ends, e = .done) ∧
    (∀ err, answer = some err → err ≠ .poolClosed ∧ ∃ e ∈ ends, e.error? = some err) ∧
    (ordered → answer = firstError? ends)

theorem error?_ne_poolClosed {e : JobEnd ε} {err : WorkerError ε} (h : e.error? = some err) :
    err ≠ .poolClosed := by
  cases e <;> cases h <;> simp

theorem reported_of_same {ordered : Prop} (hown : ∀ e ∈ own, e ∈ ran)
    (hts : Same ordered ts (own.map Prod.fst)) (htold : Same ordered (own.map Prod.snd) told) :
    Reported ran ts ordered (firstError? told) := by
  have hran : List.Forall₂ (fun t e => (t, e) ∈ ran) (own.map Prod.fst) (own.map Prod.snd) := by
    rw [List.forall₂_map_left_iff, List.forall₂_map_right_iff, List.forall₂_same]
    exact hown
  -- the ends in the order of the tasks, which is the order of the reports if that is kept
  obtain ⟨ends, hends, hperm, hordered⟩ : ∃ ends, List.Forall₂ (fun t e => (t, e) ∈ ran) ts ends ∧
      ends.Perm told ∧ (ordered → told = ends) := by
    by_cases ho : ordered
    · rw [hts.2 ho, ← htold.2 ho]
      exact ⟨_, hran, .refl _, fun _ => rfl⟩
    · obtain ⟨ends, hends, hperm⟩ := List.perm_comp_forall₂ hts.1 hran
      exact ⟨ends, hends, hperm.trans htold.1, fun h => absurd h ho⟩
  refine ⟨ends, hends, ?_, fun err herr => ?_, fun ho => by rw [hordered ho]⟩
  · rw [firstError?_eq_none_iff]
    exact forall_congr' fun e => by rw [hperm.mem_iff]
  · obtain ⟨e, he, herr⟩ := List.exists_of_findSome?_eq_some herr
    exact ⟨error?_ne_poolClosed herr, e, hperm.mem_iff.mpr he, herr⟩

/-- The jobs that a pool ran, one after the other and none of them twice. -/
structure RanOnce (p : Pool σ ε) (init : σ) (ran : List (Task σ ε × JobEnd ε)) : Prop where
  shared : Ran init ran p.shared
  numbers : p.ran = ran.map fun e => e.1.number
  nodup : p.ran.Nodup

/-- No number is given out twice, so no job is run twice. -/
theorem Account.ranOnce {before since : List (Bool × JobEnd ε)}
    (h : p.Account init (tasks 0 jobs) ran before since) : p.RanOnce init ran := by
  refine ⟨h.shared, h.numbers, ?_⟩
  have hnumbers := h.given_perm.map Task.number
  rw [map_number_tasks, List.map_append, List.map_map] at hnumbers
  rw [h.numbers]
  exact (hnumbers.nodup_iff.mp List.nodup_range').of_append_left

/-- Once no worker has a job, all jobs that were taken have been run, and every end of a job submitted alone that
can be told was reported. -/
theorem Orderly.kept_same {given : List (Task σ ε)} {before since : List (Bool × JobEnd ε)}
    (h : p.Orderly init given ran before since) (hidle : p.load = 0) :
    Same (p.workers.length = 1) given (ran.map Prod.fst) ∧ ∃ told,
      Same (p.workers.length = 1) (((tellable ran).filter fun e => !e.1).map Prod.snd) told ∧
        p.kept = firstError? told := by
  obtain ⟨hheld, hunreported⟩ := held_of_load_eq_zero hidle
  have hgiven := h.given_same
  have htold := (h.told_same.filter fun e => !e.1).map Prod.snd
  rw [hheld, List.append_nil] at hgiven
  rw [hunreported, List.append_nil] at htold
  exact ⟨hgiven, _, htold, h.kept⟩

/-- The first error that was kept is one of the jobs submitted alone, once no worker has a job. -/
theorem Orderly.reported_alone {given : List (Task σ ε)} {before since : List (Bool × JobEnd ε)}
    (h : p.Orderly init given ran before since) (hidle : p.load = 0) (hsurvived : Survived ran) :
    Reported ran (given.filter fun t => !t.grouped) (p.workers.length = 1) p.kept := by
  obtain ⟨hgiven, told, htold, hkept⟩ := h.kept_same hidle
  have hown := hgiven.filter fun t => !t.grouped
  rw [List.filter_map] at hown
  rw [tellable_of_survived hsurvived, List.filter_map, List.map_map] at htold
  rw [hkept]
  exact reported_of_same (fun e he => List.mem_of_mem_filter he) hown htold

/-- The answer of a group tells of its jobs, if no worker was lost. -/
theorem reported_group {more : List (Task σ ε × JobEnd ε)} {ordered : Prop} {inbox : List (JobEnd ε)}
    (hgroup : Same ordered ts ((more.filter fun e => e.1.grouped).map Prod.fst))
    (hinbox : Same ordered (((tellable more).filter Prod.fst).map Prod.snd) inbox)
    (hmore : ∀ e ∈ more, e ∈ ran) (hsurvived : Survived more) :
    Reported ran ts ordered (groupAnswer ts.length inbox) := by
  rw [groupAnswer_of_survived hgroup.1 hinbox.1 hsurvived]
  rw [tellable_of_survived hsurvived, List.filter_map, List.map_map] at hinbox
  exact reported_of_same (fun e he => hmore e (List.mem_of_mem_filter he)) hgroup hinbox

/-- Whatever was called, in whatever turns the workers moved and however the jobs ended.

A job that is submitted now is taken, unless there were as many fatal ends as workers. A group that is run now
without an error is over, each of its jobs having been run and done; and if no end was fatal then its answer
tells of the jobs of this group. If the pool is closed now then every job that was ever taken has been run,
once; and if no end was fatal then these are all jobs, and the answer tells of those that were submitted alone.
With one worker the error answered is the first one in the order of submission. -/
theorem calls_complete (schedule : Schedule) (workers : Nat) (init : σ) (clock : Nat)
    (calls : List (PoolCall σ ε)) (p₀ : Pool σ ε) (hstart : start? workers init clock = .ok p₀) :
    let jobs := calls.flatMap PoolCall.jobs
    let p := p₀.performAll schedule calls
    (∀ job : Job σ ε, let out := p.submit schedule job
      ∃ ran, out.2.RanOnce init ran ∧
        out.1 = if ran.countP (fun e => e.2.isFatal) = max workers 1 then some .poolClosed else none) ∧
    (∀ group : List (Job σ ε), let out := p.executeAll schedule group
      ∃ ran, out.2.RanOnce init ran ∧
        (out.1 = none → ∀ t ∈ groupTasks p.submitted group, (t, .done) ∈ ran) ∧
        (Survived ran → Reported ran (groupTasks jobs.length group) (workers ≤ 1) out.1)) ∧
    let out := p.close schedule
    ∃ taken ran, taken.Sublist jobs ∧ out.2.RanOnce init ran ∧
      (ran.map Prod.fst).Perm (tasks 0 taken) ∧
      (Survived ran → taken = jobs ∧
        Reported ran ((tasks 0 jobs).filter fun t => !t.grouped) (workers ≤ 1) out.1) := by
  intro jobs p
  have hp₀ : p₀ = start workers init clock := by
    unfold start? at hstart
    split at hstart <;> cases hstart
    rfl
  have h : p.Serving workers init jobs := by
    have h := (serving_start (ε := ε) workers init clock).performAll schedule calls
    rwa [← hp₀] at h
  obtain ⟨taken, ran, before, since, haccount, hsubmitted, hsub, hall⟩ := h.account
  refine ⟨fun job => ?_, fun group => ?_, ?_⟩
  · obtain ⟨hlength, -, more, since', hcases⟩ := haccount.take schedule false job
    rcases hcases with ⟨hanswer, -, hleft, hq⟩ | ⟨hanswer, -, hgone, hq⟩
    · rw [← tasks_next hsubmitted] at hq
      have hlt := hq.countP_lt hleft
      rw [hlength, h.workers_length] at hlt
      exact ⟨_, hq.ranOnce, hanswer.trans (if_neg (Nat.ne_of_lt hlt)).symm⟩
    · have hcount := hq.countP_eq_of_gone hgone
      rw [hlength, h.workers_length] at hcount
      exact ⟨_, hq.ranOnce, hanswer.trans (if_pos hcount).symm⟩
  · obtain ⟨-, -, n, more, since', hn, -, hq, hgroup, hinbox, hcases⟩ :=
      haccount.executeAll h.settled schedule group
    rw [← tasks_next hsubmitted] at hq
    refine ⟨ran ++ more, hq.ranOnce, fun hnone => ?_, fun hsurvived => ?_⟩
    · obtain ⟨rfl, hanswer⟩ := hcases.resolve_right fun h' => by rw [h'.2] at hnone; cases hnone
      rw [List.take_length] at hgroup
      intro t ht
      refine List.mem_append_right _ (done_of_groupAnswer hgroup.1 hinbox.1 ?_ t ht)
      rw [length_tasks, List.length_map, ← hanswer]
      exact hnone
    · obtain ⟨rfl, hanswer⟩ := hcases.resolve_right fun h' => h'.1 h.workers_ne_nil hsurvived
      obtain ⟨hran, hmore⟩ := survived_append.mp hsurvived
      rw [List.take_length] at hgroup
      rw [h.single_iff] at hgroup hinbox
      have hreported := reported_group hgroup hinbox (fun e he => List.mem_append_right ran he) hmore
      rw [length_tasks, List.length_map, ← hanswer, hsubmitted, hall hran] at hreported
      exact hreported
  · obtain ⟨hmoves, hidle⟩ := awaitIdle_moves schedule (Nat.le_refl p.load)
    obtain ⟨more, since', hq⟩ := haccount.moves hmoves
    refine ⟨taken, ran ++ more, hsub, hq.ranOnce, (hq.kept_same hidle).1.1.symm, fun hsurvived => ?_⟩
    have htaken := hall (survived_append.mp hsurvived).1
    have hreported := hq.reported_alone hidle hsurvived
    rw [hmoves.workers_length, h.single_iff, htaken] at hreported
    exact ⟨htaken, hreported⟩

/-- Jobs that are submitted alone, one after the other, to a new pool that is closed then. The first ones are
taken, and all of them unless there were as many fatal ends as workers. The error is the first one told. -/
theorem takeAll_close (schedule : Schedule) (workers : Nat) (init : σ) (clock : Nat) (jobs : List (Job σ ε)) :
    let taking := takeAll schedule false jobs (start workers init clock)
    let closing := taking.2.close schedule
    ∃ n ran told, Ran init ran closing.2.shared ∧
      Same (workers ≤ 1) (jobs.take n) (ran.map fun e => e.1.job) ∧
      Same (workers ≤ 1) ((ran.map Prod.snd).filter fun e => !e.isFatal) told ∧
      closing.1 = firstError? told ∧
      (n = jobs.length ∧ taking.1 = none ∨ n < jobs.length ∧ taking.1 = some .poolClosed ∧
        max workers 1 ≤ (ran.map Prod.snd).countP JobEnd.isFatal) := by
  intro taking closing
  obtain ⟨hlength, -, n, more, since, -, htaken, -, hq⟩ :=
    (orderly_start workers init clock).takeAll schedule false jobs
  obtain ⟨hmoves, hidle⟩ := awaitIdle_moves schedule (Nat.le_refl taking.2.load)
  obtain ⟨more', since', hr⟩ := hq.moves hmoves
  have hr : closing.2.Orderly init (tasks 0 ((jobs.take n).map fun job => (false, job))) (more ++ more') []
      since' := hr
  have hworkers : taking.2.workers.length = max workers 1 := hlength.trans (workers_start workers init clock)
  have hsingle : closing.2.workers.length = 1 ↔ workers ≤ 1 := by
    rw [show closing.2.workers.length = _ from hmoves.workers_length, hworkers]
    omega
  obtain ⟨hgiven, told, htold, hkept⟩ := hr.kept_same hidle
  rw [hsingle] at hgiven htold
  have hjobs := hgiven.map Task.job
  rw [map_job_tasks, List.map_map, List.map_map, show Prod.snd ∘ (fun job => (false, job)) = id from rfl,
    List.map_id] at hjobs
  -- all jobs were submitted alone, so all ends are told that can be
  have halone : ((tellable (more ++ more')).filter fun e => !e.1).map Prod.snd =
      ((more ++ more').map Prod.snd).filter fun e => !e.isFatal := by
    rw [List.filter_eq_self.mpr, tellable, List.map_map, List.filter_map]
    · rfl
    · intro e he
      obtain ⟨e', he', rfl⟩ := List.mem_map.mp he
      have hmem := hgiven.1.mem_iff.mpr (List.mem_map_of_mem (List.mem_of_mem_filter he'))
      rw [grouped_of_mem hmem]
      rfl
  rw [halone] at htold
  refine ⟨n, more ++ more', told, hr.shared, hjobs, htold, hkept, ?_⟩
  refine htaken.or.imp_right ?_
  rintro ⟨hn, hgone, hanswer⟩
  refine ⟨hn, hanswer, ?_⟩
  have hcount := hq.countP_eq_of_gone hgone
  rw [List.nil_append, hworkers] at hcount
  rw [← hcount, List.countP_map, List.countP_append]
  exact Nat.le_add_right _ _

/-- A job that counts itself and ends as told. -/
def counting (result : JobEnd String) : Job Nat String := fun n => (result, n + 1)

/-- One worker runs a job that fails, a group in which the second job is abandoned, and one more job. -/
theorem calls_complete_single :
    let calls : List (PoolCall Nat String) := [.submit (counting (.failed "no")),
      .executeAll [counting .done, counting .aborted], .submit (counting .done)]
    let p := (start 0 0 0).performAll .first calls
    start? 0 0 0 = .ok (start 0 0 0 : Pool Nat String) ∧
      (p.submit .first (counting .done)).1 = none ∧
      (p.close .first).1 = some (.job "no") ∧ (p.close .first).2.ran = [0, 1, 2, 3] ∧
      (p.executeAll .first [counting .aborted, counting (.failed "no")]).1 = some .jobAborted ∧
      ∃ taken ran, (p.close .first).2.RanOnce 0 ran ∧ (ran.map Prod.fst).Perm (tasks 0 taken) := by
  intro calls p
  have hstart : start? 0 0 0 = .ok (start 0 0 0 : Pool Nat String) := rfl
  obtain ⟨-, -, taken, ran, -, hran, hperm, -⟩ := calls_complete .first 0 0 0 calls _ hstart
  exact ⟨hstart, by decide +kernel, by decide +kernel, by decide +kernel, by decide +kernel, taken, ran,
    hran, hperm⟩

/-- The only worker is lost with its first job. The second job is refused and never run, and yet closing the
pool answers no error. And no pool starts with more workers than an array can name. -/
theorem refused_after_fatal :
    let p : Pool Nat String := start 1 0 0
    let (first, q) := p.submit .first (counting .fatal)
    let (second, r) := q.submit .first (counting .done)
    start? 1 0 0 = .ok p ∧ first = none ∧ second = some .poolClosed ∧
      (r.executeAll .first [counting .done]).1 = some .poolClosed ∧
      (r.close .first).1 = none ∧ (r.close .first).2.ran = [0] ∧
      start? 0xFFFFFFFFFFFFFFFF 0 0 = (.error .capacityOverflow : Except Abort (Pool Nat String)) :=
  ⟨rfl, by decide +kernel, by decide +kernel, by decide +kernel, by decide +kernel, by decide +kernel, rfl⟩

end Pool

end Cospend
