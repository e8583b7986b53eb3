import Cospend.Proofs.Pool.Account
import Mathlib.Data.List.Count
import Mathlib.Data.List.Forall2

/-!
# Groups of jobs

Every job that a worker takes is run, and every end that is not fatal is reported, whatever the workers do in
between; a single worker moreover takes the jobs in the order of their submission and reports them in the same
order. When a group is over, each of its jobs that was taken has been run, and none is left. Jobs are refused
only once there were as many fatal ends as workers.
-/

namespace Cospend

variable {α γ σ ε : Type}

/-- No worker is lost with the job, whatever state it finds. -/
def Job.Mild (j : Job σ ε) : Prop := ∀ s, (j s).1 ≠ .fatal

namespace Pool

/-! ## The same members, perhaps in one order -/

/-- The lists have the same members as often, and if they are `ordered` they are in the same order. -/
def Same (ordered : Prop) (l l' : List α) : Prop := l.Perm l' ∧ (ordered → l = l')

namespace Same

variable {ordered : Prop} {l l' l'' k : List α}

theorem symm (h : Same ordered l l') : Same ordered l' l :=
  ⟨h.1.symm, fun ho => (h.2 ho).symm⟩

theorem trans (h : Same ordered l l') (h' : Same ordered l' l'') : Same ordered l l'' :=
  ⟨h.1.trans h'.1, fun ho => (h.2 ho).trans (h'.2 ho)⟩

theorem of_eq (h : l = l') : Same ordered l l' := ⟨.of_eq h, fun _ => h⟩

theorem append_right (h : Same ordered l l') (k : List α) : Same ordered (l ++ k) (l' ++ k) :=
  ⟨h.1.append_right k, fun ho => by rw [h.2 ho]⟩

theorem filter (h : Same ordered l l') (p : α → Bool) : Same ordered (l.filter p) (l'.filter p) :=
  ⟨h.1.filter p, fun ho => by rw [h.2 ho]⟩

theorem map (h : Same ordered l l') (f : α → γ) : Same ordered (l.map f) (l'.map f) :=
  ⟨h.1.map f, fun ho => by rw [h.2 ho]⟩

theorem cancel (h : Same ordered (k ++ l) (k ++ l')) : Same ordered l l' :=
  ⟨(List.perm_append_left_iff k).mp h.1, fun ho => List.append_cancel_left (h.2 ho)⟩

/-- What has the same members as images of a list are images of a list that has the same members. -/
theorem exists_of_map {f : α → γ} {cs : List γ} {as : List α} (h : Same ordered cs (as.map f)) :
    ∃ as', cs = as'.map f ∧ Same ordered as' as := by
  by_cases ho : ordered
  · exact ⟨as, h.2 ho, .of_eq rfl⟩
  · obtain ⟨as', hcs, hperm⟩ := (congrFun (congrFun (List.eq_map_comp_perm f) cs) as).mpr h.1
    exact ⟨as', hcs, hperm, fun h => absurd h ho⟩

end Same

/-! ## Accounts in order -/

variable {p q : Pool σ ε} {init : σ} {given : List (Task σ ε)} {ran more : List (Task σ ε × JobEnd ε)}
variable {before since : List (Bool × JobEnd ε)}

/-- No worker was lost with one of the jobs that were run. -/
def Survived (ran : List (Task σ ε × JobEnd ε)) : Prop := ∀ e ∈ ran, e.2 ≠ .fatal

theorem isFatal_iff {r : JobEnd ε} : r.isFatal = true ↔ r = .fatal := by
  cases r <;> simp [JobEnd.isFatal]

theorem survived_append : Survived (ran ++ more) ↔ Survived ran ∧ Survived more := List.forall_mem_append

/-- If no worker was lost then every end can be told. -/
theorem tellable_of_survived (h : Survived ran) : tellable ran = ran.map fun e => (e.1.grouped, e.2) := by
  rw [tellable, List.filter_eq_self.mpr]
  intro e he
  rw [Bool.not_eq_true', Bool.eq_false_iff]
  exact fun hfatal => h e he (isFatal_iff.mp hfatal)

theorem tellable_append (ran more : List (Task σ ε × JobEnd ε)) :
    tellable (ran ++ more) = tellable ran ++ tellable more := by
  rw [tellable, List.filter_append, List.map_append]
  rfl

/-- A pool whose workers are all gone lost as many jobs. -/
theorem Account.countP_eq_of_gone (h : p.Account init given ran before since)
    (hgone : ∀ w ∈ p.workers, w = .gone) : ran.countP (fun e => e.2.isFatal) = p.workers.length := by
  rw [← h.lost, List.countP_eq_length]
  intro w hw
  rw [hgone w hw]
  rfl

theorem Account.not_survived_of_gone (h : p.Account init given ran before since) (hp : p.workers ≠ [])
    (hgone : ∀ w ∈ p.workers, w = .gone) : ¬ Survived ran := by
  intro hsurvived
  have hzero : ran.countP (fun e => e.2.isFatal) = 0 :=
    List.countP_eq_zero.mpr fun e he hfatal => hsurvived e he (isFatal_iff.mp hfatal)
  rw [h.countP_eq_of_gone hgone, List.length_eq_zero_iff] at hzero
  exact hp hzero

/-- A pool with a worker that is not lost ran fewer jobs with a fatal end than it has workers. -/
theorem Account.countP_lt (h : p.Account init given ran before since)
    (hleft : ∃ w ∈ p.workers, w.isLost = false) :
    ran.countP (fun e => e.2.isFatal) < p.workers.length := by
  rw [← h.lost, List.countP_lt_length_iff]
  exact hleft

/-- An account in which a single worker keeps the order of the jobs. -/
structure Orderly (p : Pool σ ε) (init : σ) (given : List (Task σ ε))
    (ran : List (Task σ ε × JobEnd ε)) (before since : List (Bool × JobEnd ε)) : Prop
    extends Account p init given ran before since where
  given_eq : p.workers.length = 1 → given = ran.map Prod.fst ++ p.held
  told_eq : p.workers.length = 1 → tellable ran = before ++ since ++ p.unreported

theorem orderly_start (workers : Nat) (init : σ) (clock : Nat) :
    Orderly (start workers init clock : Pool σ ε) init [] [] [] [] where
  toAccount := account_start workers init clock
  given_eq _ := List.nil_perm.mp (account_start workers init clock).given_perm |>.symm
  told_eq _ := List.nil_perm.mp (account_start workers init clock).told_perm |>.symm

/-- What a single worker holds, or is about to report, is all that the pool holds. -/
theorem filterMap_single (f : Worker σ ε → Option γ) {i : Nat} {w : Worker σ ε}
    (hone : p.workers.length = 1) (h : p.workers[i]? = some w) :
    p.workers.filterMap f = (f w).toList ∧
      ∀ w', (p.workers.set i w').filterMap f = (f w').toList := by
  obtain ⟨v, hv⟩ := List.length_eq_one_iff.mp hone
  have hsingle : ∀ w : Worker σ ε, [w].filterMap f = (f w).toList := by
    intro w
    rw [List.filterMap_eq_flatMap_toList, List.flatMap_singleton]
  rw [hv] at h ⊢
  cases i with
  | zero =>
      cases h
      exact ⟨hsingle w, hsingle⟩
  | succ i => cases h

namespace Orderly

theorem given_same (h : p.Orderly init given ran before since) :
    Same (p.workers.length = 1) given (ran.map Prod.fst ++ p.held) :=
  ⟨h.given_perm, h.given_eq⟩

theorem told_same (h : p.Orderly init given ran before since) :
    Same (p.workers.length = 1) (tellable ran) (before ++ since ++ p.unreported) :=
  ⟨h.told_perm, h.told_eq⟩

theorem setWorker (h : p.Orderly init given ran before since) {i : Nat} {w w' : Worker σ ε}
    (hi : p.workers[i]? = some w) (hreport : w.report? = none) (hreport' : w'.report? = none)
    (hlost : w'.isLost = w.isLost) (htask : w.task? = none) :
    (p.setWorker i w').Orderly init (given ++ w'.task?.toList) ran before since := by
  refine ⟨h.toAccount.setWorker hi hreport hreport' hlost htask, fun hone => ?_, fun hone => ?_⟩ <;>
    rw [Pool.setWorker, List.length_set] at hone
  · obtain ⟨hw, hset⟩ := filterMap_single Worker.task? hone hi
    have hgiven := h.given_eq hone
    rw [held, hw, htask] at hgiven
    simp [held, Pool.setWorker, hset, hgiven]
  · obtain ⟨hw, hset⟩ := filterMap_single Worker.report? hone hi
    have htold := h.told_eq hone
    rw [unreported, hw, hreport] at htold
    simpa [unreported, Pool.setWorker, hset, hreport'] using htold

/-- Of what was run and told so far nothing is taken back in a move. -/
theorem move (h : p.Orderly init given ran before since) (m : Move p q) :
    ∃ more since', q.Orderly init given (ran ++ more) before since' := by
  cases m with
  | @run i t hi =>
      refine ⟨_, _, h.run hi, fun hone => ?_, fun hone => ?_⟩ <;>
        rw [Pool.setWorker, List.length_set] at hone
      · obtain ⟨hw, hset⟩ := filterMap_single Worker.task? hone hi
        have hgiven := h.given_eq hone
        rw [held, hw] at hgiven
        simpa [held, Pool.setWorker, hset, Worker.task?] using hgiven
      · obtain ⟨hw, hset⟩ := filterMap_single Worker.report? hone hi
        have htold := h.told_eq hone
        simp only [unreported, hw, Worker.report?, Option.toList_none, List.append_nil] at htold
        rw [tellable_append, htold, unreported]
        simp only [Pool.setWorker, hset]
        congr 1
        cases hr : (t.job p.shared).1.isFatal <;> simp [tellable, Worker.report?, hr]
  | @report i g r hi hr =>
      refine ⟨[], since ++ [(g, r)], ?_⟩
      rw [List.append_nil]
      refine ⟨h.report hi hr, fun hone => ?_, fun hone => ?_⟩ <;>
        rw [workers_report, Pool.setWorker, List.length_set] at hone
      · obtain ⟨hw, hset⟩ := filterMap_single Worker.task? hone hi
        have hgiven := h.given_eq hone
        rw [held, hw] at hgiven
        simpa [held, Pool.setWorker, hset, Worker.task?] using hgiven
      · obtain ⟨hw, hset⟩ := filterMap_single Worker.report? hone hi
        have htold := h.told_eq hone
        rw [unreported, hw] at htold
        simpa [unreported, Pool.setWorker, hset, Worker.report?, hr] using htold
  | lose hi hr =>
      refine ⟨[], since, ?_⟩
      have hgone : (Worker.gone : Worker σ ε).report? = none := rfl
      have hlose := h.setWorker hi (by simp [Worker.report?, hr]) hgone hr.symm rfl
      rwa [show (Worker.gone : Worker σ ε).task?.toList = [] from rfl, List.append_nil,
        ← List.append_nil ran] at hlose

theorem moves (h : p.Orderly init given ran before since) (m : Moves p q) :
    ∃ more since', q.Orderly init given (ran ++ more) before since' := by
  induction m with
  | refl => exact ⟨[], _, by rwa [List.append_nil]⟩
  | tail _ m ih =>
      obtain ⟨more, _, h'⟩ := ih
      obtain ⟨more', since', hq⟩ := h'.move m
      exact ⟨more ++ more', since', by rwa [← List.append_assoc]⟩

theorem hand (h : p.Orderly init given ran before since) {i : Nat} {t : Task σ ε}
    (hi : p.workers[i]? = some .idle) :
    (p.setWorker i (.holding t)).Orderly init (given ++ [t]) ran before since :=
  h.setWorker hi rfl rfl rfl rfl

end Orderly

/-! ## No group at work -/

theorem Settled.filter_eq_nil (h : p.Settled) :
    p.held.filter Task.grouped = [] ∧ p.unreported.filter Prod.fst = [] := by
  simp only [held, unreported, List.filter_eq_nil_iff, List.mem_filterMap]
  constructor
  · rintro t ⟨w, hw, ht⟩
    cases w <;> cases ht
    simpa [Worker.grouped] using h _ hw
  · rintro r ⟨w, hw, hr⟩
    cases w with
    | finished g r' =>
        rw [Worker.report?] at hr
        split at hr <;> cases hr
        simpa [Worker.grouped] using h _ hw
    | _ => cases hr

theorem Settled.setWorker (h : p.Settled) (i : Nat) {w : Worker σ ε} (hw : w.grouped = false) :
    (p.setWorker i w).Settled := by
  intro v hv
  rcases List.mem_or_eq_of_mem_set hv with hv | rfl
  · exact h v hv
  · exact hw

theorem Settled.moves (h : p.Settled) (m : Moves p q) : q.Settled := by
  induction m with
  | refl => exact h
  | tail _ m ih =>
      cases m with
      | @run i t hi =>
          have ht : t.grouped = false := ih _ (List.mem_of_getElem? hi)
          exact ih.setWorker i ht
      | report hi _ =>
          intro w hw
          rw [workers_report] at hw
          exact ih.setWorker _ rfl w hw
      | lose hi _ => exact ih.setWorker _ rfl

/-! ## Handing over -/

/-- The tasks that jobs become after `n` others, each of them alone or one of a group. -/
def tasks : (n : Nat) → List (Bool × Job σ ε) → List (Task σ ε)
  | _, [] => []
  | n, (grouped, job) :: jobs => ⟨n, grouped, job⟩ :: tasks (n + 1) jobs

theorem tasks_append (n : Nat) (jobs jobs' : List (Bool × Job σ ε)) :
    tasks n (jobs ++ jobs') = tasks n jobs ++ tasks (n + jobs.length) jobs' := by
  induction jobs generalizing n with
  | nil => rfl
  | cons e jobs ih => simp [tasks, ih, Nat.add_comm 1, Nat.add_assoc]

theorem map_number_tasks (n : Nat) (jobs : List (Bool × Job σ ε)) :
    (tasks n jobs).map Task.number = List.range' n jobs.length := by
  induction jobs generalizing n with
  | nil => rfl
  | cons e jobs ih => simp [tasks, ih, List.range'_succ]

theorem map_job_tasks (n : Nat) (jobs : List (Bool × Job σ ε)) :
    (tasks n jobs).map Task.job = jobs.map Prod.snd := by
  induction jobs generalizing n with
  | nil => rfl
  | cons e jobs ih => simp [tasks, ih]

theorem length_tasks (n : Nat) (jobs : List (Bool × Job σ ε)) : (tasks n jobs).length = jobs.length := by
  have hlength := congrArg List.length (map_number_tasks n jobs)
  rwa [List.length_map, List.length_range'] at hlength

/-- The tasks of a group of jobs. -/
abbrev groupTasks (n : Nat) (jobs : List (Job σ ε)) : List (Task σ ε) :=
  tasks n (jobs.map fun job => (true, job))

theorem grouped_of_mem {n : Nat} {grouped : Bool} {jobs : List (Job σ ε)} {t : Task σ ε}
    (ht : t ∈ tasks n (jobs.map fun job => (grouped, job))) : t.grouped = grouped := by
  induction jobs generalizing n with
  | nil => cases ht
  | cons job jobs ih =>
      rcases List.mem_cons.mp ht with rfl | ht
      · rfl
      · exact ih ht

/-- Of the jobs the first `n` were taken. These are all of them, unless every worker is gone. -/
inductive Taken (jobs : List (Job σ ε)) (n : Nat) (q : Pool σ ε) : Option (WorkerError ε) → Prop
  | all (h : n = jobs.length) : Taken jobs n q none
  | refused (hn : n < jobs.length) (h : ∀ w ∈ q.workers, w = .gone) : Taken jobs n q (some .poolClosed)

theorem Taken.or {jobs : List (Job σ ε)} {n : Nat} {r : Option (WorkerError ε)} (h : Taken jobs n q r) :
    n = jobs.length ∧ r = none ∨ n < jobs.length ∧ (∀ w ∈ q.workers, w = .gone) ∧ r = some .poolClosed := by
  cases h with
  | all hn => exact .inl ⟨hn, rfl⟩
  | refused hn hgone => exact .inr ⟨hn, hgone, rfl⟩

theorem Taken.cons {jobs : List (Job σ ε)} {n : Nat} {r : Option (WorkerError ε)} (h : Taken jobs n q r)
    (job : Job σ ε) : Taken (job :: jobs) (n + 1) q r := by
  cases h with
  | all hn => exact .all (congrArg Nat.succ hn)
  | refused hn hgone => exact .refused (Nat.succ_lt_succ hn) hgone

namespace Orderly

theorem take (h : p.Orderly init given ran before since) (schedule : Schedule) (grouped : Bool)
    (job : Job σ ε) :
    let out := p.take schedule grouped job
    out.2.workers.length = p.workers.length ∧ (grouped = false → p.Settled → out.2.Settled) ∧
      ∃ more since',
        (out.1 = none ∧ out.2.submitted = p.submitted + 1 ∧ (∃ w ∈ out.2.workers, w.isLost = false) ∧
          out.2.Orderly init (given ++ tasks p.submitted [(grouped, job)]) (ran ++ more) before since') ∨
        (out.1 = some .poolClosed ∧ out.2.submitted = p.submitted ∧ (∀ w ∈ out.2.workers, w = .gone) ∧
          out.2.Orderly init given (ran ++ more) before since') := by
  obtain ⟨q, hmoves, hq⟩ := handOver_moves schedule (p := p) (t := ⟨p.submitted, grouped, job⟩)
    (Nat.le_refl _)
  obtain ⟨more, since', hmore⟩ := h.moves hmoves
  unfold Pool.take
  rcases hout : handOver schedule ⟨p.submitted, grouped, job⟩ p.load p with ⟨_ | e, r⟩ <;>
    rw [hout] at hq <;> cases hq
  · rename_i i hi
    refine ⟨?_, fun hgrouped hs => (hs.moves hmoves).setWorker i hgrouped, more, since',
      .inl ⟨rfl, ?_, ?_, ?_⟩⟩
    · exact List.length_set.trans hmoves.workers_length
    · exact congrArg Nat.succ hmoves.submitted_eq
    · obtain ⟨hlt, -⟩ := List.getElem?_eq_some_iff.mp hi
      exact ⟨_, List.mem_set hlt _, rfl⟩
    · have hhand := hmore.hand (t := ⟨p.submitted, grouped, job⟩) hi
      exact ⟨⟨hhand.shared, hhand.numbers, hhand.given_perm, hhand.told_perm, hhand.lost, hhand.inbox,
        hhand.kept⟩, hhand.given_eq, hhand.told_eq⟩
  · rename_i hgone
    exact ⟨hmoves.workers_length, fun _ hs => hs.moves hmoves, more, since',
      .inr ⟨rfl, hmoves.submitted_eq, hgone, hmore⟩⟩

theorem takeAll (h : p.Orderly init given ran before since) (schedule : Schedule) (grouped : Bool)
    (jobs : List (Job σ ε)) :
    let out := Pool.takeAll schedule grouped jobs p
    out.2.workers.length = p.workers.length ∧ (grouped = false → p.Settled → out.2.Settled) ∧
      ∃ n more since', n ≤ jobs.length ∧ Taken jobs n out.2 out.1 ∧ out.2.submitted = p.submitted + n ∧
        out.2.Orderly init (given ++ tasks p.submitted ((jobs.take n).map fun job => (grouped, job)))
          (ran ++ more) before since' := by
  induction jobs generalizing p given ran since with
  | nil =>
      refine ⟨rfl, fun _ hs => hs, 0, [], since, Nat.le_refl _, .all rfl, rfl, ?_⟩
      simpa [tasks, Pool.takeAll] using h
  | cons job jobs ih =>
      obtain ⟨hlength, hsettled, more, since', hcases⟩ := h.take schedule grouped job
      unfold Pool.takeAll
      rcases hout : p.take schedule grouped job with ⟨_ | e, q⟩ <;> rw [hout] at hlength hsettled hcases
      · obtain ⟨-, hsubmitted, -, hq⟩ := hcases.resolve_right fun h => nomatch h.1
        obtain ⟨hlength', hsettled', n, more', since'', hn, htaken, hsubmitted', hq'⟩ := ih hq
        refine ⟨hlength'.trans hlength, fun hg hs => hsettled' hg (hsettled hg hs), n + 1, more ++ more',
          since'', Nat.succ_le_succ hn, htaken.cons job, ?_, ?_⟩
        · rw [hsubmitted', hsubmitted, Nat.add_assoc, Nat.add_comm 1]
        · rw [List.take_succ_cons, List.map_cons, ← List.append_assoc]
          simpa [tasks, ← hsubmitted] using hq'
      · obtain ⟨he, hsubmitted, hgone, hq⟩ := hcases.resolve_left fun h => nomatch h.1
        cases he
        exact ⟨hlength, hsettled, 0, more, since', Nat.zero_le _, .refused (Nat.succ_pos _) hgone, hsubmitted,
          by simpa [tasks] using hq⟩

/-! ## Groups -/

theorem newGroup (h : p.Orderly init given ran before since) :
    Orderly { p with inbox := [] } init given ran (before ++ since) [] := by
  refine ⟨⟨h.shared, h.numbers, h.given_perm, ?_, h.lost, rfl, ?_⟩, h.given_eq, fun hone => ?_⟩
  · rw [List.append_nil]
    exact h.told_perm
  · rw [List.append_nil]
    exact h.kept
  · rw [List.append_nil]
    exact h.told_eq hone

variable {group : List (Task σ ε)}

/-- The jobs of a group that were run since the group began are the group, once none is left. -/
theorem group_same (h : p.Orderly init given ran before since) (hs : p.Settled)
    {before' since' : List (Bool × JobEnd ε)}
    (hq : q.Orderly init (given ++ group) (ran ++ more) before' since') (hsq : q.Settled)
    (hlength : q.workers.length = p.workers.length) (hgroup : ∀ t ∈ group, t.grouped = true) :
    Same (p.workers.length = 1) group ((more.filter fun e => e.1.grouped).map Prod.fst) := by
  have hold := h.given_same.filter Task.grouped
  have hnew := hq.given_same.filter Task.grouped
  rw [hlength] at hnew
  simp only [List.map_append, List.filter_append, hs.filter_eq_nil.1, hsq.filter_eq_nil.1,
    List.append_nil, List.filter_eq_self.mpr hgroup] at hold hnew
  have hsame := (hold.symm.append_right group).trans hnew
  simpa only [List.filter_map, Function.comp_def] using hsame.cancel

/-- The ends of the jobs of a group that can be told are those received, once none is left. -/
theorem reports_same (h : p.Orderly init given ran before since) (hs : p.Settled)
    {since' : List (Bool × JobEnd ε)}
    (hq : q.Orderly init (given ++ group) (ran ++ more) (before ++ since) since') (hsq : q.Settled)
    (hlength : q.workers.length = p.workers.length) :
    Same (p.workers.length = 1) (((tellable more).filter Prod.fst).map Prod.snd) q.inbox := by
  have hold := h.told_same.filter Prod.fst
  have hnew := hq.told_same.filter Prod.fst
  rw [hlength] at hnew
  simp only [tellable_append, List.filter_append, hs.filter_eq_nil.2, hsq.filter_eq_nil.2,
    List.append_nil, List.append_assoc] at hold hnew
  have hsame := (hold.symm.append_right _).trans hnew
  rw [List.append_assoc] at hsame
  have hmap := hsame.cancel.cancel.map Prod.snd
  rwa [← hq.inbox] at hmap

theorem executeAll (h : p.Orderly init given ran before since) (hs : p.Settled) (schedule : Schedule)
    (jobs : List (Job σ ε)) :
    let out := p.executeAll schedule jobs
    out.2.workers.length = p.workers.length ∧ out.2.Settled ∧
      ∃ n more since', n ≤ jobs.length ∧ out.2.submitted = p.submitted + n ∧
        out.2.Orderly init (given ++ groupTasks p.submitted (jobs.take n)) (ran ++ more) (before ++ since)
          since' ∧
        Same (p.workers.length = 1) (groupTasks p.submitted (jobs.take n))
          ((more.filter fun e => e.1.grouped).map Prod.fst) ∧
        Same (p.workers.length = 1) (((tellable more).filter Prod.fst).map Prod.snd) out.2.inbox ∧
        (n = jobs.length ∧ out.1 = groupAnswer n out.2.inbox ∨
          (p.workers ≠ [] → ¬ Survived (ran ++ more)) ∧ out.1 = some .poolClosed) := by
  intro out
  obtain ⟨hlength₁, -, n, more₁, since₁, hn, htaken, hsubmitted₁, h₁⟩ := h.newGroup.takeAll schedule true jobs
  rcases htake : Pool.takeAll schedule true jobs { p with inbox := [] } with ⟨refusal, q⟩
  rw [htake] at hlength₁ htaken hsubmitted₁ h₁
  have hcount : q.submitted - p.submitted = n := by
    rw [show q.submitted = p.submitted + n from hsubmitted₁, Nat.add_sub_cancel_left]
  obtain ⟨hmoves, hsettled⟩ := awaitGroup_moves schedule (Nat.le_refl q.load)
  obtain ⟨more₂, since', h₂⟩ := h₁.moves hmoves
  have hout : out = (refusal.or (groupAnswer n (q.awaitGroup schedule q.load).inbox),
      q.awaitGroup schedule q.load) := by
    simp only [out, Pool.executeAll, htake, hcount]
  rw [hout]
  have hlength : (q.awaitGroup schedule q.load).workers.length = p.workers.length :=
    hmoves.workers_length.trans hlength₁
  rw [List.append_assoc] at h₂
  refine ⟨hlength, hsettled, n, more₁ ++ more₂, since', hn, hmoves.submitted_eq.trans hsubmitted₁, h₂,
    h.group_same hs h₂ hsettled hlength fun _ => grouped_of_mem, h.reports_same hs h₂ hsettled hlength, ?_⟩
  cases htaken with
  | all hn => exact .inl ⟨hn, rfl⟩
  | refused _ hgone =>
      refine .inr ⟨fun hp hsurvived => ?_, rfl⟩
      have hq : q.workers ≠ [] := by rwa [← List.length_pos_iff, hlength₁, List.length_pos_iff]
      rw [← List.append_assoc, survived_append] at hsurvived
      exact h₁.not_survived_of_gone hq hgone hsurvived.1

end Orderly

/-! ## Answers of groups -/

theorem firstError?_eq_none_iff {ends : List (JobEnd ε)} :
    firstError? ends = none ↔ ∀ e ∈ ends, e = .done := by
  rw [firstError?, List.findSome?_eq_none_iff]
  refine forall₂_congr fun e _ => ?_
  cases e <;> simp [JobEnd.error?]

/-- If as many ends were received as jobs were taken, the answer is the first error of these. -/
theorem groupAnswer_of_le {count : Nat} {inbox : List (JobEnd ε)} (h : count ≤ inbox.length) :
    groupAnswer count inbox = firstError? inbox := by
  rw [groupAnswer, if_neg (Nat.not_lt_of_le h), Option.or_none]

/-- If a group is answered without an error then all its jobs were run and ended well, whatever became of
the jobs before it. -/
theorem done_of_groupAnswer {group : List (Task σ ε)} {inbox : List (JobEnd ε)}
    (hgroup : group.Perm ((ran.filter fun e => e.1.grouped).map Prod.fst))
    (hinbox : (((tellable ran).filter Prod.fst).map Prod.snd).Perm inbox)
    (h : groupAnswer group.length inbox = none) : ∀ t ∈ group, (t, .done) ∈ ran := by
  obtain ⟨hdone, hle⟩ := Option.or_eq_none_iff.mp h
  have hle : group.length ≤ inbox.length := by simpa using hle
  rw [firstError?_eq_none_iff] at hdone
  set own := ran.filter fun e => e.1.grouped
  have htellable : ((tellable ran).filter Prod.fst).map Prod.snd =
      (own.filter fun e => !e.2.isFatal).map Prod.snd := by
    simp [tellable, own, List.filter_map, List.filter_filter, Function.comp_def, Bool.and_comm]
  rw [htellable] at hinbox
  -- no end is missing, so none was fatal
  have hself : (own.filter fun e => !e.2.isFatal) = own := by
    refine (List.filter_sublist).eq_of_length_le ?_
    have hlength := hinbox.length_eq
    have hown := hgroup.length_eq
    rw [List.length_map] at hlength hown
    omega
  intro t ht
  obtain ⟨e, he, rfl⟩ := List.mem_map.mp (hgroup.mem_iff.mp ht)
  have hend : e.2 = .done := hdone _ (hinbox.mem_iff.mp (by rw [hself]; exact List.mem_map_of_mem he))
  rw [← hend]
  exact List.mem_of_mem_filter he

/-- If all ends could be told then as many were received as the group has jobs. -/
theorem groupAnswer_of_survived {group : List (Task σ ε)} {inbox : List (JobEnd ε)}
    (hgroup : group.Perm ((ran.filter fun e => e.1.grouped).map Prod.fst))
    (hinbox : (((tellable ran).filter Prod.fst).map Prod.snd).Perm inbox) (h : Survived ran) :
    groupAnswer group.length inbox = firstError? inbox := by
  refine groupAnswer_of_le (Nat.le_of_eq ?_)
  rw [hgroup.length_eq, ← hinbox.length_eq, tellable_of_survived h, List.filter_map]
  simp [Function.comp_def]

theorem start_ne_nil (workers : Nat) (init : σ) (clock : Nat) :
    (start workers init clock : Pool σ ε).workers ≠ [] := by
  rw [← List.length_pos_iff, workers_start]
  exact Nat.lt_of_lt_of_le Nat.one_pos (Nat.le_max_right _ _)

/-! ## Jobs that no worker is lost with -/

theorem Ran.survived {s : σ} (h : Ran init ran s) (hjobs : ∀ e ∈ ran, e.1.job.Mild) : Survived ran := by
  induction h with
  | none => exact List.forall_mem_nil _
  | more h t ih =>
      obtain ⟨hran, ht⟩ := List.forall_mem_append.mp hjobs
      refine survived_append.mpr ⟨ih hran, List.forall_mem_singleton.mpr ?_⟩
      exact List.forall_mem_singleton.mp ht _

/-- A group of jobs that never have a fatal end, run by a new pool. -/
theorem executeAll_start (schedule : Schedule) (workers : Nat) (init : σ) (clock : Nat)
    {jobs : List (Job σ ε)} (hjobs : ∀ j ∈ jobs, j.Mild) :
    let out := (start workers init clock : Pool σ ε).executeAll schedule jobs
    ∃ ran, Ran init ran out.2.shared ∧ (ran.map fun e => e.1.job).Perm jobs ∧
      (ran.map Prod.snd).Perm out.2.inbox ∧ out.1 = firstError? out.2.inbox := by
  obtain ⟨-, -, n, ran, since, hn, -, h, hgroup, hinbox, hcases⟩ :=
    (orderly_start workers init clock).executeAll (settled_of_load (load_start workers init clock))
      schedule jobs
  simp only [List.nil_append] at h hcases
  have hgrouped : ran.filter (fun e => e.1.grouped) = ran := by
    refine List.filter_eq_self.mpr fun e he => grouped_of_mem (h.given_perm.mem_iff.mpr ?_)
    exact List.mem_append_left _ (List.mem_map_of_mem he)
  have hmap : (jobs.take n).Perm (ran.map fun e => e.1.job) := by
    have hmap := hgroup.1.map Task.job
    rw [map_job_tasks, List.map_map, hgrouped, List.map_map] at hmap
    simpa [Function.comp_def] using hmap
  have hsurvived : Survived ran := by
    refine h.shared.survived fun e he => hjobs _ ?_
    exact List.mem_of_mem_take (hmap.mem_iff.mpr (List.mem_map_of_mem he))
  obtain ⟨rfl, hanswer⟩ := hcases.resolve_right fun h' => h'.1 (start_ne_nil workers init clock) hsurvived
  rw [List.take_length] at hmap hgroup
  refine ⟨ran, h.shared, hmap.symm, ?_, ?_⟩
  · have hinbox := hinbox.1
    rw [tellable_of_survived hsurvived, List.filter_map, List.map_map] at hinbox
    simpa [Function.comp_def, hgrouped] using hinbox
  · rw [hanswer, ← groupAnswer_of_survived hgroup.1 hinbox.1 hsurvived, length_tasks, List.length_map]

end Pool

end Cospend
