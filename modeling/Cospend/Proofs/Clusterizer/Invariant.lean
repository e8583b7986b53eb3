import Cospend.Clusterizer.Step
import Cospend.Proofs.Clusterizer.Work
import Cospend.Proofs.Partition.Stored

/-!
# Where a clusterizer stands

A clusterizer is on its way after `n` blocks if its store holds the partition that comes of these
blocks, and its phase, its batch and its partition go with that. Every step leaves it on its way, after
the same blocks or after one more.
-/

namespace Cospend

namespace Chain

variable {chain : Chain} {p : Partition} {n : Nat}

/-- The block that comes next is the one whose height is the number of the blocks applied. -/
theorem heightAfter_after {h : Height} (hp : chain.after n = some p)
    (hh : Clusterizer.heightAfter p.height = .ok h) : Height.ofInt? n = some h := by
  cases n with
  | zero =>
      cases hp
      cases hh
      rfl
  | succ n =>
      obtain ⟨q, g, -, hg, happly⟩ := after_succ.mp hp
      obtain ⟨q', -, rfl⟩ := applyBlock_eq_some.mp happly
      simp only [Clusterizer.heightAfter, Partition.checkpointed, Option.some_or] at hh
      split at hh
      · rename_i next hnext
        cases hh
        have hg := ofInt?_eq_some.mp hg
        have hnext := ofInt?_eq_some.mp hnext
        rw [ofInt?_eq_some, hnext, hg]
        rfl
      · cases hh

end Chain

namespace Clusterizer

variable {β α : Type} [WriteBatch β] {c c' : Clusterizer β} {env : Environment} {chain : Chain}
variable {n : Nat} {p : Partition}

/-- The store holds the partition that comes of the first `n` blocks. -/
structure Holds (chain : Chain) (n : Nat) (p : Partition) (t : Table) : Prop where
  after : chain.after n = some p
  table : t = p.table

/-- The phase, the batch and the partition go with a store that holds `p` after `n` blocks. -/
def Goes (chain : Chain) (n : Nat) (p : Partition) (c : Clusterizer β) : Prop :=
  match c.phase with
  | .idle => c.pending = none ∧ (c.stale = false → c.partition = p)
  | .done => c.pending = none ∧ c.stale = false ∧ c.partition = p
  | .processing h => c.pending = none ∧ c.stale = false ∧ c.partition = p ∧ Height.ofInt? n = some h
  | .checkpointing h => c.stale = false ∧ Height.ofInt? n = some h ∧
    (chain.block h).transactions.foldlM chain.applyTransaction p = some c.partition ∧
    ∃ b, c.pending = some b ∧ b.LeadsTo p.table c.partition

/-- The clusterizer is on its way after `n` blocks. -/
structure OnWay (chain : Chain) (n : Nat) (p : Partition) (c : Clusterizer β) : Prop where
  holds : Holds chain n p c.store.table
  goes : Goes chain n p c

/-- Only events, log records and the clock differ. -/
structure Still (c c' : Clusterizer β) : Prop extends Beside c c' where
  partition_eq : c'.partition = c.partition
  pending_eq : c'.pending = c.pending

section Still

omit [WriteBatch β]

/-- The phase after a checkpoint is not found out, or it is the next block, or the walk has arrived. -/
theorem phaseAfter_cases (env : Environment) (checkpoint : Option Height) (c : Clusterizer β) :
    (∃ e log, phaseAfter env checkpoint c = (.error e, { c with log })) ∨
    (∃ next, heightAfter checkpoint = .ok next ∧
      phaseAfter env checkpoint c = (.ok (.processing next), c)) ∨
    phaseAfter env checkpoint c =
      (.ok .done, { c with published := c.published ++ [.caughtUp checkpoint] }) := by
  unfold phaseAfter
  cases heightAfter checkpoint with
  | error a => exact .inl ⟨_, c.log, rfl⟩
  | ok next =>
      simp only
      rcases hasked : asked _ (env.ledger.tip checkpoint) c with ⟨e | tip, c'⟩
      · obtain ⟨-, log, -, rfl⟩ := asked_eq_error hasked
        exact .inl ⟨e, log, bind_of_error hasked⟩
      · obtain ⟨-, rfl⟩ := asked_eq_ok hasked
        rw [bind_of_ok hasked]
        split
        · exact .inr (.inl ⟨next, rfl, rfl⟩)
        · exact .inr (.inr rfl)

theorem phaseAfter_still (env : Environment) (checkpoint : Option Height) (c : Clusterizer β) :
    Still c (phaseAfter env checkpoint c).2 := by
  rcases phaseAfter_cases env checkpoint c with ⟨e, log, h⟩ | ⟨next, -, h⟩ | h <;> rw [h] <;>
    exact ⟨⟨rfl, rfl, rfl⟩, rfl, rfl⟩

theorem phaseAfter_eq_ok {checkpoint : Option Height} {phase : Phase}
    (h : phaseAfter env checkpoint c = (.ok phase, c')) :
    phase = .done ∨ ∃ next, heightAfter checkpoint = .ok next ∧ phase = .processing next := by
  rcases phaseAfter_cases env checkpoint c with ⟨e, log, h'⟩ | ⟨next, hnext, h'⟩ | h' <;>
    rw [h'] at h <;> cases h
  · exact .inr ⟨next, hnext, rfl⟩
  · exact .inl rfl

end Still

/-! ## Reading back -/

section Restore

omit [WriteBatch β]

theorem restore_of_ok {q : Partition} (h : Partition.load c.store = .ok q) :
    restore c = (.ok (), { c with partition := q }) := by
  simp only [restore, Partition.restore, h]

/-- Only the log may tell of a partition that could not be read back. -/
theorem restore_of_error {e : Failure PartitionError} (h : Partition.load c.store = .error e) :
    ∃ log, restore c = (.error (e.map .partition), { c with log }) := by
  simp only [restore, Partition.restore, h]
  cases e <;> exact ⟨_, rfl⟩

theorem Holds.load_eq {q : Partition} {s : Store} (h : Holds chain n p s.table)
    (hload : Partition.load s = .ok q) : q = p :=
  (Chain.numbered_after h.after).load_eq h.table hload

end Restore

section Recover

omit [WriteBatch β]

theorem recover_of_not_stale (hs : c.stale = false) : recover c = (.ok (), c) := by
  unfold recover
  rw [bind_get, if_neg (by simp [hs])]
  rfl

theorem recover_of_stale (hs : c.stale = true) : recover c = (do
    restore
    modify fun c => { c with stale := false }
    modify fun c => c.record .warn (rollbackText c.partition.height)
    announceRestore : Action β Unit) c := by
  unfold recover
  rw [bind_get, if_pos hs]

/-- A stale partition that can be read back is one no longer, and this is announced. -/
theorem recover_of_ok {q : Partition} (hs : c.stale = true) (h : Partition.load c.store = .ok q) :
    ∃ log, recover c = (.ok (), { c with
      partition := q, stale := false, published := c.published ++ [.restored q.height q.size], log }) := by
  rw [recover_of_stale hs, bind_of_ok (restore_of_ok h)]
  exact ⟨_, rfl⟩

theorem recover_of_error {e : Failure PartitionError} (hs : c.stale = true)
    (h : Partition.load c.store = .error e) :
    ∃ log, recover c = (.error (e.map .partition), { c with log }) := by
  obtain ⟨log, hrestore⟩ := restore_of_error h
  rw [recover_of_stale hs, bind_of_error hrestore]
  exact ⟨log, rfl⟩

/-- Reading a stale partition back either fails, and then only the log tells of it, or it leaves the
partition that the store holds. -/
theorem Holds.recovered (h : Holds chain n p c.store.table) (hc : c.stale = false → c.partition = p) :
    (recover c).2.store = c.store ∧ (recover c).2.pending = c.pending ∧
      ((recover c).2.stale = false → (recover c).2.partition = p) ∧
      ∀ u, (recover c).1 = .ok u → (recover c).2.stale = false := by
  cases hs : c.stale with
  | false =>
      rw [recover_of_not_stale hs]
      exact ⟨rfl, rfl, hc, fun _ _ => hs⟩
  | true =>
      cases hload : Partition.load c.store with
      | error e =>
          obtain ⟨log, hrecover⟩ := recover_of_error hs hload
          rw [hrecover]
          exact ⟨rfl, rfl, fun hs' => absurd (hs.symm.trans hs') (by decide), fun _ hu => by cases hu⟩
      | ok q =>
          obtain ⟨log, hrecover⟩ := recover_of_ok hs hload
          rw [hrecover]
          exact ⟨rfl, rfl, fun _ => h.load_eq hload, fun _ _ => rfl⟩

end Recover

/-! ## Starting -/

section Start

omit [WriteBatch β]

theorem makeRoom_eq (capacity : Nat) (c : Clusterizer β) : makeRoom capacity c =
    if Partition.capacityLimit ≤ capacity then (.error (.abort .capacityOverflow), c)
    else (.ok (), { c with partition := .empty }) := by
  unfold makeRoom Partition.withCapacity
  split <;> rename_i hroom <;> split at hroom <;> cases hroom
  · rw [if_neg (by assumption)]
  · rw [if_pos (by assumption)]

theorem makePool_eq (workers : Nat) (c : Clusterizer β) : makePool workers c =
    (if workers ≤ Pool.workerLimit then .ok () else .error (.abort .capacityOverflow), c) := by
  unfold makePool Pool.start?
  split <;> rfl

/-- A start fails and tells of nothing, as there is no room or no partition to be read back, or it reads the
partition back and announces it, and is abandoned then if no array can name its workers. -/
theorem start_cases (config : Configuration) (store : Store) :
    (∃ e log, start config store = (.error e, { (fresh store : Clusterizer β) with log }) ∧
      (Partition.capacityLimit ≤ config.capacity ∧ e = .abort .capacityOverflow ∨
        config.capacity < Partition.capacityLimit ∧
          ∃ e', Partition.load store = .error e' ∧ e = e'.map .partition)) ∨
    ∃ q, config.capacity < Partition.capacityLimit ∧ Partition.load store = .ok q ∧
      start config store =
        (if config.workers ≤ Pool.workerLimit then .ok () else .error (.abort .capacityOverflow),
          { (fresh store : Clusterizer β) with
            partition := q, published := [.restored q.height q.size] }) := by
  unfold start setOut
  let c : Clusterizer β := fresh store
  have hmake := makeRoom_eq config.capacity c
  split at hmake <;> rename_i hroom
  · exact .inl ⟨.abort .capacityOverflow, [], bind_of_error hmake, .inl ⟨hroom, rfl⟩⟩
  · have hroom := Nat.lt_of_not_le hroom
    rw [bind_of_ok hmake]
    cases hload : Partition.load c.store with
    | error e =>
        obtain ⟨log, hrestore⟩ := restore_of_error hload
        exact .inl ⟨_, log, bind_of_error hrestore, .inr ⟨hroom, e, hload, rfl⟩⟩
    | ok q =>
        exact .inr ⟨q, hroom, hload,
          (bind_of_ok (restore_of_ok hload)).trans (makePool_eq config.workers _)⟩

/-- A start that succeeds has read the partition back that the store holds. -/
theorem start_of_ok {config : Configuration} {store : Store} {c : Clusterizer β}
    (h : start config store = (.ok (), c)) : ∃ q, Partition.load store = .ok q ∧
      c = { fresh store with partition := q, published := [.restored q.height q.size] } := by
  rcases start_cases config store with ⟨e, log, hstart, -⟩ | ⟨q, -, hload, hstart⟩ <;> rw [hstart] at h
  · cases h
  · exact ⟨q, hload, (Prod.mk.inj h).2.symm⟩

end Start

/-! ## Transitions -/

/-- A transition from a phase ended with this answer and left this clusterizer, which is on its way once
it takes the phase that the answer asks for. -/
structure Lands (chain : Chain) (n : Nat) (p : Partition) (phase : Phase)
    (r : Except (Failure ClusterizerError) Phase × Clusterizer β) : Prop where
  holds : Holds chain n p r.2.store.table
  ok {phase' : Phase} (h : r.1 = .ok phase') : Goes chain n p { r.2 with phase := phase' }
  error {e : ClusterizerError} (h : r.1 = .error (.error e)) : Goes chain n p (r.2.fallBack phase)

/-- What a transition to the phase after a checkpoint needs. -/
theorem phaseAfter_lands {phase : Phase} (h : Holds chain n p c.store.table)
    (hpending : c.pending = none) (hstale : c.stale = false) (hpartition : c.partition = p) :
    Lands chain n p phase (phaseAfter env p.height c) := by
  have hstill := phaseAfter_still env p.height c
  refine ⟨hstill.store_eq ▸ h, fun {phase'} hr => ?_, fun {e} hr => ?_⟩
  · have hpending' := hstill.pending_eq.trans hpending
    have hstale' := hstill.stale_eq.trans hstale
    have hpartition' := hstill.partition_eq.trans hpartition
    have hok : phaseAfter env p.height c = (.ok phase', (phaseAfter env p.height c).2) :=
      Prod.ext hr rfl
    rcases phaseAfter_eq_ok hok with rfl | ⟨next, hnext, rfl⟩
    · exact ⟨hpending', hstale', hpartition'⟩
    · exact ⟨hpending', hstale', hpartition', Chain.heightAfter_after h.after hnext⟩
  · exact ⟨rfl, fun _ => hstill.partition_eq.trans hpartition⟩

theorem resume_lands (h : Holds chain n p c.store.table) (hpending : c.pending = none)
    (hc : c.stale = false → c.partition = p) : Lands chain n p .idle (resume env c) := by
  obtain ⟨hstore, hpending', hpartition, hok⟩ := h.recovered hc
  unfold resume
  refine bind_cases ?_ ?_
  · intro e c' hrecover
    rw [hrecover] at hstore hpartition
    refine ⟨hstore ▸ h, fun {_} hr => (nomatch hr), fun {_} _ => ⟨rfl, fun hs => ?_⟩⟩
    exact hpartition (Bool.or_eq_false_iff.mp hs).1
  · intro u c' hrecover
    rw [hrecover] at hstore hpending' hpartition hok
    have hstale := hok u rfl
    have hp := hpartition hstale
    rw [bind_get, hp]
    exact phaseAfter_lands (hstore ▸ h) (hpending'.trans hpending) hstale hp

/-- A failure while a block is in progress marks the partition as stale, so nothing is asked of it. -/
theorem Lands.of_error {phase : Phase} (h : Holds chain n p c.store.table)
    (hphase : phase.isMidBlock = true) (e : Failure ClusterizerError) :
    Lands chain n p phase (.error e, c) := by
  refine ⟨h, fun {_} hr => (nomatch hr), fun {_} _ => ⟨rfl, fun hstale => ?_⟩⟩
  have hstale : (c.stale || phase.isMidBlock) = false := hstale
  rw [hphase, Bool.or_true] at hstale
  cases hstale

/-- A step that succeeds processed its block, or it leads to the next block or to the end of the walk. -/
theorem step_ok_cases {phase : Phase} (hstep : step env c = (.ok phase, c')) : c'.phase = phase ∧
    (phase = .done ∨ (∃ next, phase = .processing next) ∨
      ∃ height d, c.phase = .processing height ∧ phase = .checkpointing height ∧
        processBlock env height c = (.ok (), d) ∧ c'.partition = d.partition) := by
  have hafter {checkpoint : Option Height} {d d' : Clusterizer β} {phase : Phase} {P : Prop}
      (h : phaseAfter env checkpoint d = (.ok phase, d')) :
      phase = .done ∨ (∃ next, phase = .processing next) ∨ P := by
    rcases phaseAfter_eq_ok h with rfl | ⟨next, -, rfl⟩
    · exact .inl rfl
    · exact .inr (.inl ⟨next, rfl⟩)
  unfold step at hstep
  rcases htransition : transition env c.phase c with ⟨(e | a) | phase', d⟩ <;>
    rw [htransition] at hstep <;> cases hstep
  refine ⟨rfl, ?_⟩
  cases hphase : c.phase with
  | idle =>
      rw [hphase] at htransition
      obtain ⟨_, _, -, hrest⟩ := bind_ok_cases htransition
      exact hafter hrest
  | processing height =>
      rw [hphase] at htransition
      obtain ⟨_, _, hprocess, hend⟩ := bind_ok_cases htransition
      cases hend
      exact .inr (.inr ⟨height, d, rfl, rfl, hprocess, rfl⟩)
  | checkpointing height =>
      rw [hphase] at htransition
      obtain ⟨_, _, -, hrest⟩ := bind_ok_cases htransition
      exact hafter hrest
  | done =>
      rw [hphase] at htransition
      cases htransition
      exact .inl rfl

/-! ## Writing a checkpoint -/

theorem flush_error {height : Height} {b : Pending β} {e : Failure ClusterizerError}
    (h : flush height b c = (.error e, c')) :
    (∃ store log, c' = { c with store, log } ∧ store.table = c.store.table) ∧ ∃ e', e = .error e' := by
  unfold flush Partition.flush Store.write at h
  cases hfault : c.store.faults.write c.store.writes <;> rw [hfault] at h <;> cases h
  exact ⟨⟨_, _, rfl, rfl⟩, _, rfl⟩

theorem flush_ok {height : Height} {b : Pending β} {u : Unit} (h : flush height b c = (.ok u, c')) :
    c' = { c with
      partition := c.partition.checkpointed b.checkpoint
      store := { c.store with
        table := WriteBatch.applyTo b.writes c.store.table, writes := c.store.writes + 1 } } := by
  unfold flush Partition.flush Store.write at h
  cases hfault : c.store.faults.write c.store.writes <;> rw [hfault] at h <;> cases h
  rfl

theorem checkpoint_eq (height : Height) (c : Clusterizer β) :
    let b := (c.pending.getD .empty).stage .height height
    checkpoint height c = (do
      flush height b
      let c' ← get
      publish (.checkpointed height c'.partition.size b.size) : Action β Unit)
      { c with pending := none } :=
  rfl

/-- A checkpoint either changes nothing in the store, or writes the pending changes with its height and is
announced. -/
theorem checkpoint_outcome (height : Height) (c : Clusterizer β) :
    let b := (c.pending.getD .empty).stage .height height
    (∃ e store log, checkpoint height c = (.error (.error e), { c with store, pending := none, log }) ∧
      store.table = c.store.table) ∨
    ∃ store, checkpoint height c = (.ok (), { c with
        store
        partition := c.partition.checkpointed (some height)
        pending := none
        published := c.published ++ [.checkpointed height c.partition.size b.size] }) ∧
      store.table = WriteBatch.applyTo b.writes c.store.table := by
  intro b
  rw [checkpoint_eq]
  rcases hflush : flush height b { c with pending := none } with ⟨e | u, c'⟩
  · obtain ⟨⟨store, log, rfl, htable⟩, e, rfl⟩ := flush_error hflush
    rw [bind_of_error hflush]
    exact .inl ⟨e, store, log, rfl, htable⟩
  · rw [bind_of_ok hflush]
    obtain rfl := flush_ok hflush
    exact .inr ⟨_, rfl, rfl⟩

variable [LawfulBatch β]

/-- With a batch that leads to a partition, the checkpoint writes the whole of that partition. -/
theorem checkpoint_cases (height : Height) {b : Pending β} (hpending : c.pending = some b)
    (hleads : b.LeadsTo c.store.table p) :
    (∃ e store log, checkpoint height c = (.error (.error e), { c with store, pending := none, log }) ∧
      store.table = c.store.table) ∨
    ∃ store writes, checkpoint height c = (.ok (), { c with
        store
        partition := c.partition.checkpointed (some height)
        pending := none
        published := c.published ++ [.checkpointed height c.partition.size writes] }) ∧
      store.table = (p.checkpointed (some height)).table := by
  refine (checkpoint_outcome height c).imp_right ?_
  rintro ⟨store, heq, htable⟩
  refine ⟨store, _, heq, htable.trans ?_⟩
  rw [hpending, Option.getD_some]
  exact hleads.stage_height height

/-! ## Blocks -/

theorem processing_lands (htells : env.ledger.Tells chain) {height : Height}
    (h : Holds chain n p c.store.table) (hstale : c.stale = false) (hpartition : c.partition = p)
    (hheight : Height.ofInt? n = some height) :
    Lands chain n p (.processing height) (transition env (.processing height) c) := by
  have hframe := beside_processBlock env height c
  refine bind_cases (x := processBlock env height) ?_ ?_
  · intro e c' hprocess
    rw [hprocess] at hframe
    exact .of_error (hframe.store_eq ▸ h) rfl e
  · intro u c' hprocess
    have hnumbered : c.partition.Numbered := hpartition ▸ Chain.numbered_after h.after
    have happly := processBlock_eq_ok htells hprocess
    obtain ⟨b, hpending, hstaged⟩ := staged_processBlock hnumbered hprocess
    rw [hprocess] at hframe
    refine ⟨hframe.store_eq ▸ h, fun {phase'} hr => ?_, fun {_} hr => nomatch hr⟩
    cases hr
    subst hpartition
    refine ⟨hframe.stale_eq.trans hstale, hheight, happly, b, hpending, ?_⟩
    exact hstaged.leadsTo hnumbered.toSound (Pending.leadsTo_empty c.partition)

theorem checkpointing_lands {height : Height} (h : OnWay chain n p c)
    (hphase : c.phase = .checkpointing height) :
    Lands chain n p c.phase (transition env c.phase c) ∨
      Lands chain (n + 1) (c.partition.checkpointed (some height)) c.phase
        (transition env c.phase c) := by
  obtain ⟨⟨hafter, htable⟩, hgoes⟩ := h
  rw [Goes, hphase] at hgoes
  obtain ⟨hstale, hheight, happly, b, hpending, hleads⟩ := hgoes
  rw [hphase]
  rcases checkpoint_cases height hpending (htable ▸ hleads) with
    ⟨e, store, log, heq, hkept⟩ | ⟨store, writes, heq, hwritten⟩
  · left
    rw [transition, bind_of_error heq]
    exact .of_error ⟨hafter, hkept.trans htable⟩ rfl _
  · right
    rw [transition, bind_of_ok heq]
    have hnext : chain.after (n + 1) = some (c.partition.checkpointed (some height)) :=
      Chain.after_succ.mpr ⟨p, height, hafter, hheight,
        Chain.applyBlock_eq_some.mpr ⟨c.partition, happly, rfl⟩⟩
    exact phaseAfter_lands ⟨hnext, hwritten⟩ rfl hstale rfl

/-- A transition leads to where it is on its way after the same blocks or after one more. -/
theorem transition_lands (htells : env.ledger.Tells chain) (h : OnWay chain n p c) :
    ∃ m q, (m = n ∨ m = n + 1) ∧ Lands chain m q c.phase (transition env c.phase c) := by
  have hgoes := h.goes
  rw [Goes] at hgoes
  cases hphase : c.phase with
  | idle =>
      rw [hphase] at hgoes
      exact ⟨n, p, .inl rfl, resume_lands h.holds hgoes.1 hgoes.2⟩
  | processing height =>
      rw [hphase] at hgoes
      obtain ⟨-, hstale, hpartition, hheight⟩ := hgoes
      exact ⟨n, p, .inl rfl, processing_lands htells h.holds hstale hpartition hheight⟩
  | checkpointing height =>
      rw [← hphase]
      rcases checkpointing_lands h hphase with hlands | hlands
      · exact ⟨n, p, .inl rfl, hlands⟩
      · exact ⟨n + 1, _, .inr rfl, hlands⟩
  | done =>
      rw [hphase] at hgoes
      refine ⟨n, p, .inl rfl, h.holds, fun {phase'} hr => ?_, fun {_} hr => nomatch hr⟩
      cases hr
      exact hgoes

end Clusterizer

end Cospend
