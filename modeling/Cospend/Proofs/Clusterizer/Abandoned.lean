import Cospend.Proofs.Clusterizer.Invariant
import Cospend.Proofs.Partition.Overwritten

/-!
# Stepping on after a step that was abandoned

A step that is abandoned in the middle of a block is not rolled back. What it registered and merged stays in
memory, the writes that it staged are lost, and the next checkpoint goes without them. A clusterizer may be
stepped on all the same if nothing was left behind, or once a later step failed with an error, since that does
roll back: then every checkpoint makes the store one that the partition in memory is read back from. This
holds over any store that a clusterizer can be started over.
-/

namespace Cospend

open Cospend.Partition (Alike)

namespace Clusterizer

variable {β : Type} [WriteBatch β] {c c' d : Clusterizer β} {env : Environment} {p q : Partition} {t : Table}

/-- The clusterizers that come about over a store that held `t` at the start, if they are stepped on after
steps that were abandoned. With `ahead`, an abandoned step may have left something behind that was not rolled
back since; nothing is written as long as this is so. -/
inductive Kept (t : Table) : (ahead : Bool) → Clusterizer β → Prop
  | start {config : Configuration} {faults : Faults} {c : Clusterizer β}
    (h : start config ⟨t, faults, 0⟩ = (.ok (), c)) : Kept t false c
  | withFaults {ahead : Bool} {c : Clusterizer β} (h : Kept t ahead c) (faults : Faults) :
    Kept t ahead { c with store := c.store.withFaults faults }
  | step {ahead : Bool} {env : Environment} {phase : Phase} {c c' : Clusterizer β} (h : Kept t ahead c)
    (hstep : step env c = (.ok phase, c')) (hstore : ahead = true → c'.store.table = c.store.table) :
    Kept t ahead c'
  | fail {ahead : Bool} {env : Environment} {e : ClusterizerError} {c c' : Clusterizer β}
    (h : Kept t ahead c) (hstep : step env c = (.error (.error e), c'))
    (hstore : ahead = true → c'.store.table = c.store.table) : Kept t false c'
  /-- In the middle of a block, no more than ways to roots may have changed. -/
  | abandon {env : Environment} {a : Abort} {c c' : Clusterizer β} (h : Kept t false c)
    (hstep : step env c = (.error (.abort a), c'))
    (hleft : ∀ height, c.phase = .processing height → Alike c'.partition c.partition) : Kept t false c'
  | leave {ahead : Bool} {env : Environment} {a : Abort} {height : Height} {c c' : Clusterizer β}
    (h : Kept t ahead c) (hphase : c.phase = .processing height)
    (hstep : step env c = (.error (.abort a), c')) : Kept t true c'

/-- What goes with each phase while `p` is loaded from the store. -/
def Tracks (p : Partition) (c : Clusterizer β) : Prop :=
  match c.phase with
  | .idle => c.stale = false → Alike p c.partition
  | .processing _ => Alike p c.partition
  | .checkpointing _ => ∃ q, Alike q c.partition ∧
    Workspace.Overwrites ⟨c.partition, c.pending.getD .empty⟩ c.store.table q
  | .done => Alike p c.partition

/-- A partition is loaded from the store, and the rest goes with the phase. -/
structure Backed (p : Partition) (c : Clusterizer β) : Prop where
  stores : c.store.table.Stores p
  tracks : Tracks p c

/-- A transition of `c` ended such that the store backs the clusterizer once the step is over. If it was
abandoned in the middle of a block, it must have left nothing behind. -/
def Ends (c : Clusterizer β) : Except (Failure ClusterizerError) Phase × Clusterizer β → Prop
  | (.ok phase, d) => ∃ p, Backed p { d with phase }
  | (.error (.error _), d) => ∃ p, Backed p (d.fallBack c.phase)
  | (.error (.abort _), d) =>
    (∀ height, c.phase = .processing height → Alike d.partition c.partition) → ∃ p, Backed p d

/-! ## Transitions -/

/-- With the partition that is loaded from the store in memory, the way to the next phase is open. -/
theorem phaseAfter_ends {checkpoint : Option Height} (hs : d.store.table.Stores p) (hp : Alike p d.partition)
    (htracks : Tracks p d) : Ends c (phaseAfter env checkpoint d) := by
  have hstill := phaseAfter_still env checkpoint d
  rcases hresult : phaseAfter env checkpoint d with ⟨(e | a) | phase, d'⟩ <;> rw [hresult] at hstill
  · exact ⟨p, hstill.store_eq ▸ hs, fun _ => hstill.partition_eq ▸ hp⟩
  · intro _
    refine ⟨p, hstill.store_eq ▸ hs, ?_⟩
    rw [Tracks, hstill.phase_eq, hstill.stale_eq, hstill.partition_eq, hstill.pending_eq, hstill.store_eq]
    exact htracks
  · have hp' : Alike p d'.partition := hstill.partition_eq ▸ hp
    refine ⟨p, hstill.store_eq ▸ hs, ?_⟩
    rcases phaseAfter_eq_ok hresult with rfl | ⟨next, -, rfl⟩ <;> exact hp'

theorem Backed.resume_ends (h : Backed p c) (hphase : c.phase = .idle) : Ends c (resume env c) := by
  obtain ⟨hs, htracks⟩ := h
  have hidle := htracks
  rw [Tracks, hphase] at hidle
  unfold resume
  cases hstale : c.stale with
  | false =>
      rw [bind_of_ok (recover_of_not_stale hstale), bind_get]
      exact phaseAfter_ends hs (hidle hstale) htracks
  | true =>
      cases hload : Partition.load c.store with
      | error e =>
          obtain ⟨log, hrecover⟩ := recover_of_error hstale hload
          have hstale' : ∀ {P : Prop}, c.stale = false → P := fun h => absurd (hstale.symm.trans h) (by decide)
          rw [bind_of_error hrecover]
          cases e with
          | abort a =>
              intro _
              refine ⟨p, hs, ?_⟩
              simp only [Tracks, hphase]
              exact hstale'
          | error e =>
              refine ⟨p, hs, fun h => ?_⟩
              exact hstale' (Bool.or_eq_false_iff.mp h).1
      | ok q =>
          obtain ⟨log, hrecover⟩ := recover_of_ok hstale hload
          obtain rfl := hs.unique hload
          rw [bind_of_ok hrecover, bind_get]
          refine phaseAfter_ends hs hs.counted.toSound.alike ?_
          simp only [Tracks, hphase]
          exact fun _ => hs.counted.toSound.alike

variable [LawfulBatch β]

theorem Backed.processing_ends (h : Backed p c) {height : Height} (hphase : c.phase = .processing height) :
    Ends c (transition env (.processing height) c) := by
  obtain ⟨hs, hp⟩ := h
  rw [Tracks, hphase] at hp
  have hframe := beside_processBlock env height c
  refine bind_cases (x := processBlock env height) ?_ ?_
  · intro e c' hprocess
    rw [hprocess] at hframe
    cases e with
    | error e =>
        refine ⟨p, hframe.store_eq ▸ hs, fun hstale => ?_⟩
        -- the mark is set, so nothing is asked of memory
        have hmid := (Bool.or_eq_false_iff.mp hstale).2
        rw [hphase] at hmid
        cases hmid
    | abort a =>
        intro hleft
        refine ⟨p, hframe.store_eq ▸ hs, ?_⟩
        rw [Tracks, hframe.phase_eq, hphase]
        exact hp.trans (hleft height hphase).symm
  · intro u c' hprocess
    rw [hprocess] at hframe
    obtain ⟨b, hpending, hedits⟩ := edits_processBlock (hp.symm.sound hs.counted.toSound) hprocess
    have hstart : Workspace.Overwrites ⟨c.partition, (.empty : Pending β)⟩ c.store.table p := by
      rw [Workspace.Overwrites, show WriteBatch.applyTo (Pending.empty : Pending β).writes c.store.table = _ from
        LawfulBatch.applyTo_empty _]
      exact hs
    obtain ⟨q, hq, hoverwrites⟩ := hedits.overwrites hp hstart
    refine ⟨p, hframe.store_eq ▸ hs, q, hq, ?_⟩
    change Workspace.Overwrites ⟨c'.partition, c'.pending.getD .empty⟩ c'.store.table q
    rw [hpending, Option.getD_some, hframe.store_eq]
    exact hoverwrites

/-- A checkpoint writes the pending changes, so that what is loaded from the store is what is in memory. -/
theorem Backed.checkpoint_stores (h : Backed p c) {height : Height} (hphase : c.phase = .checkpointing height)
    (hok : checkpoint height c = (.ok (), d)) :
    ∃ q, d.store.table.Stores q ∧ Alike q d.partition ∧ q.height = some height ∧ d.pending = none ∧
      d.phase = c.phase := by
  obtain ⟨-, htracks⟩ := h
  rw [Tracks, hphase] at htracks
  obtain ⟨q, hq, hoverwrites⟩ := htracks
  rcases checkpoint_outcome height c with ⟨e, store, log, heq, -⟩ | ⟨store, heq, htable⟩ <;> rw [hok] at heq <;>
    cases heq
  rw [Pending.applyTo_stage] at htable
  exact ⟨_, htable ▸ Table.Stores.put_height hoverwrites height, hq.checkpointed (some height), rfl, rfl, rfl⟩

theorem Backed.checkpointing_ends (h : Backed p c) {height : Height} (hphase : c.phase = .checkpointing height) :
    Ends c (transition env (.checkpointing height) c) := by
  refine bind_cases (x := checkpoint height) ?_ ?_
  · intro e c' hcheckpoint
    rcases checkpoint_outcome height c with ⟨e', store, log, heq, htable⟩ | ⟨store, heq, -⟩ <;>
      rw [hcheckpoint] at heq <;> cases heq
    refine ⟨p, ?_, fun hstale => ?_⟩
    · exact (show store.table.Stores p from htable ▸ h.stores)
    · have hmid := (Bool.or_eq_false_iff.mp hstale).2
      rw [hphase] at hmid
      cases hmid
  · intro u d hok
    obtain ⟨q, hs, hq, -, hpending, hphase'⟩ := h.checkpoint_stores hphase hok
    refine phaseAfter_ends hs hq ?_
    rw [Tracks, hphase', hphase]
    refine ⟨q, hq, ?_⟩
    have hwrites : WriteBatch.applyTo (Pending.empty : Pending β).writes d.store.table = d.store.table :=
      LawfulBatch.applyTo_empty _
    rw [hpending, Option.getD_none, Workspace.Overwrites, hwrites]
    exact hs

theorem Backed.transition_ends (h : Backed p c) : Ends c (transition env c.phase c) := by
  cases hphase : c.phase with
  | idle => exact h.resume_ends hphase
  | processing height => exact h.processing_ends hphase
  | checkpointing height => exact h.checkpointing_ends hphase
  | done => exact ⟨p, hphase ▸ h⟩

/-! ## Steps -/

theorem Backed.step (h : Backed p c) {r : Except (Failure ClusterizerError) Phase}
    (hstep : step env c = (r, c'))
    (hleft : ∀ a, r = .error (.abort a) →
      ∀ height, c.phase = .processing height → Alike c'.partition c.partition) : ∃ q, Backed q c' := by
  have hends : Ends c (transition env c.phase c) := h.transition_ends
  unfold Clusterizer.step at hstep
  rcases htransition : transition env c.phase c with ⟨(e | a) | phase, d⟩ <;>
    rw [htransition] at hends hstep <;> cases hstep
  · exact hends
  · exact hends (hleft a rfl)
  · exact hends

omit [LawfulBatch β] in
theorem step_ok_ne_idle {phase : Phase} (hstep : Clusterizer.step env c = (.ok phase, c')) :
    c'.phase = phase ∧ phase ≠ .idle := by
  obtain ⟨hphase, rfl | ⟨next, rfl⟩ | ⟨height, d, -, rfl, -⟩⟩ := step_ok_cases hstep <;>
    exact ⟨hphase, nofun⟩

omit [LawfulBatch β] in
/-- An error in the middle of a block marks the partition as stale, and nothing else ends with an error but
the steps of an idle clusterizer. -/
theorem step_error_stale {e : ClusterizerError} (hphase : c.phase ≠ .idle)
    (hstep : Clusterizer.step env c = (.error (.error e), c')) : c'.phase = .idle ∧ c'.stale = true := by
  unfold Clusterizer.step at hstep
  rcases htransition : transition env c.phase c with ⟨(e | a) | phase', d⟩ <;>
    rw [htransition] at hstep <;> cases hstep
  refine ⟨rfl, ?_⟩
  have hmid : c.phase.isMidBlock = true := by
    cases hc : c.phase with
    | idle => exact absurd hc hphase
    | done =>
        rw [hc] at htransition
        cases htransition
    | _ => rfl
  simp [fallBack, hmid]

/-- A partition is always loaded from the store. As long as nothing is left behind, the rest goes with it. -/
theorem Kept.backed {ahead : Bool} (h : Kept t ahead c) :
    ∃ p, c.store.table.Stores p ∧ (ahead = false → Tracks p c) ∧ (ahead = true → c.phase ≠ .idle) := by
  induction h with
  | @start config faults c h =>
      obtain ⟨q, hload, rfl⟩ := start_of_ok h
      have hs := Table.Stores.of_load hload
      exact ⟨q, hs, fun _ _ => hs.counted.toSound.alike, by simp⟩
  | withFaults _ faults ih => exact ih
  | @step ahead env phase c c' _ hstep hstore ih =>
      obtain ⟨p, hs, htracks, hphase⟩ := ih
      cases ahead with
      | false =>
          obtain ⟨q, hq⟩ := Backed.step ⟨hs, htracks rfl⟩ hstep (by simp)
          exact ⟨q, hq.stores, fun _ => hq.tracks, by simp⟩
      | true =>
          obtain ⟨hphase', hne⟩ := step_ok_ne_idle hstep
          exact ⟨p, (hstore rfl).symm ▸ hs, by simp, fun _ => hphase' ▸ hne⟩
  | @fail ahead env e c c' _ hstep hstore ih =>
      obtain ⟨p, hs, htracks, hphase⟩ := ih
      cases ahead with
      | false =>
          obtain ⟨q, hq⟩ := Backed.step ⟨hs, htracks rfl⟩ hstep (by simp)
          exact ⟨q, hq.stores, fun _ => hq.tracks, by simp⟩
      | true =>
          -- the error marks the partition as stale, so what was left behind is going to be dropped
          obtain ⟨hidle, hstale⟩ := step_error_stale (hphase rfl) hstep
          refine ⟨p, (hstore rfl).symm ▸ hs, fun _ => ?_, by simp⟩
          rw [Tracks, hidle]
          exact fun h => absurd (hstale.symm.trans h) (by decide)
  | abandon _ hstep hleft ih =>
      obtain ⟨p, hs, htracks, -⟩ := ih
      obtain ⟨q, hq⟩ := Backed.step ⟨hs, htracks rfl⟩ hstep fun _ _ => hleft
      exact ⟨q, hq.stores, fun _ => hq.tracks, by simp⟩
  | @leave ahead env a height c c' _ hphase hstep ih =>
      obtain ⟨p, hs, -, -⟩ := ih
      have hframe := beside_processBlock env height c
      unfold Clusterizer.step at hstep
      rw [hphase] at hstep
      rcases hprocess : processBlock env height c with ⟨(e | b) | u, d⟩ <;> rw [hprocess] at hframe
      · rw [transition, bind_of_error hprocess] at hstep
        cases hstep
      · rw [transition, bind_of_error hprocess] at hstep
        cases hstep
        refine ⟨p, hframe.store_eq ▸ hs, by simp, fun _ => ?_⟩
        rw [hframe.phase_eq, hphase]
        simp
      · rw [transition, bind_of_ok hprocess] at hstep
        cases hstep

/-- Take any clusterizer over any store that it could be started over, stepped any number of times with any
ledger and any failures of the store, also after steps that were abandoned, as long as these left nothing
behind or were followed by an error before anything was written. Whenever a checkpoint is written, a partition
restored from the store has its height and the size, the numbers and the clusters of the one in memory, and the
rest of the step changes neither of them. -/
theorem Kept.restore_checkpoint (h : Kept t false c) {height : Height} (hphase : c.phase = .checkpointing height)
    (hok : checkpoint height c = (.ok (), d)) :
    (∀ env, (Clusterizer.step env c).2.store = d.store ∧ (Clusterizer.step env c).2.partition = d.partition) ∧
    ∃ q, Partition.empty.restore (d.store.withFaults .none) = (.ok (), q) ∧ q.height = some height ∧
      q.size = d.partition.size ∧ q.ids = d.partition.ids ∧
      ∀ a, q.clusterOf a = d.partition.clusterOf a := by
  obtain ⟨p, hs, htracks, -⟩ := h.backed
  obtain ⟨q, hstores, hq, hheight, -⟩ := Backed.checkpoint_stores ⟨hs, htracks rfl⟩ hphase hok
  refine ⟨fun env => ?_, q, Partition.restore_eq_ok.mpr hstores.load_eq, hheight, hq.size_eq, hq.ids_eq,
    hq.clusterOf_eq⟩
  have hstill := phaseAfter_still env (some height) d
  have htransition : transition env (.checkpointing height) c = phaseAfter env (some height) d := bind_of_ok hok
  unfold Clusterizer.step
  rw [hphase, htransition]
  rcases hresult : phaseAfter env (some height) d with ⟨(e | a) | phase, d'⟩ <;> rw [hresult] at hstill <;>
    exact ⟨hstill.store_eq, hstill.partition_eq⟩

end Clusterizer

/-! ## Two clusters of the greatest rank -/

namespace Unmergeable

open Clusterizer

/-- Two addresses that can never be merged. -/
def stored : Table :=
  Table.changeAll ∅ [
    .set Variable.size.key (Variable.encode .size 2),
    .set (Variable.parent 0).key (Variable.encode (.parent 0) (.ofNat 0)),
    .set (Variable.rank 0).key (Variable.encode (.rank 0) Forest.maxRank),
    .set (Variable.parent 1).key (Variable.encode (.parent 1) (.ofNat 1)),
    .set (Variable.rank 1).key (Variable.encode (.rank 1) Forest.maxRank),
    .set (Variable.addressId ⟨"A"⟩).key (Variable.encode (.addressId ⟨"A"⟩) (.ofNat 0)),
    .set (Variable.addressId ⟨"B"⟩).key (Variable.encode (.addressId ⟨"B"⟩) (.ofNat 1))]

def digest (n : UInt8) : Digest := ⟨List.replicate 32 n, List.length_replicate⟩

/-- The ledger with the given transactions in each block. The first one spends the coins of the two
addresses, the others spend those of an address each that is not registered. -/
def ledger (ids : List Digest) : Ledger where
  tip _ := .ok .genesis
  block h := .ok ⟨h, digest 9, ids⟩
  transaction _ id := .ok <|
    if id = digest 1 then ⟨[⟨digest 9, 0⟩, ⟨digest 9, 1⟩], []⟩
    else if id = digest 2 then ⟨[⟨digest 9, 2⟩], []⟩
    else if id = digest 3 then ⟨[⟨digest 9, 3⟩], []⟩
    else ⟨[], ["A", "B", "C", "D"].map fun a => ⟨1, some ⟨a⟩⟩⟩

def stepped (ids : List Digest) (c : Clusterizer Delta) :
    Except (Failure ClusterizerError) Phase × Clusterizer Delta :=
  step (.sequential (ledger ids) 1) c

def started : Clusterizer Delta := (stepped [] (start (.standard 1) ⟨stored, .none, 0⟩).2).2

/-- The block merges the two addresses, and is abandoned for that. -/
def abandoned : Clusterizer Delta := (stepped [digest 1] started).2

/-- Another block took its place. -/
def retried : Clusterizer Delta := (stepped [digest 2] abandoned).2

theorem kept_retried : Kept stored false retried := by
  have hstart : Kept stored false (start (.standard 1) ⟨stored, .none, 0⟩ : _ × Clusterizer Delta).2 :=
    .start (Prod.ext (show _ = Except.ok () by decide +kernel) rfl)
  have hstarted : Kept stored false started :=
    hstart.step (Prod.ext (show _ = Except.ok (Phase.processing .genesis) by decide +kernel) rfl) (by simp)
  have habandoned : Kept stored false abandoned := by
    have hgivenUp : (stepped [digest 1] started).1 = .error (.abort .addOverflow) := by decide +kernel
    refine hstarted.abandon (Prod.ext hgivenUp rfl) fun _ _ => ?_
    have hsame : abandoned.partition = started.partition := by rfl
    obtain ⟨p, -, htracks, -⟩ := hstarted.backed
    have hp : Alike p started.partition := htracks rfl
    rw [hsame]
    exact hp.symm.trans hp
  have hretried : (stepped [digest 2] abandoned).1 = .ok (.checkpointing .genesis) := by decide +kernel
  exact habandoned.step (Prod.ext hretried rfl) (by simp)

end Unmergeable

open Unmergeable in
theorem Clusterizer.Kept.restore_checkpoint_retried :
    (stepped [digest 1] started).1 = .error (.abort .addOverflow) ∧
      ∃ d : Clusterizer Delta, checkpoint .genesis retried = (.ok (), d) ∧ d.partition.size = 3 ∧
        ∃ q, Partition.empty.restore (d.store.withFaults .none) = (.ok (), q) ∧ q.size = d.partition.size ∧
          q.ids = d.partition.ids := by
  have hphase : retried.phase = .checkpointing .genesis := by decide +kernel
  have hok : checkpoint .genesis retried = (.ok (), (checkpoint .genesis retried).2) :=
    Prod.ext (show _ = Except.ok () by decide +kernel) rfl
  obtain ⟨-, q, hq, -, hsize, hids, -⟩ := Kept.restore_checkpoint kept_retried hphase hok
  exact ⟨by decide +kernel, _, hok, by decide +kernel, q, hq, hsize, hids⟩

open Unmergeable in
/-- A step that is abandoned leaves an address behind, the next block at the same height is checkpointed, and
the store cannot be read back any more. -/
theorem Clusterizer.checkpoint_after_abandoned :
    let left := stepped [digest 2, digest 1] started
    let processed := stepped [digest 3] left.2
    let written := stepped [] processed.2
    left.1 = .error (.abort .addOverflow) ∧ processed.1 = .ok (.checkpointing .genesis) ∧
      written.1 = .ok .done ∧ written.2.partition.size = 4 ∧
      (Partition.empty.restore written.2.store).1 = .error (.error (.read (.missing (.parent 2)))) := by
  refine ⟨by decide +kernel, by decide +kernel, by decide +kernel, by decide +kernel, by decide +kernel⟩

end Cospend
