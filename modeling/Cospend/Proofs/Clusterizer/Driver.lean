import Cospend.Proofs.Clusterizer.Durable

/-!
# Phase, memory and store

A clusterizer is steady over a partition if its store holds that partition and its phase, its batch, its
mark and its own partition go with it. Every step leaves it steady, whatever the ledger answers: a
checkpoint moves on to the next partition, and any failure falls back to the one that the store holds.
-/

namespace Cospend

namespace Clusterizer

variable {β : Type} [WriteBatch β] {c c' : Clusterizer β} {env : Environment} {p : Partition} {t : Table}

/-- The clusterizers that come about over a store that held `t` at the start. The ledger may answer
anything, and other calls of the store may fail from one step to the next; a step that is abandoned ends
the run. -/
inductive Driven (t : Table) : Clusterizer β → Prop
  | start {config : Configuration} {faults : Faults} {c : Clusterizer β}
    (h : start config ⟨t, faults, 0⟩ = (.ok (), c)) : Driven t c
  | withFaults {c : Clusterizer β} (h : Driven t c) (faults : Faults) :
    Driven t { c with store := c.store.withFaults faults }
  | step {env : Environment} {r : Except (Failure ClusterizerError) Phase} {c c' : Clusterizer β}
    (h : Driven t c) (hstep : step env c = (r, c')) (hr : ∀ a, r ≠ .error (.abort a)) : Driven t c'

/-- What goes with each phase while the store holds `p`. -/
def Place (p : Partition) (c : Clusterizer β) : Prop :=
  match c.phase with
  | .idle => c.pending = none ∧ (c.stale = false → c.partition = p)
  | .done => c.pending = none ∧ c.stale = false ∧ c.partition = p
  | .processing h => c.pending = none ∧ c.stale = false ∧ c.partition = p ∧
    heightAfter p.height = .ok h
  | .checkpointing h => c.stale = false ∧ heightAfter p.height = .ok h ∧ c.partition.Numbered ∧
    ∃ b, c.pending = some b ∧ b.checkpoint = none ∧ b.LeadsTo p.table c.partition

/-- The store holds `p`, memory has the same height, and the rest goes with the phase. -/
structure Steady (p : Partition) (c : Clusterizer β) : Prop where
  numbered : p.Numbered
  table : c.store.table = p.table
  height_eq : c.partition.height = p.height
  place : Place p c

/-- A transition from a phase ended such that the clusterizer is steady once the step is over. -/
def Settles (phase : Phase) : Except (Failure ClusterizerError) Phase × Clusterizer β → Prop
  | (.ok phase', c) => ∃ p, Steady p { c with phase := phase' }
  | (.error (.error _), c) => ∃ p, Steady p (c.fallBack phase)
  | (.error (.abort _), _) => True

/-! ## Transitions -/

theorem steady_fallBack {phase : Phase} (hp : p.Numbered) (ht : c.store.table = p.table)
    (hheight : c.partition.height = p.height)
    (hpartition : c.stale = false → phase.isMidBlock = false → c.partition = p) :
    Steady p (c.fallBack phase) := by
  -- after an error in the middle of a block the mark is set, so nothing but the height is asked of memory
  refine ⟨hp, ht, hheight, rfl, fun hstale => ?_⟩
  obtain ⟨hstale, hphase⟩ := Bool.or_eq_false_iff.mp hstale
  exact hpartition hstale hphase

/-- With the partition that the store holds in memory, the way to the next phase is open. -/
theorem phaseAfter_settles {phase : Phase} (hp : p.Numbered) (ht : c.store.table = p.table)
    (hpending : c.pending = none) (hstale : c.stale = false) (hpartition : c.partition = p) :
    Settles phase (phaseAfter env p.height c) := by
  have hstill := phaseAfter_still env p.height c
  rcases hresult : phaseAfter env p.height c with ⟨(e | a) | phase', c'⟩ <;> rw [hresult] at hstill
  · refine ⟨p, steady_fallBack hp (hstill.store_eq ▸ ht) ?_ fun _ _ => ?_⟩ <;>
      rw [hstill.partition_eq, hpartition]
  · trivial
  · have hpending' := hstill.pending_eq.trans hpending
    have hstale' := hstill.stale_eq.trans hstale
    have hpartition' := hstill.partition_eq.trans hpartition
    refine ⟨p, hp, hstill.store_eq ▸ ht, congrArg Partition.height hpartition', ?_⟩
    rcases phaseAfter_eq_ok hresult with rfl | ⟨next, hnext, rfl⟩
    · exact ⟨hpending', hstale', hpartition'⟩
    · exact ⟨hpending', hstale', hpartition', hnext⟩

theorem Steady.resume_settles (h : Steady p c) (hphase : c.phase = .idle) :
    Settles .idle (resume env c) := by
  obtain ⟨hp, ht, hheight, hplace⟩ := h
  rw [Place, hphase] at hplace
  obtain ⟨hpending, hpartition⟩ := hplace
  unfold resume
  cases hstale : c.stale with
  | false =>
      rw [bind_of_ok (recover_of_not_stale hstale), bind_get, hpartition hstale]
      exact phaseAfter_settles hp ht hpending hstale (hpartition hstale)
  | true =>
      cases hload : Partition.load c.store with
      | error e =>
          obtain ⟨log, hrecover⟩ := recover_of_error hstale hload
          rw [bind_of_error hrecover]
          cases e with
          | abort a => trivial
          | error e =>
              exact ⟨p, steady_fallBack hp ht hheight fun hstale' _ =>
                absurd (hstale.symm.trans hstale') (by decide)⟩
      | ok q =>
          obtain ⟨log, hrecover⟩ := recover_of_ok hstale hload
          -- nothing but `p` can be read back from a store that holds it
          obtain rfl := hp.load_eq ht hload
          rw [bind_of_ok hrecover, bind_get]
          exact phaseAfter_settles hp ht hpending rfl rfl

variable [LawfulBatch β]

theorem Steady.processing_settles (h : Steady p c) {height : Height}
    (hphase : c.phase = .processing height) :
    Settles (.processing height) (transition env (.processing height) c) := by
  obtain ⟨hp, ht, hheight, hplace⟩ := h
  rw [Place, hphase] at hplace
  obtain ⟨-, hstale, rfl, hnext⟩ := hplace
  have hframe := beside_processBlock env height c
  have hlevel := height_processBlock env height c
  refine bind_cases (x := processBlock env height) ?_ ?_
  · intro e c' hprocess
    rw [hprocess] at hframe hlevel
    cases e with
    | abort a => trivial
    | error e =>
        exact ⟨c.partition, steady_fallBack hp (hframe.store_eq ▸ ht) hlevel fun _ hmid => by cases hmid⟩
  · intro u c' hprocess
    rw [hprocess] at hframe hlevel
    obtain ⟨b, hpending, hstaged⟩ := staged_processBlock hp hprocess
    refine ⟨c.partition, hp, hframe.store_eq ▸ ht, hlevel, hframe.stale_eq.trans hstale, hnext,
      hstaged.numbered, b, hpending, hstaged.checkpoint_eq, ?_⟩
    exact hstaged.leadsTo hp.toSound (Pending.leadsTo_empty c.partition)

theorem Steady.checkpointing_settles (h : Steady p c) {height : Height}
    (hphase : c.phase = .checkpointing height) :
    Settles (.checkpointing height) (transition env (.checkpointing height) c) := by
  obtain ⟨hp, ht, hheight, hplace⟩ := h
  rw [Place, hphase] at hplace
  obtain ⟨hstale, -, hnumbered, b, hpending, -, hleads⟩ := hplace
  -- the batch is written as a whole or not at all
  rcases checkpoint_cases height hpending (ht ▸ hleads) with
    ⟨e, store, log, heq, htable⟩ | ⟨store, writes, heq, htable⟩
  · rw [transition, bind_of_error heq]
    exact ⟨p, steady_fallBack hp (htable.trans ht) hheight fun _ hmid => by cases hmid⟩
  · rw [transition, bind_of_ok heq]
    exact phaseAfter_settles (hnumbered.checkpointed (some height)) htable rfl hstale rfl

theorem Steady.transition_settles (h : Steady p c) : Settles c.phase (transition env c.phase c) := by
  cases hphase : c.phase with
  | idle => exact h.resume_settles hphase
  | processing height => exact h.processing_settles hphase
  | checkpointing height => exact h.checkpointing_settles hphase
  | done => exact ⟨p, hphase ▸ h⟩

/-! ## Steps and runs -/

theorem Steady.step (h : Steady p c) {r : Except (Failure ClusterizerError) Phase}
    (hstep : step env c = (r, c')) (hr : ∀ a, r ≠ .error (.abort a)) : ∃ q, Steady q c' := by
  have hsettles : Settles c.phase (transition env c.phase c) := h.transition_settles
  unfold Clusterizer.step at hstep
  rcases htransition : transition env c.phase c with ⟨(e | a) | phase, d⟩ <;>
    rw [htransition] at hsettles hstep <;> cases hstep
  · exact hsettles
  · exact absurd rfl (hr a)
  · exact hsettles

omit [LawfulBatch β] in
/-- A start succeeds only with the partition that the store holds. -/
theorem steady_start (hp : p.Numbered) (ht : t = p.table) {config : Configuration} {faults : Faults}
    (h : start config ⟨t, faults, 0⟩ = (.ok (), c)) : Steady p c := by
  obtain ⟨q, hload, rfl⟩ := start_of_ok h
  obtain rfl := hp.load_eq ht hload
  exact ⟨hp, ht, rfl, rfl, fun _ => rfl⟩

theorem Driven.steady (h : Driven t c) (hp : p.Numbered) (ht : t = p.table) : ∃ q, Steady q c := by
  induction h with
  | start hstart => exact ⟨p, steady_start hp ht hstart⟩
  | withFaults _ faults ih =>
      obtain ⟨q, hq⟩ := ih
      exact ⟨q, hq.numbered, hq.table, hq.height_eq, hq.place⟩
  | step _ hstep hr ih =>
      obtain ⟨q, hq⟩ := ih
      exact hq.step hstep hr

/-! ## What the phases tell -/

omit [LawfulBatch β]

omit [WriteBatch β] in
theorem toInt_heightAfter {checkpoint : Option Height} {h : Height}
    (hh : heightAfter checkpoint = .ok h) : h.toInt = checkpoint.elim 0 fun g => g.toInt + 1 := by
  cases checkpoint with
  | none =>
      cases hh
      rfl
  | some g =>
      simp only [heightAfter] at hh
      split at hh
      · rename_i next hnext
        cases hh
        exact Chain.ofInt?_eq_some.mp hnext
      · cases hh

theorem Steady.idle_of_stale (h : Steady p c) (hstale : c.stale = true) : c.phase = .idle := by
  have hplace := h.place
  rw [Place] at hplace
  cases hphase : c.phase with
  | idle => rfl
  | processing height =>
      rw [hphase] at hplace
      exact absurd (hstale.symm.trans hplace.2.1) (by decide)
  | checkpointing height =>
      rw [hphase] at hplace
      exact absurd (hstale.symm.trans hplace.1) (by decide)
  | done =>
      rw [hphase] at hplace
      exact absurd (hstale.symm.trans hplace.2.1) (by decide)

theorem Steady.load_eq (h : Steady p c) (hpartition : c.partition = p) :
    Partition.load (c.store.withFaults .none) = .ok c.partition := by
  subst hpartition
  exact Partition.load_eq_ok.mpr (h.numbered.loadedFrom rfl h.table)

/-- The batch of a block, written over what the store holds, gives the partition in memory. -/
theorem Steady.load_overlay (h : Steady p c) {height : Height} (hphase : c.phase = .checkpointing height) :
    ∃ b, c.pending = some b ∧ b.checkpoint = none ∧
      Partition.load ⟨WriteBatch.applyTo b.writes c.store.table, .none, 0⟩ = .ok c.partition := by
  have hplace := h.place
  rw [Place, hphase] at hplace
  obtain ⟨-, -, hnumbered, b, hpending, hcheckpoint, hleads⟩ := hplace
  rw [Pending.LeadsTo, hcheckpoint] at hleads
  refine ⟨b, hpending, hcheckpoint, Partition.load_eq_ok.mpr (hnumbered.loadedFrom rfl ?_)⟩
  rw [h.table]
  exact hleads

/-- A step from a stale partition ends where it began unless the partition was read back. -/
theorem step_of_stale (hphase : c.phase = .idle) (hstale : c.stale = true)
    {r : Except (Failure ClusterizerError) Phase} (hstep : step env c = (r, c')) :
    (∃ e, Partition.load c.store = .error e ∧ r = .error (e.map .partition) ∧ c'.phase = .idle ∧
      c'.stale = true) ∨
    Partition.load c.store = .ok c'.partition ∧ c'.stale = false := by
  simp only [step, hphase, transition, resume] at hstep
  cases hload : Partition.load c.store with
  | error e =>
      left
      obtain ⟨log, hrecover⟩ := recover_of_error hstale hload
      rw [bind_of_error hrecover] at hstep
      refine ⟨e, rfl, ?_⟩
      cases e <;> cases hstep
      · exact ⟨rfl, rfl, by simp [fallBack, hstale]⟩
      · exact ⟨rfl, hphase, hstale⟩
  | ok q =>
      right
      obtain ⟨d, hrecover, rfl, hstale'⟩ :
          ∃ d, recover c = (.ok (), d) ∧ d.partition = q ∧ d.stale = false := by
        obtain ⟨log, hrecover⟩ := recover_of_ok hstale hload
        exact ⟨_, hrecover, rfl, rfl⟩
      rw [bind_of_ok hrecover, bind_get] at hstep
      have hstill := phaseAfter_still env d.partition.height d
      have hclear := hstill.stale_eq.trans hstale'
      rcases hresult : phaseAfter env d.partition.height d with ⟨(e | a) | phase, d'⟩ <;>
        rw [hresult] at hstep hstill hclear <;> cases hstep <;>
        refine ⟨congrArg Except.ok hstill.partition_eq.symm, ?_⟩
      · exact Bool.or_eq_false_iff.mpr ⟨hclear, rfl⟩
      · exact hclear
      · exact hclear

theorem step_of_error {e : ClusterizerError} (hstep : step env c = (.error (.error e), c')) :
    c'.phase = .idle ∧ c'.pending = none := by
  unfold step at hstep
  split at hstep <;> cases hstep
  exact ⟨rfl, rfl⟩

/-- Take any clusterizer that was driven over a store that held, at the start, what comes of the first
blocks of a chain, if any. Its partition has the height that the store holds. With a block to come or
nothing to do, and nothing to read back, nothing is pending and the store holds the partition in memory;
with a checkpoint to come, the store overlaid with the pending batch does, and the batch has no height
yet. The block at hand is the one after the checkpoint, and the partition is not stale then. A step that
fails leaves nothing pending, and a stale partition stays put until it was read back. -/
theorem Driven.matches_store [LawfulBatch β] {chain : Chain} {n : Nat} {p : Partition}
    (hafter : chain.after n = some p) (h : Driven p.table c) :
    (c.store.withFaults .none).read .height = .ok c.partition.height ∧
    ((∃ height, c.phase = .processing height) ∨ c.phase = .done ∨ c.phase = .idle ∧ c.stale = false →
      c.pending = none ∧ Partition.load (c.store.withFaults .none) = .ok c.partition) ∧
    (∀ height, c.phase = .checkpointing height → ∃ b, c.pending = some b ∧ b.checkpoint = none ∧
      Partition.load ⟨WriteBatch.applyTo b.writes c.store.table, .none, 0⟩ = .ok c.partition) ∧
    (∀ height, c.phase = .processing height ∨ c.phase = .checkpointing height →
      c.stale = false ∧ height.toInt = c.partition.height.elim 0 fun g => g.toInt + 1) ∧
    (∀ env e c', Clusterizer.step env c = (.error (.error e), c') → c'.phase = .idle ∧ c'.pending = none) ∧
    (c.stale = true → c.phase = .idle ∧ ∀ env r c', Clusterizer.step env c = (r, c') →
      (∃ e, Partition.load c.store = .error e ∧ r = .error (e.map .partition) ∧ c'.phase = .idle ∧
        c'.stale = true) ∨
      Partition.load c.store = .ok c'.partition ∧ c'.stale = false) := by
  obtain ⟨q, hq⟩ := h.steady (Chain.numbered_after hafter) rfl
  have hplace := hq.place
  rw [Place] at hplace
  refine ⟨?_, ?_, fun height hphase => hq.load_overlay hphase, ?_, fun env e c' => step_of_error,
    fun hstale => ⟨hq.idle_of_stale hstale, fun env r c' => step_of_stale (hq.idle_of_stale hstale) hstale⟩⟩
  · rw [hq.height_eq]
    exact Partition.read_table (s := c.store.withFaults .none) rfl hq.table .height
  · rintro (⟨height, hphase⟩ | hphase | ⟨hphase, hstale⟩) <;> rw [hphase] at hplace
    · exact ⟨hplace.1, hq.load_eq hplace.2.2.1⟩
    · exact ⟨hplace.1, hq.load_eq hplace.2.2⟩
    · exact ⟨hplace.1, hq.load_eq (hplace.2 hstale)⟩
  · rw [hq.height_eq]
    rintro height (hphase | hphase) <;> rw [hphase] at hplace
    · exact ⟨hplace.2.1, toInt_heightAfter hplace.2.2.2⟩
    · exact ⟨hplace.1, toInt_heightAfter hplace.2.1⟩

end Clusterizer

namespace Sample

open Clusterizer

theorem driven_stepped {t : Table} {c : Clusterizer Delta} (h : Driven t c) (phase : Phase)
    (hok : (stepped c).1 = .ok phase) : Driven t (stepped c).2 :=
  (h.withFaults .none).step (Prod.ext hok rfl) nofun

theorem driven_interrupted : Driven ∅ interrupted := by
  have hstart : start (.standard 1) ⟨∅, .none, 0⟩ = (.ok (), (started ∅).2) := rfl
  have hstarted : Driven ∅ (started ∅).2 := .start hstart
  rw [interrupted]
  exact driven_stepped (driven_stepped hstarted (.processing .genesis) (by decide +kernel))
    (.checkpointing .genesis) (by decide +kernel)

end Sample

open Sample in
theorem Clusterizer.Driven.matches_store_interrupted :
    interrupted.phase = .checkpointing .genesis ∧ interrupted.partition.size = 2 ∧
      (interrupted.store.withFaults .none).read .height = .ok interrupted.partition.height ∧
      ∃ b, interrupted.pending = some b ∧ b.checkpoint = none ∧
        Partition.load ⟨WriteBatch.applyTo b.writes interrupted.store.table, .none, 0⟩ =
          .ok interrupted.partition := by
  have hafter : sample.after 0 = some .empty := rfl
  have hphase : interrupted.phase = .checkpointing .genesis := by decide +kernel
  obtain ⟨hheight, -, hoverlay, -⟩ := matches_store hafter (Partition.table_empty ▸ driven_interrupted)
  exact ⟨hphase, by decide +kernel, hheight, hoverlay _ hphase⟩

end Cospend
