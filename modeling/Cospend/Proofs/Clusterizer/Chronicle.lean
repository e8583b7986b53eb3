import Cospend.Proofs.Clusterizer.Recount
import Cospend.Proofs.Event.Bus
import Cospend.Proofs.Session.Basic

/-!
# Events tell what is durable

A chronicle of a store has everything that clusterizers published over it, one after the other, while the
ledger, the workers and the store fail in any way. Its checkpoints are those of every height from zero up to
the one that the store holds.
-/

namespace Cospend

open Clusterizer

variable {β : Type} [WriteBatch β] {c c' : Clusterizer β} {env : Environment} {p q : Partition}
variable {t : Table} {es past : List Event} {n : Nat} {s : Scene β}

/-! ## Exports -/

theorem Event.checkpoint?_eq_none {e : Event} (h : e.kind = .finalized ∨ e.kind = .exported) :
    e.checkpoint? = none := by
  cases e with
  | checkpointed => rcases h with h | h <;> cases h
  | _ => rfl

namespace Clusterizer

/-- An export leads from `c` to `c'`, whether it succeeds or not. -/
inductive Exports (c : Clusterizer β) : Clusterizer β → Prop
  | sheet {κ : Type} (d : Directory κ) (path : String) : Exports c (c.exportSheet d path).2
  | sink {τ : Type} (config : Configuration) (sink : Sink τ) (schedule : Schedule) (state : τ) :
      Exports c (c.exportSink config sink schedule state).2

omit [WriteBatch β] in
theorem afterExport_leaves {τ : Type} (c : Clusterizer β) (told blamed : String)
    (write : List Row → Except (Failure ExportError) Unit × τ) :
    ∃ es log, c.afterExport (c.partition.exportWith told blamed write) = { c with
        partition := c.partition.finalize, published := c.published ++ es, log } ∧
      ∀ e ∈ es, e.kind = .finalized ∨ e.kind = .exported := by
  let report := c.partition.exportWith told blamed write
  refine ⟨report.events, c.log ++ report.log, ?_, c.partition.exportWith_events told blamed write⟩
  rw [afterExport, Partition.exportWith_partition]

omit [WriteBatch β] in
/-- An export leaves the store and the place of the walk alone. -/
theorem Exports.leaves (h : Exports c c') :
    ∃ es log, c' = { c with
        partition := c.partition.finalize, published := c.published ++ es, log } ∧
      ∀ e ∈ es, e.kind = .finalized ∨ e.kind = .exported := by
  cases h with
  | sheet d path => exact afterExport_leaves c _ _ _
  | sink config sink schedule state => exact afterExport_leaves c _ _ _

theorem Aligned.exported (h : Aligned p c) (hexport : Exports c c') : Aligned p c' := by
  obtain ⟨es, log, rfl, -⟩ := hexport.leaves
  have habreast := h.abreast
  rw [Abreast] at habreast
  have halike (hc : c.partition.Alike p) : c.partition.finalize.Alike p :=
    (hc.sound h.numbered.toSound).finalize.trans hc
  refine ⟨h.numbered, h.table, ?_⟩
  rw [Abreast]
  cases hphase : c.phase with
  | idle =>
      rw [hphase] at habreast
      exact fun hstale => halike (habreast hstale)
  | processing height =>
      rw [hphase] at habreast
      exact ⟨habreast.1, halike habreast.2.1, habreast.2.2⟩
  | checkpointing height =>
      -- the batch still leads to the partition as it was, which differs in the ways to the roots alone
      rw [hphase] at habreast
      obtain ⟨hstale, hnext, b, q, hpending, hq, hqc, hleads⟩ := habreast
      have hsound := hqc.symm.sound hq.toSound
      exact ⟨hstale, hnext, b, q, hpending, hq, hqc.trans hsound.finalize.symm, hleads⟩
  | done =>
      rw [hphase] at habreast
      exact ⟨habreast.1, halike habreast.2⟩

/-! ## Steps -/

/-- The step went wrong, and the caller was told. -/
def failed : Except (Failure ClusterizerError) Phase → Bool
  | .error (.error _) => true
  | _ => false

/-- What a step from `c` to `c'` publishes, if the store held `m` before it and holds `m'` after it. -/
structure Reports (c : Clusterizer β) (r : Except (Failure ClusterizerError) Phase) (c' : Clusterizer β)
    (m m' : Mark) (es : List Event) : Prop where
  published : c'.published = c.published ++ es
  /-- A checkpoint if the store went on by a block, and none if it is as it was. -/
  checkpoints : (c'.store.table = c.store.table ∧ m' = m ∧ es.filterMap Event.checkpoint? = []) ∨
    (m'.blocks = m.blocks + 1 ∧ es.filterMap Event.checkpoint? = [m'])
  /-- A restore if a stale partition was read back. -/
  restores : es.filterMap Event.restore? =
    if c.stale && (Partition.load c.store).isOk then [m] else []
  /-- It is stale until then, and again after an error in the middle of a block. -/
  stale_eq : c'.stale =
    (c.stale && !(Partition.load c.store).isOk || failed r && c.phase.isMidBlock)
  blocks : ∀ h ∈ es.filterMap Event.block?, h.toInt = m.blocks
  arrivals : es.filterMap Event.arrival? =
    if c'.phase = .done ∧ c.phase ≠ .done then [m'.height] else []

theorem blocks_next {p q : Partition} {h : Height} (hp : heightAfter p.height = .ok h)
    (hq : q.height = some h) : q.mark.blocks = p.mark.blocks + 1 := by
  rw [Mark.blocks, Mark.blocks, Partition.mark, Partition.mark, hq, Option.elim_some,
    toInt_heightAfter hp]

/-- What a step makes of the end of its transition. -/
theorem Recounts.reports {d : Clusterizer β} {r : Except (Failure ClusterizerError) Phase}
    (h : Recounts p c q es (r, d)) (hp : c.store.table = p.table) (hstore : c'.store = d.store)
    (hpublished : c'.published = d.published)
    (hstale : c'.stale = (d.stale || failed r && c.phase.isMidBlock))
    (hphase : c.phase ≠ .done → (c'.phase = .done ↔ r = .ok .done)) :
    Reports c r c' p.mark q.mark es where
  published := hpublished.trans h.published
  checkpoints := by
    rcases h.checkpoints with ⟨rfl, hnone⟩ | ⟨height, hnext, hheight, hone⟩
    · exact .inl ⟨by rw [hstore, hp, ← h.table], rfl, hnone⟩
    · exact .inr ⟨blocks_next hnext hheight, hone⟩
  restores := h.restores
  stale_eq := by rw [hstale, ← h.stale_eq]
  blocks g hg := toInt_heightAfter (h.blocks g hg)
  arrivals := by
    rw [h.arrivals]
    by_cases hdone : c.phase = .done
    · simp [hdone]
    · simp [hdone, hphase hdone, Partition.mark]

variable [LawfulBatch β]

/-- A step tells what it did, and leaves memory abreast of the store. -/
theorem Aligned.step (h : Aligned p c) {r : Except (Failure ClusterizerError) Phase}
    (hstep : step env c = (r, c')) :
    ∃ q es, q.Numbered ∧ c'.store.table = q.table ∧ Reports c r c' p.mark q.mark es ∧
      ((∀ a, r ≠ .error (.abort a)) → Aligned q c') := by
  obtain ⟨q, es, hrecounts⟩ : ∃ q es, Recounts p c q es (transition env c.phase c) :=
    h.transition_recounts
  refine ⟨q, es, hrecounts.numbered, ?_⟩
  unfold Clusterizer.step at hstep
  rcases htransition : transition env c.phase c with ⟨(e | a) | phase, d⟩ <;>
    rw [htransition] at hstep hrecounts <;> cases hstep
  · refine ⟨hrecounts.table, hrecounts.reports h.table rfl rfl rfl fun _ => ?_, fun _ => ?_⟩
    · exact iff_of_false nofun nofun
    · exact ⟨hrecounts.numbered, hrecounts.table, hrecounts.error rfl⟩
  · refine ⟨hrecounts.table, hrecounts.reports h.table rfl rfl (by simp [failed]) fun hdone => ?_, ?_⟩
    · rw [hrecounts.phase_eq]
      exact iff_of_false hdone nofun
    · exact fun hr => absurd rfl (hr a)
  · refine ⟨hrecounts.table, hrecounts.reports h.table rfl rfl (by simp [failed]) fun _ => ?_, fun _ => ?_⟩
    · exact ⟨congrArg _, Except.ok.inj⟩
    · exact ⟨hrecounts.numbered, hrecounts.table, hrecounts.ok rfl⟩

end Clusterizer

/-! ## Lifetimes -/

/-- What the present clusterizer published, if there is one. -/
def Scene.published : Scene β → List Event
  | .store _ => []
  | .clusterizer c => c.published

/-- What may come about over an empty store, whatever the ledgers tell, after clusterizers that are gone
published `past`. A clusterizer is gone once it was dropped, or abandoned a step. -/
inductive Chronicle : (past : List Event) → Scene β → Prop
  | new : Chronicle [] (.store ∅)
  | started {past : List Event} {t : Table} {c : Clusterizer β} (h : Chronicle past (.store t))
    {config : Configuration} {faults : Faults} (hstart : start config ⟨t, faults, 0⟩ = (.ok (), c)) :
    Chronicle past (.clusterizer c)
  | refused {past : List Event} {t : Table} {c : Clusterizer β} (h : Chronicle past (.store t))
    {config : Configuration} {faults : Faults} {e : Failure ClusterizerError}
    (hstart : start config ⟨t, faults, 0⟩ = (.error e, c)) :
    Chronicle (past ++ c.published) (.store c.store.table)
  | withFaults {past : List Event} {c : Clusterizer β} (h : Chronicle past (.clusterizer c))
    (faults : Faults) : Chronicle past (.clusterizer { c with store := c.store.withFaults faults })
  | stepped {past : List Event} {c c' : Clusterizer β} (h : Chronicle past (.clusterizer c))
    {env : Environment} {r : Except (Failure ClusterizerError) Phase} (hstep : step env c = (r, c'))
    (hr : ∀ a, r ≠ .error (.abort a)) : Chronicle past (.clusterizer c')
  | abandoned {past : List Event} {c c' : Clusterizer β} (h : Chronicle past (.clusterizer c))
    {env : Environment} {a : Abort} (hstep : step env c = (.error (.abort a), c')) :
    Chronicle (past ++ c'.published) (.store c'.store.table)
  | exported {past : List Event} {c c' : Clusterizer β} (h : Chronicle past (.clusterizer c))
    (hexport : Exports c c') : Chronicle past (.clusterizer c')
  | dropped {past : List Event} {c : Clusterizer β} (h : Chronicle past (.clusterizer c)) :
    Chronicle (past ++ c.published) (.store c.store.table)

/-- The checkpoints among the events are those of the first `n` heights, in order. -/
def Counts (es : List Event) (n : Nat) : Prop :=
  (es.filterMap Event.checkpoint?).map Mark.height = (List.range n).map fun i : Nat => Height.ofInt? i

/-- The store holds `p` after `n` blocks, and so many checkpoints were told of. -/
structure Scene.Told (past : List Event) (n : Nat) (p : Partition) (s : Scene β) : Prop where
  numbered : p.Numbered
  table : s.table = p.table
  blocks : p.mark.blocks = n
  counts : Counts (past ++ s.published) n
  aligned {c : Clusterizer β} (h : s = .clusterizer c) : Aligned p c

theorem Mark.height_of_blocks {m : Mark} {n : Nat} (h : m.blocks = n + 1) :
    m.height = Height.ofInt? n := by
  obtain ⟨height, size⟩ := m
  cases height with
  | none =>
      rw [blocks, Option.elim_none] at h
      omega
  | some height =>
      rw [blocks, Option.elim_some] at h
      exact (Chain.ofInt?_eq_some.mpr (by omega)).symm

theorem Counts.append_of_quiet {later : List Event} (h : Counts es n)
    (hlater : later.filterMap Event.checkpoint? = []) : Counts (es ++ later) n := by
  rwa [Counts, List.filterMap_append, hlater, List.append_nil]

theorem Counts.append_checkpoint {later : List Event} {m : Mark} (h : Counts es n)
    (hblocks : m.blocks = n + 1) (hlater : later.filterMap Event.checkpoint? = [m]) :
    Counts (es ++ later) (n + 1) := by
  rw [Counts, List.filterMap_append, hlater, List.map_append, h, List.range_succ, List.map_append,
    List.map_singleton, List.map_singleton, Mark.height_of_blocks hblocks]

namespace Scene.Told

theorem of_aligned (h : Aligned p c) (hn : p.mark.blocks = n) (hes : Counts (past ++ c.published) n) :
    (Scene.clusterizer c).Told past n p :=
  ⟨h.numbered, h.table, hn, hes, fun hc => by cases hc; exact h⟩

/-- Nothing more is told of a store without a clusterizer. -/
theorem of_gone (hp : p.Numbered) (ht : t = p.table) (hn : p.mark.blocks = n) (hes : Counts es n) :
    (Scene.store t : Scene β).Told es n p :=
  ⟨hp, ht, hn, by rwa [published, List.append_nil], nofun⟩

end Scene.Told

/-- A start tells of what the store holds, or of nothing if it fails before there is a pool. -/
theorem Clusterizer.start_told (hp : p.Numbered) (ht : t = p.table) {config : Configuration}
    {faults : Faults} {r : Except (Failure ClusterizerError) Unit}
    (hstart : start config ⟨t, faults, 0⟩ = (r, c)) :
    c.store.table = t ∧
      (c.published = (if r = .ok () then [.restored p.height p.size] else []) ∨
        Pool.workerLimit < config.workers ∧ r = .error (.abort .capacityOverflow) ∧
          c.published = [.restored p.height p.size]) ∧
      (r = .ok () → c.phase = .idle ∧ c.stale = false ∧ Aligned p c) := by
  rcases start_cases (β := β) config ⟨t, faults, 0⟩ with ⟨e, log, heq, -⟩ | ⟨q, -, hload, heq⟩ <;>
    rw [heq] at hstart
  · cases hstart
    exact ⟨rfl, .inl rfl, nofun⟩
  · obtain rfl := hp.load_eq ht hload
    split at hstart <;> rename_i hworkers <;> cases hstart
    · exact ⟨rfl, .inl rfl, fun _ => ⟨rfl, rfl, hp, ht, fun _ => hp.toSound.alike⟩⟩
    · exact ⟨rfl, .inr ⟨Nat.lt_of_not_le hworkers, rfl, rfl⟩, nofun⟩

variable [LawfulBatch β]

/-- A step tells of a checkpoint if the store goes on by a block. -/
theorem Scene.Told.step (h : (Scene.clusterizer c).Told past n p)
    {r : Except (Failure ClusterizerError) Phase} (hstep : step env c = (r, c')) :
    ∃ (m : Nat) (q : Partition), q.Numbered ∧ c'.store.table = q.table ∧ q.mark.blocks = m ∧
      Counts (past ++ c'.published) m ∧ ((∀ a, r ≠ .error (.abort a)) → Aligned q c') := by
  obtain ⟨q, es, hq, htable, hreports, haligned⟩ := (h.aligned rfl).step hstep
  have hcounts : Counts (past ++ c.published) n := h.counts
  rw [hreports.published, ← List.append_assoc]
  rcases hreports.checkpoints with ⟨-, hmark, hnone⟩ | ⟨hblocks, hone⟩
  · exact ⟨n, q, hq, htable, hmark ▸ h.blocks, hcounts.append_of_quiet hnone, haligned⟩
  · rw [h.blocks] at hblocks
    exact ⟨n + 1, q, hq, htable, hblocks, hcounts.append_checkpoint hblocks hone, haligned⟩

theorem Chronicle.told (h : Chronicle past s) : ∃ n p, s.Told past n p := by
  induction h with
  | new => exact ⟨0, .empty, .of_gone Partition.numbered_empty Partition.table_empty.symm rfl rfl⟩
  | started _ hstart ih =>
      obtain ⟨n, p, htold⟩ := ih
      obtain ⟨-, hpublished, hok⟩ := start_told htold.numbered htold.table hstart
      obtain ⟨-, -, haligned⟩ := hok rfl
      refine ⟨n, p, .of_aligned haligned htold.blocks ?_⟩
      rw [hpublished.resolve_right nofun]
      have hcounts := htold.counts
      rw [Scene.published, List.append_nil] at hcounts
      exact hcounts.append_of_quiet rfl
  | refused _ hstart ih =>
      obtain ⟨n, p, htold⟩ := ih
      obtain ⟨htable, hpublished, -⟩ := start_told htold.numbered htold.table hstart
      refine ⟨n, p, .of_gone htold.numbered (htable.trans htold.table) htold.blocks ?_⟩
      have hcounts := htold.counts
      rw [Scene.published, List.append_nil] at hcounts
      refine hcounts.append_of_quiet ?_
      rcases hpublished with hpublished | ⟨-, -, hpublished⟩ <;> rw [hpublished] <;> rfl
  | withFaults _ faults ih =>
      obtain ⟨n, p, htold⟩ := ih
      have haligned := htold.aligned rfl
      exact ⟨n, p, .of_aligned ⟨haligned.numbered, haligned.table, haligned.abreast⟩ htold.blocks htold.counts⟩
  | stepped _ hstep hr ih =>
      obtain ⟨n, p, htold⟩ := ih
      obtain ⟨m, q, -, -, hblocks, hcounts, haligned⟩ := htold.step hstep
      exact ⟨m, q, .of_aligned (haligned hr) hblocks hcounts⟩
  | abandoned _ hstep ih =>
      obtain ⟨n, p, htold⟩ := ih
      obtain ⟨m, q, hq, htable, hblocks, hcounts, -⟩ := htold.step hstep
      exact ⟨m, q, .of_gone hq htable hblocks hcounts⟩
  | exported _ hexport ih =>
      obtain ⟨n, p, htold⟩ := ih
      have haligned := (htold.aligned rfl).exported hexport
      obtain ⟨es, log, rfl, hes⟩ := hexport.leaves
      have hcounts : Counts (_ ++ _) n := htold.counts
      refine ⟨n, p, .of_aligned haligned htold.blocks ?_⟩
      rw [← List.append_assoc]
      have hquiet : es.filterMap Event.checkpoint? = [] :=
        List.filterMap_eq_nil_iff.mpr fun e he => Event.checkpoint?_eq_none (hes e he)
      exact hcounts.append_of_quiet hquiet
  | dropped _ ih =>
      obtain ⟨n, p, htold⟩ := ih
      exact ⟨n, p, .of_gone htold.numbered htold.table htold.blocks htold.counts⟩

namespace Sample

theorem chronicle_stepped {c : Clusterizer Delta} (h : Chronicle past (.clusterizer c)) (phase : Phase)
    (hok : (stepped c).1 = .ok phase) : Chronicle past (.clusterizer (stepped c).2) :=
  (h.withFaults .none).stepped (Prod.ext hok rfl) nofun

theorem chronicle_interrupted (h : Chronicle past (.store ∅ : Scene Delta)) :
    Chronicle past (.clusterizer interrupted) := by
  have hstart : start (.standard 1) ⟨∅, .none, 0⟩ = (.ok (), (started ∅).2) := rfl
  rw [interrupted]
  exact chronicle_stepped (chronicle_stepped (h.started hstart) (.processing .genesis) (by decide +kernel))
    (.checkpointing .genesis) (by decide +kernel)

end Sample

end Cospend
