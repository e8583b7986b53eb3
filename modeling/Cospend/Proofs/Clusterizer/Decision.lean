import Cospend.Proofs.Clusterizer.Driver

/-!
# What comes after a checkpoint

With a checkpoint behind it and the tip known, a step goes on to the next height or the walk is over. The next
height is computed before it is compared with the tip, and the greatest height has none.
-/

namespace Cospend.Clusterizer

variable {β : Type} {c d : Clusterizer β} {env : Environment} {h tip next : Height}
variable {last : Option Height} {s : Store}

/-! ## The height after a checkpoint -/

theorem heightAfter_of_lt (hh : h.toInt < 0x7FFFFFFF) :
    ∃ next, heightAfter (some h) = .ok next ∧ next.toInt = h.toInt + 1 := by
  have hlow := h.le_toInt
  let next : Height := ⟨h.toInt + 1, by omega, by omega⟩
  have hnext : h.next? = some next := Chain.ofInt?_eq_some.mpr rfl
  refine ⟨next, ?_, rfl⟩
  simp only [heightAfter, hnext]

theorem heightAfter_of_max (hh : h.toInt = 0x7FFFFFFF) :
    heightAfter (some h) = .error .addOverflow := by
  have hnext : h.next? = none := by simp [Height.next?, Height.add?, Height.ofInt?, hh]
  simp only [heightAfter, hnext]

/-! ## The phase after a checkpoint -/

theorem asked_of_ok {α : Type} {what : String} (a : α) : asked what (.ok a) c = (.ok a, c) := rfl

theorem phaseAfter_of_error {a : Abort} (hnext : heightAfter last = .error a) :
    phaseAfter env last c = (.error (.abort a), c) := by
  simp only [phaseAfter, hnext]
  rfl

/-- With the next height and the tip known, the walk goes on or has arrived. -/
theorem phaseAfter_of_ok (hnext : heightAfter last = .ok next)
    (htip : env.ledger.tip last = .ok tip) : phaseAfter env last c =
      if next ≤ tip then (.ok (.processing next), c)
      else (.ok .done, { c with published := c.published ++ [.caughtUp last] }) := by
  simp only [phaseAfter, hnext, htip]
  rw [bind_of_ok (asked_of_ok tip)]
  split <;> rfl

/-- What may come after the checkpoint at `h` while the tip is at `tip`. -/
inductive Decides (h tip : Height) : Except (Failure ClusterizerError) Phase → Prop
  | onward {next : Height} (hlt : h < tip) (hnext : next.toInt = h.toInt + 1) :
    Decides h tip (.ok (.processing next))
  | arrived (hle : tip ≤ h) (hh : h.toInt < 0x7FFFFFFF) : Decides h tip (.ok .done)
  | abandoned (hh : h.toInt = 0x7FFFFFFF) : Decides h tip (.error (.abort .addOverflow))

theorem phaseAfter_decides (htip : env.ledger.tip (some h) = .ok tip) (c : Clusterizer β) :
    Decides h tip (phaseAfter env (some h) c).1 := by
  have hmax := h.toInt_lt
  by_cases hh : h.toInt < 0x7FFFFFFF
  · obtain ⟨next, hnext, hlevel⟩ := heightAfter_of_lt hh
    have hiff : next ≤ tip ↔ h < tip := by
      change next.toInt ≤ tip.toInt ↔ h.toInt < tip.toInt
      omega
    rw [phaseAfter_of_ok hnext htip]
    split
    · rename_i hle
      exact .onward (hiff.mp hle) hlevel
    · rename_i hnot
      exact .arrived (Int.not_lt.mp fun hlt => hnot (hiff.mpr hlt)) hh
  · have hh : h.toInt = 0x7FFFFFFF := by omega
    rw [phaseAfter_of_error (heightAfter_of_max hh)]
    exact .abandoned hh

/-! ## Steps from a checkpoint -/

theorem read_height_of_load {q : Partition} (hload : Partition.load s = .ok q) :
    s.read .height = .ok q.height :=
  (Partition.load_eq_ok.mp hload).height

variable [WriteBatch β]

/-- The last checkpoint is at `h`: it is in memory, or the store has it to be read back, or it is about to be
written and the write will not fail. -/
inductive AtCheckpoint (h : Height) (c : Clusterizer β) : Prop
  | held (hphase : c.phase = .idle) (hstale : c.stale = false) (hheight : c.partition.height = some h)
  | stored {q : Partition} (hphase : c.phase = .idle) (hstale : c.stale = true)
    (hload : Partition.load c.store = .ok q) (hread : c.store.read .height = .ok (some h))
  | pending (hphase : c.phase = .checkpointing h) (hwrite : c.store.faults.write c.store.writes = none)

omit [WriteBatch β] in
theorem AtCheckpoint.of_start {config : Configuration}
    (hstart : (start config s : _ × Clusterizer β).1 = .ok ())
    (hread : s.read .height = .ok (some h)) : AtCheckpoint h (start config s : _ × Clusterizer β).2 := by
  rcases hc : (start config s : _ × Clusterizer β) with ⟨r, c⟩
  rw [hc] at hstart
  cases hstart
  obtain ⟨q, hload, rfl⟩ := start_of_ok hc
  exact .held rfl rfl (Except.ok.inj ((read_height_of_load hload).symm.trans hread))

theorem flush_of_write (height : Height) (b : Pending β)
    (hwrite : c.store.faults.write c.store.writes = none) : flush height b c = (.ok (), { c with
      partition := c.partition.checkpointed b.checkpoint
      store := { c.store with
        table := WriteBatch.applyTo b.writes c.store.table, writes := c.store.writes + 1 } }) := by
  simp only [flush, Partition.flush, Store.write, hwrite]
  rfl

/-- A write that does not fail makes the checkpoint. -/
theorem checkpoint_of_write (height : Height) (hwrite : c.store.faults.write c.store.writes = none) :
    let b := (c.pending.getD .empty).stage .height height
    checkpoint height c = (.ok (), { c with
      partition := c.partition.checkpointed (some height)
      store := { c.store with
        table := WriteBatch.applyTo b.writes c.store.table, writes := c.store.writes + 1 }
      pending := none
      published := c.published ++ [.checkpointed height c.partition.size b.size] }) := by
  intro b
  have hflush := flush_of_write (c := { c with pending := none }) height b hwrite
  rw [checkpoint_eq, bind_of_ok hflush]
  rfl

variable [LawfulBatch β]

/-- A table that a checkpoint was written to has its height. -/
theorem read_height_of_stage {t : Table} {b : Pending β} {s : Store} (hf : s.faults = .none)
    (ht : s.table = WriteBatch.applyTo (b.stage .height h).writes t) :
    s.read .height = .ok (some h) := by
  rw [Store.read_eq_ok, hf, Table.look_eq_some_iff, ht]
  refine ⟨rfl, _, ?_, Variable.decode_encode .height h⟩
  rw [Pending.stage, LawfulBatch.applyTo_record, Table.change_set, getElem?_insert_eq]

/-- The checkpoint, with memory and the store as the decision on the next phase finds them. -/
structure Reached (h : Height) (c d : Clusterizer β) : Prop where
  phase_eq : d.phase = c.phase
  height_eq : d.partition.height = some h
  kept (hphase : c.phase = .idle) : d.store = c.store
  written (hphase : c.phase = .checkpointing h) :
    (d.store.withFaults .none).read .height = .ok (some h)

omit [WriteBatch β] [LawfulBatch β] in
theorem AtCheckpoint.recover_ok (hc : AtCheckpoint h c) (hphase : c.phase = .idle) :
    ∃ d, recover c = (.ok (), d) ∧ Reached h c d := by
  have hpending : c.phase ≠ .checkpointing h := by rw [hphase]; nofun
  cases hc with
  | held _ hstale hheight =>
      refine ⟨c, recover_of_not_stale hstale, rfl, hheight, fun _ => rfl, fun hphase' => ?_⟩
      exact absurd hphase' hpending
  | @stored q _ hstale hload hread =>
      have hheight : q.height = some h :=
        Except.ok.inj ((read_height_of_load hload).symm.trans hread)
      obtain ⟨log, hrecover⟩ := recover_of_ok hstale hload
      refine ⟨_, hrecover, ?_⟩
      exact ⟨rfl, hheight, fun _ => rfl, fun hphase' => absurd hphase' hpending⟩
  | pending hphase' _ => exact absurd hphase' hpending

theorem checkpoint_reached (hwrite : c.store.faults.write c.store.writes = none)
    (hphase : c.phase ≠ .idle) : ∃ d, checkpoint h c = (.ok (), d) ∧ Reached h c d := by
  refine ⟨_, checkpoint_of_write h hwrite, ?_⟩
  exact ⟨rfl, rfl, fun hidle => absurd hidle hphase, fun _ => read_height_of_stage rfl rfl⟩

/-- A step from a checkpoint comes to the decision on the next phase. -/
theorem AtCheckpoint.transition_eq (hc : AtCheckpoint h c) (env : Environment) :
    ∃ d, transition env c.phase c = phaseAfter env (some h) d ∧ Reached h c d := by
  by_cases hidle : c.phase = .idle
  · obtain ⟨d, hrecover, hreached⟩ := hc.recover_ok hidle
    refine ⟨d, ?_, hreached⟩
    rw [hidle, transition, resume, bind_of_ok hrecover, bind_get, hreached.height_eq]
  · cases hc with
    | held hphase => exact absurd hphase hidle
    | stored hphase => exact absurd hphase hidle
    | pending hphase hwrite =>
        obtain ⟨d, hcheckpoint, hreached⟩ := checkpoint_reached hwrite hidle
        refine ⟨d, ?_, hreached⟩
        rw [hphase, transition, bind_of_ok hcheckpoint]

/-- Whatever the last checkpoint and the tip are, a step from the checkpoint goes on to the next height if that
is not above the tip. Else the walk is over, except at the greatest height: there the step is abandoned in
computing the next one, whatever the tip is. The checkpoint stands in any case. If it was to be written it was,
and nothing else writes to the store. -/
theorem AtCheckpoint.step_decides (hc : AtCheckpoint h c) (htip : env.ledger.tip (some h) = .ok tip)
    {r : Except (Failure ClusterizerError) Phase} {c' : Clusterizer β} (hstep : step env c = (r, c')) :
    (h < tip → ∃ next, next.toInt = h.toInt + 1 ∧ r = .ok (.processing next)) ∧
    (tip ≤ h → h.toInt < 0x7FFFFFFF → r = .ok .done) ∧
    (h.toInt = 0x7FFFFFFF → r = .error (.abort .addOverflow) ∧ c'.phase = c.phase) ∧
    (∀ phase, r = .ok phase → c'.phase = phase) ∧
    c'.partition.height = some h ∧
    (c.phase = .idle → c'.store = c.store) ∧
    (c.phase = .checkpointing h → (c'.store.withFaults .none).read .height = .ok (some h)) := by
  obtain ⟨d, htransition, hreached⟩ := hc.transition_eq env
  have hdecides := phaseAfter_decides htip d
  have hstill := phaseAfter_still env (some h) d
  rw [step, htransition] at hstep
  rcases hresult : phaseAfter env (some h) d with ⟨r', d'⟩
  rw [hresult] at hstep hdecides hstill
  have hmax := tip.toInt_lt
  -- nothing but the phase and the events may differ from where the decision was made
  have hheight : d'.partition.height = some h := hstill.partition_eq ▸ hreached.height_eq
  have hkept : c.phase = .idle → d'.store = c.store := fun hidle =>
    hstill.store_eq.trans (hreached.kept hidle)
  have hwritten : c.phase = .checkpointing h → (d'.store.withFaults .none).read .height = .ok (some h) :=
    fun hphase => hstill.store_eq ▸ hreached.written hphase
  change (h.toInt < tip.toInt → _) ∧ (tip.toInt ≤ h.toInt → _) ∧ _
  cases hdecides with
  | @onward next hlt hnext =>
      cases hstep
      have hlt : h.toInt < tip.toInt := hlt
      refine ⟨fun _ => ⟨next, hnext, rfl⟩, by omega, by omega, fun phase hr => ?_, hheight, hkept, hwritten⟩
      exact Except.ok.inj hr
  | arrived hle hh =>
      cases hstep
      have hle : tip.toInt ≤ h.toInt := hle
      refine ⟨by omega, fun _ _ => rfl, by omega, fun phase hr => ?_, hheight, hkept, hwritten⟩
      exact Except.ok.inj hr
  | abandoned hh =>
      cases hstep
      refine ⟨by omega, by omega, fun _ => ⟨rfl, ?_⟩, fun phase hr => ?_, hheight, hkept, hwritten⟩
      · exact hstill.phase_eq.trans hreached.phase_eq
      · cases hr

/-! ## At both ends -/

namespace Ends

/-- Nothing but a height. -/
def heightStore (h : Height) : Store :=
  ⟨Table.changeAll ∅ [.set Variable.height.key (Variable.encode .height h)], .none, 0⟩

def least : Height where
  toInt := -0x80000000

def greatest : Height where
  toInt := 0x7FFFFFFF

def startedAt (h : Height) : Except (Failure ClusterizerError) Unit × Clusterizer Delta :=
  start (.standard 1) (heightStore h)

theorem atCheckpoint_startedAt (hstart : (startedAt h).1 = .ok ())
    (hread : (heightStore h).read .height = .ok (some h)) : AtCheckpoint h (startedAt h).2 :=
  .of_start hstart hread

/-- The sample chain up to a tip. -/
def upTo (tip : Height) : Environment := .sequential (Sample.sample.ledger tip) 2

theorem tip_upTo (tip : Height) (last : Option Height) : (upTo tip).ledger.tip last = .ok tip := rfl

def stepped (tip : Height) (c : Clusterizer Delta) :
    Except (Failure ClusterizerError) Phase × Clusterizer Delta :=
  step (upTo tip) c

theorem step_upTo (tip : Height) (c : Clusterizer Delta) :
    step (upTo tip) c = ((stepped tip c).1, (stepped tip c).2) := rfl

end Ends

open Ends Sample in
/-- The least height is followed by the next one, a checkpoint at the tip by nothing, and a checkpoint at the
greatest height by no step at all. -/
theorem AtCheckpoint.step_decides_at_both_ends :
    (Ends.stepped .genesis (startedAt least).2).1 = .ok (.processing ⟨-0x7FFFFFFF, by decide, by decide⟩) ∧
      (Ends.stepped .genesis interrupted).1 = .ok .done ∧
      ((Ends.stepped .genesis interrupted).2.store.withFaults .none).read .height = .ok (some .genesis) ∧
      (Ends.stepped greatest (startedAt greatest).2).1 = .error (.abort .addOverflow) := by
  have hleast : AtCheckpoint least (startedAt least).2 :=
    atCheckpoint_startedAt (by decide +kernel) (by decide +kernel)
  have hgreatest : AtCheckpoint greatest (startedAt greatest).2 :=
    atCheckpoint_startedAt (by decide +kernel) (by decide +kernel)
  have hphase : interrupted.phase = .checkpointing .genesis := by decide +kernel
  have hinterrupted : AtCheckpoint .genesis interrupted := .pending hphase (by decide +kernel)
  obtain ⟨honward, -⟩ := hleast.step_decides (tip_upTo .genesis _) (step_upTo _ _)
  obtain ⟨-, harrived, -, -, -, -, hwritten⟩ :=
    hinterrupted.step_decides (tip_upTo .genesis _) (step_upTo _ _)
  obtain ⟨-, -, habandoned, -⟩ := hgreatest.step_decides (tip_upTo greatest _) (step_upTo _ _)
  obtain ⟨next, hnext, hr⟩ := honward (by decide)
  have hhigh : greatest.toInt = 0x7FFFFFFF := by decide
  refine ⟨hr.trans ?_, harrived (Int.le_refl _) (by decide), hwritten hphase, (habandoned hhigh).1⟩
  rw [Height.ext (h := ⟨-0x7FFFFFFF, by decide, by decide⟩) hnext]

open Ends in
/-- At the greatest height the tip is reached, and the step does not end the walk. -/
theorem step_abandoned_at_greatest :
    (startedAt greatest).1 = .ok () ∧ (startedAt greatest).2.phase = .idle ∧
      (startedAt greatest).2.partition.height = some greatest ∧
      (upTo greatest).ledger.tip (some greatest) = .ok greatest ∧ greatest ≤ greatest ∧
      (Ends.stepped greatest (startedAt greatest).2).1 ≠ .ok .done ∧
      (Ends.stepped greatest (startedAt greatest).2).1 = .error (.abort .addOverflow) := by
  have hstep : (Ends.stepped greatest (startedAt greatest).2).1 = .error (.abort .addOverflow) := by decide +kernel
  refine ⟨by decide +kernel, by decide +kernel, by decide +kernel, rfl, by decide, fun hdone => ?_, hstep⟩
  rw [hstep] at hdone
  cases hdone

end Cospend.Clusterizer
