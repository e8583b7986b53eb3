import Cospend.Proofs.Session.Mirror

/-!
# Finalizing is invisible

Two sessions are paired if the first one finalized and the second one did not, and otherwise they made
the same calls. Their partitions are alike, so that every call answers the same in both, and the store
of the first one shows a partition that is alike as well, although finalizing stages nothing.
-/

namespace Cospend.Session

variable {β : Type} [WriteBatch β] [LawfulBatch β] {s s₀ : Session β} {c : Call}

/-- The sessions differ in the ways to the roots alone. -/
structure Paired (s s₀ : Session β) : Prop where
  kept : s.Kept False
  lost : s.lost = false
  alike : Partition.Alike s.partition s₀.partition
  checkpoint_eq : s.pending.checkpoint = s₀.pending.checkpoint

theorem paired_start : Paired (start : Session β) start :=
  ⟨kept_start, rfl, Partition.numbered_empty.toSound.alike, rfl⟩

namespace Paired

omit [LawfulBatch β] in
theorem numbered (h : Paired s s₀) : s₀.partition.Numbered :=
  h.alike.symm.numbered (h.kept.numbered h.lost)

theorem kept_perform (h : Paired s s₀) (c : Call) : (s.perform c).2.Kept False :=
  h.kept.perform False.elim fun hl => by rw [h.lost] at hl; cases hl

theorem finalize (h : Paired s s₀) (hc : c.isFinalize = true) : Paired (s.perform c).2 s₀ := by
  refine ⟨h.kept_perform c, ?_, ?_, ?_⟩ <;> rw [perform_finalize hc]
  · exact h.lost
  · exact (h.kept.numbered h.lost).finalize.trans h.alike
  · exact h.checkpoint_eq

omit [LawfulBatch β] in
theorem work (h : Paired s s₀) {x : Work β Nat} (hkept : (s.work x).2.Kept False)
    (hx : Workspace.Staged s.workspace (x s.workspace).2)
    (hx₀ : Workspace.Staged s₀.workspace (x s₀.workspace).2)
    (halike : (x s.workspace).1 = (x s₀.workspace).1 ∧
      Partition.Alike (x s.workspace).2.partition (x s₀.workspace).2.partition) :
    (s.work x).1 = (s₀.work x).1 ∧ Paired (s.work x).2 (s₀.work x).2 := by
  constructor
  · rw [Session.work, Session.work, halike.1]
  · refine ⟨hkept, h.lost, halike.2, ?_⟩
    rw [show (s.work x).2.pending.checkpoint = _ from hx.checkpoint_eq, h.checkpoint_eq]
    exact hx₀.checkpoint_eq.symm

/-- A call that both sessions make has the same answer in both. -/
theorem perform (h : Paired s s₀) (hkeeps : c.givesUp = false) (hc : c.isFinalize = false) :
    (s.perform c).1 = (s₀.perform c).1 ∧ Paired (s.perform c).2 (s₀.perform c).2 := by
  have hkept := h.kept_perform c
  have hnum := h.kept.numbered h.lost
  have hnum₀ := h.numbered
  cases c with
  | register a =>
      exact h.work hkept (Workspace.staged_register hnum a) (Workspace.staged_register hnum₀ a)
        (Workspace.register_alike h.alike a)
  | find a =>
      exact h.work hkept (Workspace.staged_find hnum a) (Workspace.staged_find hnum₀ a)
        (Workspace.find_alike_of_alike h.alike hnum₀.toSound a)
  | union a b =>
      exact h.work hkept (Workspace.staged_union hnum a b) (Workspace.staged_union hnum₀ a b)
        (Workspace.union_alike h.alike hnum₀.toSound a b)
  | setHeight height => exact ⟨rfl, hkept, h.lost, h.alike, rfl⟩
  | flush fault =>
      cases fault with
      | none =>
          rw [perform_flush_none] at hkept ⊢
          refine ⟨rfl, hkept, rfl, ?_, rfl⟩
          rw [h.checkpoint_eq]
          exact h.alike.checkpointed _
      | some reason => cases hkeeps
  | finalize => cases hc
  | exportSheet d path => cases hc
  | exportSink sink workers batchSize schedule state => cases hc
  | drop => cases hkeeps
  | restore faults => cases hkeeps

theorem run (h : Paired s s₀) {cs : List Call} (hcs : ∀ c ∈ cs, c.givesUp = false) :
    (s₀.run (cs.filter fun c => !c.isFinalize)).1 = (s.run cs).1.filter (fun e => !e.1.isFinalize) ∧
    Paired (s.run cs).2 (s₀.run (cs.filter fun c => !c.isFinalize)).2 := by
  induction cs generalizing s s₀ with
  | nil => exact ⟨rfl, h⟩
  | cons c cs ih =>
      obtain ⟨hc, hcs⟩ := List.forall_mem_cons.mp hcs
      cases hf : c.isFinalize with
      | true =>
          obtain ⟨htrace, hpaired⟩ := ih (h.finalize hf) hcs
          simp only [Session.run, List.filter_cons, hf, Bool.not_true, Bool.false_eq_true, ↓reduceIte]
          exact ⟨htrace, hpaired⟩
      | false =>
          obtain ⟨hanswer, hnext⟩ := h.perform hc hf
          obtain ⟨htrace, hpaired⟩ := ih hnext hcs
          simp only [Session.run, List.filter_cons, hf, Bool.not_false, ↓reduceIte]
          exact ⟨by rw [hanswer, htrace], hpaired⟩

end Paired

/-- Finalizing and exporting, wherever they are put into a run, change no answer of another call and
nothing of the partition but the ways to the roots. When the batch was written after such a run, the
store can be read back, and the partition read back has the same clusters as the one in memory. -/
theorem run_without_finalize {cs : List Call} (hcs : ∀ c ∈ cs, c.givesUp = false) :
    let full := (start : Session β).run cs
    let plain := (start : Session β).run (cs.filter fun c => !c.isFinalize)
    plain.1 = full.1.filter (fun e => !e.1.isFinalize) ∧
    Partition.Alike full.2.partition plain.2.partition ∧
    (∀ a, full.2.partition.clusterOf a = plain.2.partition.clusterOf a) ∧
    (∀ i, full.2.partition.forest.next i = i ↔ plain.2.partition.forest.next i = i) ∧
    ∀ s', full.2.perform (.flush none) = (.ok none, s') →
      ∃ q, Partition.empty.restore (s'.store.withFaults Faults.none) = (.ok (), q) ∧
        Partition.Alike q s'.partition ∧ ∀ a, q.clusterOf a = s'.partition.clusterOf a := by
  intro full plain
  obtain ⟨htrace, hpaired⟩ := (paired_start (β := β)).run hcs
  refine ⟨htrace, hpaired.alike, hpaired.alike.clusterOf_eq,
    fun i => hpaired.alike.forest.next_eq_self_iff, fun s' hs' => ?_⟩
  have hkept := hpaired.kept.flush hpaired.lost
  rw [show Session.perform _ (.flush none) = _ from hs'] at hkept
  rw [perform_flush_none] at hs'
  cases hs'
  obtain ⟨q, hq, -, hload⟩ := hkept.load rfl rfl
  refine ⟨q, ?_, hq, hq.clusterOf_eq⟩
  simp only [Partition.restore, hload]

theorem run_finalize_between_unions :
    let cs : List Call := [.register ⟨"a"⟩, .register ⟨"b"⟩, .register ⟨"c"⟩, .union ⟨"a"⟩ ⟨"b"⟩,
      .finalize, .union ⟨"c"⟩ ⟨"b"⟩, .finalize, .find ⟨"c"⟩]
    let full := (start : Session Delta).run cs
    let plain := (start : Session Delta).run (cs.filter fun c => !c.isFinalize)
    let s' := (full.2.perform (.flush none)).2
    (∀ c ∈ cs, c.givesUp = false) ∧ plain.1 = full.1.filter (fun e => !e.1.isFinalize) ∧
      ∃ q, Partition.empty.restore (s'.store.withFaults Faults.none) = (.ok (), q) ∧
        ∀ a, q.clusterOf a = s'.partition.clusterOf a := by
  intro cs full plain s'
  have hcs : ∀ c ∈ cs, c.givesUp = false := by simp [cs, Call.givesUp]
  obtain ⟨htrace, -, -, -, hflush⟩ := run_without_finalize (β := Delta) hcs
  obtain ⟨q, hload, -, hq⟩ := hflush s' rfl
  exact ⟨hcs, htrace, q, hload, hq⟩

end Cospend.Session
