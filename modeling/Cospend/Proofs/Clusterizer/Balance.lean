import Cospend.Proofs.Clusterizer.Chronicle
import Cospend.Proofs.Partition.Room

/-!
# Stores hold balanced partitions

Whatever failed before, what a store holds came about by registering and merging alone, and ways that were
shortened in memory do not count. So it is balanced.
-/

namespace Cospend

variable {β : Type} [WriteBatch β] {p q : Partition} {s : Scene β} {past : List Event}

namespace Clusterizer

variable {c c' d : Clusterizer β} {env : Environment} {r : Except (Failure ClusterizerError) Phase}
variable {height : Height}

/-- The store holds a balanced partition, and the one that comes next is balanced as well. -/
structure Weighted (p : Partition) (c : Clusterizer β) : Prop extends Aligned p c where
  balanced : p.forest.Balanced
  ahead {height : Height} (hphase : c.phase = .checkpointing height) : c.partition.forest.Balanced

theorem Weighted.of_idle (h : Aligned p c) (hp : p.forest.Balanced) (hphase : c.phase = .idle) :
    Weighted p c :=
  ⟨h, hp, fun hphase' => by rw [hphase] at hphase'; cases hphase'⟩

theorem Weighted.exported (h : Weighted p c) (hexport : Exports c c') : Weighted p c' := by
  refine ⟨h.toAligned.exported hexport, h.balanced, ?_⟩
  obtain ⟨es, log, rfl, -⟩ := hexport.leaves
  intro height hphase
  have habreast := h.abreast
  rw [Abreast, hphase] at habreast
  obtain ⟨-, -, b, q, -, hq, halike, -⟩ := habreast
  have hsound := halike.symm.sound hq.toSound
  exact (h.ahead hphase).of_alike hsound.forest.flatten

/-- A checkpoint comes next only after its block was processed. -/
theorem step_checkpointing (hstep : step env c = (r, c')) (hr : ∀ a, r ≠ .error (.abort a))
    (hphase' : c'.phase = .checkpointing height) : c.phase = .processing height ∧
      ∃ d, processBlock env height c = (.ok (), d) ∧ c'.partition = d.partition := by
  rcases r with (e | a) | phase
  · rw [(step_of_error hstep).1] at hphase'
    cases hphase'
  · exact absurd rfl (hr a)
  · obtain ⟨hphase, hcases⟩ := step_ok_cases hstep
    rw [hphase] at hphase'
    subst hphase'
    rcases hcases with hdone | ⟨next, hnext⟩ | ⟨height', d, hbefore, hsame, hprocess, hpartition⟩
    · cases hdone
    · cases hnext
    · cases hsame
      exact ⟨hbefore, d, hprocess, hpartition⟩

variable [LawfulBatch β]

/-- What the store holds after a transition is what it held before, or the partition in memory. -/
theorem Weighted.written (h : Weighted p c) (hq : q.Numbered)
    (ht : (transition env c.phase c).2.store.table = q.table) : q.forest.Balanced := by
  have hkept (ht' : (transition env c.phase c).2.store.table = p.table) : q.forest.Balanced :=
    h.numbered.table_inj hq (ht'.symm.trans ht) ▸ h.balanced
  cases hphase : c.phase with
  | idle =>
      obtain ⟨es, hes⟩ := h.resume_recounts env hphase
      exact hkept (hphase ▸ hes.table)
  | processing height =>
      obtain ⟨es, hes⟩ := h.processing_recounts env hphase
      exact hkept (hphase ▸ hes.table)
  | done => exact hkept (hphase ▸ h.table)
  | checkpointing height =>
      have habreast := h.abreast
      rw [Abreast, hphase] at habreast
      obtain ⟨-, -, b, q', hpending, hq', halike, hleads⟩ := habreast
      have hend := checkpoint_cases height hpending (h.table ▸ hleads)
      rcases hend with ⟨e, store, log, heq, htable⟩ | ⟨store, writes, heq, htable⟩
      · refine hkept ?_
        rw [hphase, transition, bind_of_error heq]
        exact htable.trans h.table
      · rw [hphase, transition, bind_of_ok heq, (phaseAfter_still env _ _).store_eq] at ht
        rw [hq.table_inj (hq'.checkpointed _) (ht.symm.trans htable)]
        exact (h.ahead hphase).of_alike halike.forest

theorem Weighted.step (h : Weighted p c) (hstep : step env c = (r, c')) :
    ∃ q, q.Numbered ∧ q.forest.Balanced ∧ c'.store.table = q.table ∧
      ((∀ a, r ≠ .error (.abort a)) → Weighted q c') := by
  obtain ⟨q, es, hq, htable, -, haligned⟩ := h.toAligned.step hstep
  have hstore : (transition env c.phase c).2.store = c'.store := by
    unfold Clusterizer.step at hstep
    rcases htransition : transition env c.phase c with ⟨(e | a) | phase, d⟩ <;>
      rw [htransition] at hstep <;> cases hstep <;> rfl
  have hbalanced : q.forest.Balanced := h.written hq (hstore ▸ htable)
  refine ⟨q, hq, hbalanced, htable, fun hr => ⟨haligned hr, hbalanced, fun hphase' => ?_⟩⟩
  obtain ⟨hphase, d, hprocess, hpartition⟩ := step_checkpointing hstep hr hphase'
  have habreast := h.abreast
  rw [Abreast, hphase] at habreast
  obtain ⟨-, halike, -⟩ := habreast
  have hsound := halike.sound h.numbered.toSound
  obtain ⟨b, -, hedits⟩ := edits_processBlock hsound hprocess
  rw [hpartition]
  exact hedits.balanced hsound (h.balanced.of_alike halike.forest)

end Clusterizer

open Clusterizer

namespace Scene

/-- The store holds a balanced partition, and the clusterizer over it, if there is one, goes with it. -/
structure Weighted (p : Partition) (s : Scene β) : Prop where
  numbered : p.Numbered
  balanced : p.forest.Balanced
  table : s.table = p.table
  clusterizer {c : Clusterizer β} (h : s = .clusterizer c) : Clusterizer.Weighted p c

theorem Weighted.there {c : Clusterizer β} (h : Clusterizer.Weighted p c) :
    (Scene.clusterizer c).Weighted p :=
  ⟨h.numbered, h.balanced, h.table, fun hc => by cases hc; exact h⟩

theorem Weighted.gone {t : Table} (hp : p.Numbered) (hbalanced : p.forest.Balanced)
    (ht : t = p.table) : (Scene.store t : Scene β).Weighted p :=
  ⟨hp, hbalanced, ht, nofun⟩

end Scene

theorem Chronicle.weighted [LawfulBatch β] (h : Chronicle past s) : ∃ p, s.Weighted p := by
  induction h with
  | new => exact ⟨.empty, .gone Partition.numbered_empty Forest.balanced_empty Partition.table_empty.symm⟩
  | started _ hstart ih =>
      obtain ⟨p, hp⟩ := ih
      obtain ⟨-, -, hok⟩ := start_told hp.numbered hp.table hstart
      obtain ⟨hphase, -, haligned⟩ := hok rfl
      exact ⟨p, .there (.of_idle haligned hp.balanced hphase)⟩
  | refused _ hstart ih =>
      obtain ⟨p, hp⟩ := ih
      obtain ⟨hkept, -⟩ := start_told hp.numbered hp.table hstart
      exact ⟨p, .gone hp.numbered hp.balanced (hkept.trans hp.table)⟩
  | withFaults _ faults ih =>
      obtain ⟨p, hp⟩ := ih
      have hc := hp.clusterizer rfl
      exact ⟨p, .there ⟨⟨hc.numbered, hc.table, hc.abreast⟩, hc.balanced, hc.ahead⟩⟩
  | stepped _ hstep hr ih =>
      obtain ⟨p, hp⟩ := ih
      obtain ⟨q, -, -, -, hq⟩ := (hp.clusterizer rfl).step hstep
      exact ⟨q, .there (hq hr)⟩
  | abandoned _ hstep ih =>
      obtain ⟨p, hp⟩ := ih
      obtain ⟨q, hq, hbalanced, htable, -⟩ := (hp.clusterizer rfl).step hstep
      exact ⟨q, .gone hq hbalanced htable⟩
  | exported _ hexport ih =>
      obtain ⟨p, hp⟩ := ih
      exact ⟨p, .there ((hp.clusterizer rfl).exported hexport)⟩
  | dropped _ ih =>
      obtain ⟨p, hp⟩ := ih
      exact ⟨p, .gone hp.numbered hp.balanced hp.table⟩

end Cospend
