import Cospend.Proofs.Clusterizer.Invariant
import Cospend.Proofs.Partition.Oversize

/-!
# What a damaged store comes to

Wherever a clusterizer reads its partition back, it ends with the partition or with an error, whatever the
store holds, except for a size that no array has room for: then the call is abandoned, and so is every later
one.
-/

namespace Cospend.Clusterizer

open Cospend.Partition (capacityLimit)

variable {β : Type} {c c' : Clusterizer β} {s : Store} {a : Abort}

theorem restore_eq_abort :
    restore c = (.error (.abort a), c') ↔ a = .capacityOverflow ∧ c' = c ∧ c.store.Oversize := by
  rw [and_left_comm, ← Partition.load_eq_abort]
  unfold restore Partition.restore
  cases Partition.load c.store with
  | ok q => exact ⟨nofun, nofun⟩
  | error e =>
      cases e with
      | error e => exact ⟨nofun, nofun⟩
      | abort b =>
          constructor
          · intro h
            cases h
            exact ⟨rfl, rfl⟩
          · rintro ⟨rfl, h⟩
            cases h
            rfl

theorem recover_eq_abort : recover c = (.error (.abort a), c') ↔
    a = .capacityOverflow ∧ c' = c ∧ c.stale = true ∧ c.store.Oversize := by
  cases hstale : c.stale with
  | false =>
      rw [recover_of_not_stale hstale]
      exact ⟨nofun, nofun⟩
  | true =>
      simp only [true_and]
      rw [← restore_eq_abort, recover_of_stale hstale]
      rcases hrestore : restore c with ⟨e | u, d⟩
      · rw [bind_of_error hrestore]
      · rw [bind_of_ok hrestore]
        exact ⟨nofun, nofun⟩

theorem start_eq_abort {config : Configuration} :
    (start config s : _ × Clusterizer β).1 = .error (.abort a) ↔
      a = .capacityOverflow ∧ (capacityLimit ≤ config.capacity ∨ s.Oversize ∨
        Pool.workerLimit < config.workers ∧ ∃ q, Partition.load s = .ok q) := by
  have hload : Partition.load s = .error (.abort a) ↔ a = .capacityOverflow ∧ s.Oversize :=
    Partition.load_eq_abort
  rcases start_cases (β := β) config s with
    ⟨e, log, hstart, ⟨hroom, rfl⟩ | ⟨hroom, e', hread, rfl⟩⟩ | ⟨q, hroom, hread, hstart⟩ <;>
    rw [hstart]
  · constructor
    · rintro ⟨⟩
      exact ⟨rfl, .inl hroom⟩
    · rintro ⟨rfl, -⟩
      rfl
  · constructor
    · intro h
      cases e' <;> cases h
      exact (hload.mp hread).imp_right fun hover => .inr (.inl hover)
    · rintro ⟨rfl, hcapacity | hover | ⟨-, q, hok⟩⟩
      · exact absurd hcapacity (Nat.not_le_of_lt hroom)
      · cases hread.symm.trans (hload.mpr ⟨rfl, hover⟩)
        rfl
      · cases hread.symm.trans hok
  · split <;> rename_i hworkers
    · refine ⟨nofun, ?_⟩
      rintro ⟨rfl, hcapacity | hover | ⟨hlimit, -⟩⟩
      · exact absurd hcapacity (Nat.not_le_of_lt hroom)
      · cases hread.symm.trans (hload.mpr ⟨rfl, hover⟩)
      · exact absurd hworkers (Nat.not_le_of_lt hlimit)
    · constructor
      · rintro ⟨⟩
        exact ⟨rfl, .inr (.inr ⟨Nat.lt_of_not_le hworkers, q, hread⟩)⟩
      · rintro ⟨rfl, -⟩
        rfl

variable [WriteBatch β]

theorem step_of_recover_abort {env : Environment} (hphase : c.phase = .idle)
    (h : recover c = (.error (.abort a), c')) : step env c = (.error (.abort a), c') := by
  have hresume : resume env c = (.error (.abort a), c') := bind_of_error h
  simp only [step, hphase, transition, hresume]

/-- Whatever the store holds, reading a partition back from it, starting over it and recovering from a failed
step end with an answer or with an error, unless the stored size is one that no array has room for. With such
a size each of them is abandoned and changes nothing, so a step that has to recover never gets any further. A
start is abandoned as well if it is to make room for too many addresses at first, or for too many workers after
the partition was read back. -/
theorem abandoned_iff_oversize (s : Store) (p : Partition) (config : Configuration) (c : Clusterizer β) :
    (∀ a, (p.restore s).1 = .error (.abort a) ↔ a = .capacityOverflow ∧ s.Oversize) ∧
    (s.Oversize → p.restore s = (.error (.abort .capacityOverflow), p)) ∧
    (∀ a, (start config s : _ × Clusterizer β).1 = .error (.abort a) ↔
      a = .capacityOverflow ∧ (capacityLimit ≤ config.capacity ∨ s.Oversize ∨
        Pool.workerLimit < config.workers ∧ ∃ q, Partition.load s = .ok q)) ∧
    (∀ a c', recover c = (.error (.abort a), c') ↔
      a = .capacityOverflow ∧ c' = c ∧ c.stale = true ∧ c.store.Oversize) ∧
    (c.phase = .idle → c.stale = true → c.store.Oversize →
      ∀ env, step env c = (.error (.abort .capacityOverflow), c)) := by
  refine ⟨fun a => Partition.restore_eq_abort, fun h => ?_, fun a => start_eq_abort,
    fun a c' => recover_eq_abort, fun hphase hstale h env => ?_⟩
  · rw [Partition.restore, Partition.load_eq_abort.mpr ⟨rfl, h⟩]
  · exact step_of_recover_abort hphase (recover_eq_abort.mpr ⟨rfl, rfl, hstale, h⟩)

/-- Nothing but a size. -/
def sizedStore (n : UInt64) : Store :=
  ⟨Table.changeAll ∅ [.set Variable.size.key (Variable.encode .size n)], .none, 0⟩

/-- No array has room for `capacityLimit` numbers. One number less is an error like any other. -/
theorem abandoned_iff_oversize_sized :
    (start (.standard 1) (sizedStore 0x1000000000000000) : _ × Clusterizer Delta).1 =
        .error (.abort .capacityOverflow) ∧
      ∀ a, (start (.standard 1) (sizedStore 0xFFFFFFFFFFFFFFF) : _ × Clusterizer Delta).1 ≠
        .error (.abort a) := by
  have hsmall : (sizedStore 0xFFFFFFFFFFFFFFF).read .size = .ok (some 0xFFFFFFFFFFFFFFF) := by rfl
  have hover : (sizedStore 0x1000000000000000).Oversize :=
    ⟨⟨none, by rfl⟩, 0x1000000000000000, by rfl, by decide⟩
  have hstart := fun n a => (abandoned_iff_oversize (sizedStore n) .empty (.standard 1)
    (fresh (sizedStore n) : Clusterizer Delta)).2.2.1 a
  refine ⟨(hstart _ _).mpr ⟨rfl, .inr (.inl hover)⟩, fun a ha => ?_⟩
  obtain ⟨-, hcapacity | hover | ⟨hworkers, -⟩⟩ := (hstart _ _).mp ha
  · exact absurd hcapacity (by decide)
  · obtain ⟨n, hn, hle⟩ := hover.size
    rw [hsmall] at hn
    cases hn
    exact absurd hle (by decide)
  · exact absurd hworkers (by decide)

/-- A damaged size is not always reported as an error. -/
theorem restore_gives_up_on_size :
    (∀ e q, Partition.empty.restore (sizedStore 0x1000000000000000) ≠ (.error (.error e), q)) ∧
      (∀ q, Partition.empty.restore (sizedStore 0x1000000000000000) ≠ (.ok (), q)) ∧
      Partition.empty.restore (sizedStore 0x1000000000000000) =
        (.error (.abort .capacityOverflow), .empty) := by
  have hrestore : Partition.empty.restore (sizedStore 0x1000000000000000) =
      (.error (.abort .capacityOverflow), .empty) := by rfl
  refine ⟨fun e q h => ?_, fun q h => ?_, hrestore⟩ <;> rw [hrestore] at h <;> cases h

end Cospend.Clusterizer
