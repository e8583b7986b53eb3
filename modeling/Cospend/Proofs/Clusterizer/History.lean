import Cospend.Proofs.Clusterizer.Invariant

/-!
# Histories of a store

Over one store clusterizers come and go. Each is started, makes steps or whole runs while the ledger and
the store fail in any way, and is given up at some point, at the latest when it abandons a call.
-/

namespace Cospend

/-- What there is between two calls. -/
inductive Scene (β : Type) where
  | store (t : Table)
  | clusterizer (c : Clusterizer β)

namespace Scene

variable {β α : Type}

/-- What the store holds. -/
def table : Scene β → Table
  | .store t => t
  | .clusterizer c => c.store.table

/-- A clusterizer outlives its calls, those that fail as well, unless it abandons one. -/
def ofCall : Except (Failure ClusterizerError) α × Clusterizer β → Scene β
  | (.error (.abort _), c) => .store c.store.table
  | (_, c) => .clusterizer c

/-- A clusterizer comes about only by a start that succeeds. -/
def ofStart : Except (Failure ClusterizerError) Unit × Clusterizer β → Scene β
  | (.ok (), c) => .clusterizer c
  | (.error _, c) => .store c.store.table

theorem ofCall_of_ok {r : Except (Failure ClusterizerError) α × Clusterizer β} {a : α}
    (h : r.1 = .ok a) : ofCall r = .clusterizer r.2 := by
  obtain ⟨_, c⟩ := r
  cases h
  rfl

theorem ofStart_of_ok {r : Except (Failure ClusterizerError) Unit × Clusterizer β} (h : r.1 = .ok ()) :
    ofStart r = .clusterizer r.2 := by
  obtain ⟨_, c⟩ := r
  cases h
  rfl

end Scene

open Clusterizer

variable {β α : Type} [WriteBatch β] {chain : Chain} {c : Clusterizer β} {env : Environment}
variable {n : Nat} {p : Partition} {s : Scene β}

/-- What may come about over an empty store, with ledgers that tell of one chain. The calls of the ledger
and of the store may fail otherwise from one call to the next. -/
inductive History (chain : Chain) : Scene β → Prop
  | new : History chain (.store ∅)
  | start {t : Table} (h : History chain (.store t : Scene β)) (config : Configuration)
    (faults : Faults) : History chain (.ofStart (Clusterizer.start config ⟨t, faults, 0⟩))
  | step {c : Clusterizer β} (h : History chain (.clusterizer c)) (faults : Faults)
    {env : Environment} (htells : env.ledger.Tells chain) :
    History chain (.ofCall (step env { c with store := c.store.withFaults faults }))
  | run {c : Clusterizer β} (h : History chain (.clusterizer c)) (faults : Faults)
    {env : Environment} (htells : env.ledger.Tells chain) :
    History chain (.ofCall (run env { c with store := c.store.withFaults faults }))
  | drop {s : Scene β} (h : History chain s) : History chain (.store s.table)

/-- After `n` blocks the store holds `p`, and the clusterizer, if there is one, is on its way. -/
def Scene.Stands (chain : Chain) (n : Nat) (p : Partition) : Scene β → Prop
  | .store t => Holds chain n p t
  | .clusterizer c => OnWay chain n p c

theorem Scene.Stands.holds (h : s.Stands chain n p) : Holds chain n p s.table := by
  cases s with
  | store t => exact h
  | clusterizer c => exact h.holds

namespace Clusterizer

variable [LawfulBatch β]

omit [LawfulBatch β] in
theorem OnWay.withFaults (h : OnWay chain n p c) (faults : Faults) :
    OnWay chain n p { c with store := c.store.withFaults faults } :=
  ⟨h.holds, h.goes⟩

/-- Every step leads on its way after the same blocks or after one more. -/
theorem OnWay.step (htells : env.ledger.Tells chain) (h : OnWay chain n p c) :
    ∃ m q, (m = n ∨ m = n + 1) ∧ (Scene.ofCall (step env c)).Stands chain m q := by
  obtain ⟨m, q, hm, hlands⟩ := transition_lands htells h
  refine ⟨m, q, hm, ?_⟩
  unfold Clusterizer.step
  rcases htransition : transition env c.phase c with ⟨(e | a) | phase, c'⟩
  · rw [htransition] at hlands
    exact ⟨hlands.holds, hlands.error rfl⟩
  · rw [htransition] at hlands
    exact hlands.holds
  · rw [htransition] at hlands
    exact ⟨hlands.holds, hlands.ok rfl⟩

/-- So does every run, after any number of blocks more. -/
theorem OnWay.runFor (htells : env.ledger.Tells chain) (h : OnWay chain n p c) (steps : Nat) :
    ∃ m q, n ≤ m ∧ (Scene.ofCall (runFor env steps c)).Stands chain m q := by
  induction steps generalizing n p c with
  | zero => exact ⟨n, p, Nat.le_refl n, h⟩
  | succ steps ih =>
      obtain ⟨m, q, hm, hstands⟩ := h.step htells
      have hm : n ≤ m := by omega
      refine bind_cases (x := Clusterizer.step env)
        (motive := fun r => ∃ m q, n ≤ m ∧ (Scene.ofCall r).Stands chain m q) ?_ ?_
      · intro e c' hstep
        rw [hstep] at hstands
        refine ⟨m, q, hm, ?_⟩
        cases e <;> exact hstands
      · intro phase c' hstep
        rw [hstep] at hstands
        obtain ⟨m', q', hm', hrun⟩ := ih hstands
        cases phase with
        | done => exact ⟨m, q, hm, hstands⟩
        | _ => exact ⟨m', q', Nat.le_trans hm hm', hrun⟩

omit [LawfulBatch β] in
/-- A start reads the partition back that the store holds. -/
theorem Holds.start {store : Store} (h : Holds chain n p store.table) (config : Configuration) :
    (Scene.ofStart (start config store : _ × Clusterizer β)).Stands chain n p := by
  rcases start_cases config store with ⟨e, log, hstart, -⟩ | ⟨q, -, hload, hstart⟩ <;> rw [hstart]
  · exact h
  · split
    · exact ⟨h, rfl, fun _ => h.load_eq hload⟩
    · exact h

end Clusterizer

/-- What there is at any time is what comes of some number of blocks. -/
theorem History.stands [LawfulBatch β] (h : History chain s) : ∃ n p, s.Stands chain n p := by
  induction h with
  | new => exact ⟨0, .empty, rfl, Partition.table_empty.symm⟩
  | @start t _ config faults ih =>
      obtain ⟨n, p, hstands⟩ := ih
      exact ⟨n, p, Holds.start (show Holds chain n p (Store.table ⟨t, faults, 0⟩) from hstands) config⟩
  | step _ faults htells ih =>
      obtain ⟨n, p, hstands⟩ := ih
      obtain ⟨m, q, -, h⟩ := (OnWay.withFaults hstands faults).step htells
      exact ⟨m, q, h⟩
  | run _ faults htells ih =>
      obtain ⟨n, p, hstands⟩ := ih
      obtain ⟨m, q, -, h⟩ := (OnWay.withFaults hstands faults).runFor htells stepLimit
      exact ⟨m, q, h⟩
  | drop _ ih =>
      obtain ⟨n, p, hstands⟩ := ih
      exact ⟨n, p, hstands.holds⟩

end Cospend
