import Cospend.Clusterizer.Block

/-!
# The steps of a clusterizer

From `idle` a step goes to the block after the last checkpoint, or to `done` if the tip was reached.
A block is processed in one step and checkpointed in the next, which writes its changes together with
its height. A step that fails goes back to `idle`; if a block was in progress the partition is stale,
and the next step reads it back first.
-/

namespace Cospend.Clusterizer

variable {β : Type} [WriteBatch β]

/-- Reads the partition back from the store, and logs an error. -/
def restore : Action β Unit := fun c =>
  match c.partition.restore c.store with
  | (.ok (), p) => (.ok (), { c with partition := p })
  | (.error (.error e), p) =>
    (.error (.error (.partition e)), { c with partition := p }.record .error
      ("failed to restore the disjoint-set: " ++ e.message))
  | (.error (.abort a), p) => (.error (.abort a), { c with partition := p })

/-- Tells that the partition was read back. -/
def announceRestore : Action β Unit := do
  let c ← get
  publish (.restored c.partition.height c.partition.size)

/-- What the log tells of a partition that was read back after a failed step. -/
def rollbackText : Option Height → String
  | some h => s!"rolled back to the checkpoint at height {h.text} after a failed step"
  | none => "rolled back to the empty disjoint-set after a failed step"

/-- Reads a stale partition back. -/
def recover : Action β Unit := do
  if (← get).stale then
    restore
    modify fun c => { c with stale := false }
    modify fun c => c.record .warn (rollbackText c.partition.height)
    announceRestore

def heightAfter (checkpoint : Option Height) : Except Abort Height :=
  match checkpoint with
  | none => .ok .genesis
  | some h => match h.next? with
    | some n => .ok n
    | none => .error .addOverflow

/-- The phase after a checkpoint, as the tip of the ledger has it. -/
def phaseAfter (env : Environment) (checkpoint : Option Height) : Action β Phase := do
  match heightAfter checkpoint with
  | .error a => throw (.abort a)
  | .ok next =>
    let tip ← asked s!"failed to read the ledger's tip before height {next.text}"
      (env.ledger.tip checkpoint)
    if next ≤ tip then return .processing next
    else
      publish (.caughtUp checkpoint)
      return .done

/-- Takes the walk up from the last checkpoint. -/
def resume (env : Environment) : Action β Phase := do
  recover
  phaseAfter env (← get).partition.height

/-- Writes the batch of a checkpoint to the store, and logs an error. -/
def flush (height : Height) (b : Pending β) : Action β Unit := fun c =>
  match c.partition.flush c.store b with
  | (.ok (), p, s) => (.ok (), { c with partition := p, store := s })
  | (.error e, p, s) =>
    (.error (.error (.partition e)), { c with partition := p, store := s }.record .error
      ("failed to checkpoint height " ++ height.text ++ ": " ++ e.message))

/-- Takes the pending writes out, or an empty batch if there are none. -/
def takePending : Action β (Pending β) := fun c =>
  (.ok (c.pending.getD .empty), { c with pending := none })

/-- Writes the pending changes together with the height that they lead to. -/
def checkpoint (height : Height) : Action β Unit := do
  let b := (← takePending).stage .height height
  flush height b
  let c ← get
  publish (.checkpointed height c.partition.size b.size)

/-- The phase that a step from the present one leads to. -/
def transition (env : Environment) : Phase → Action β Phase
  | .idle => resume env
  | .processing height => do
    processBlock env height
    return .checkpointing height
  | .checkpointing height => do
    checkpoint height
    phaseAfter env (some height)
  | .done => return .done

/-- The clusterizer after an error in a phase. -/
def fallBack (c : Clusterizer β) (phase : Phase) : Clusterizer β :=
  { c with stale := c.stale || phase.isMidBlock, pending := none, phase := .idle }

/-- Makes one transition and answers the phase that it led to. A step that is abandoned stays in its
phase. -/
def step (env : Environment) : Action β Phase := fun c =>
  match transition env c.phase c with
  | (.ok phase, c) => (.ok phase, { c with phase })
  | (.error (.error e), d) => (.error (.error e), d.fallBack c.phase)
  | (.error (.abort a), d) => (.error (.abort a), d)

/-- Steps until the walk is done, at most the given number of times. -/
def runFor (env : Environment) : (steps : Nat) → Action β (Option Height)
  | 0 => return (← get).partition.height
  | steps + 1 => do
    match ← step env with
    | .done => return (← get).partition.height
    | _ => runFor env steps

/-- More steps than a walk over every height can take. -/
def stepLimit : Nat := 0x400000000

/-- Steps until the walk is done, and answers the height of the last checkpoint. -/
def run (env : Environment) : Action β (Option Height) := runFor env stepLimit

/-- A clusterizer over a store that the partition was not read from yet. -/
def fresh (s : Store) : Clusterizer β :=
  ⟨s, .empty, .idle, none, false, [], [], 0⟩

/-- Makes room for the addresses to come. -/
def makeRoom (capacity : Nat) : Action β Unit := fun c =>
  match Partition.withCapacity capacity with
  | .ok p => (.ok (), { c with partition := p })
  | .error a => (.error (.abort a), c)

/-- Makes the pool of workers, which is idle between two transactions. -/
def makePool (workers : Nat) : Action β Unit := fun c =>
  let pool : Except Abort (Pool AddressSet LedgerError) := Pool.start? workers ∅ c.clock
  match pool with
  | .ok _ => (.ok (), c)
  | .error a => (.error (.abort a), c)

/-- Makes room for addresses, reads the partition back for the first time and makes the pool. -/
def setOut (config : Configuration) : Action β Unit := do
  makeRoom config.capacity
  restore
  announceRestore
  makePool config.workers

/-- Starts a clusterizer over a store. -/
def start (config : Configuration) (s : Store) :
    Except (Failure ClusterizerError) Unit × Clusterizer β :=
  setOut config (fresh s)

end Cospend.Clusterizer
