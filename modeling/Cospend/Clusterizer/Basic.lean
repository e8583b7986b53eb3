import Cospend.Clusterizer.Resolve
import Cospend.Event.Basic
import Cospend.Log
import Cospend.Partition.Restore
import Cospend.Partition.Workspace

/-!
# The clusterizer

A clusterizer walks over the chain block by block and keeps a partition in which the addresses that
fund one transaction are in one cluster. Its partition may be ahead of the store while a block is
worked on; a failed step marks it as stale, and then nothing else happens before it was read back.
-/

namespace Cospend

/-- Where a clusterizer is in its walk. -/
inductive Phase where
  | idle
  /-- The block at this height comes next. -/
  | processing (height : Height)
  /-- The merges of the block at this height are to be written. -/
  | checkpointing (height : Height)
  /-- Every block up to the tip was checkpointed. -/
  | done
  deriving DecidableEq, Repr

def Phase.isMidBlock : Phase → Bool
  | .processing _ => true
  | .checkpointing _ => true
  | _ => false

/-- What a clusterizer is set up with. -/
structure Configuration where
  workers : Nat
  /-- The number of addresses to make room for at first. -/
  capacity : Nat
  /-- The number of rows in a batch of the export. -/
  batchSize : Nat
  logEvents : Bool
  deriving DecidableEq, Repr

/-- How many workers there are for each core, unless told otherwise. -/
def workersPerCore : Nat := 3

/-- The set-up on a machine with the given number of cores, unless told otherwise. -/
def Configuration.standard (cores : Nat) : Configuration :=
  ⟨workersPerCore * cores, 0, 1024, true⟩

/-- Why a step did not succeed. -/
inductive ClusterizerError where
  | partition (e : PartitionError)
  | ledger (e : LedgerError)
  /-- An input of a transaction could not be resolved. -/
  | worker (e : WorkerError LedgerError)
  deriving DecidableEq, Repr

def ClusterizerError.message : ClusterizerError → String
  | .partition e => "disjoint-set error: " ++ e.message
  | .ledger e => "ledger error: " ++ e.message
  | .worker e => "input resolution error: " ++ e.message LedgerError.message

/-- A walk over the chain. -/
structure Clusterizer (β : Type) where
  store : Store
  partition : Partition
  phase : Phase
  /-- The writes of a block that was processed and not checkpointed. -/
  pending : Option (Pending β)
  /-- The partition may be ahead of the store. -/
  stale : Bool
  published : List Event
  log : List LogRecord
  /-- How many moves the workers made. -/
  clock : Nat

/-- A part of a step. What it changed before it fails stays changed. -/
abbrev Action (β α : Type) := ExceptT (Failure ClusterizerError) (StateM (Clusterizer β)) α

namespace Clusterizer

variable {β α : Type}

def publish (e : Event) : Action β Unit :=
  modify fun c => { c with published := c.published ++ [e] }

/-- The clusterizer with a record added to its log. -/
def record (c : Clusterizer β) (level : LogLevel) (text : String) : Clusterizer β :=
  { c with log := c.log ++ [⟨level, text⟩] }

/-- Runs an action and logs its error, behind the given text. -/
def logging (what : String) (x : Action β α) : Action β α := fun c =>
  match x c with
  | (.error (.error e), c) =>
    (.error (.error e), c.record .error (what ++ ": " ++ e.message))
  | (.error (.abort a), c) => (.error (.abort a), c)
  | (.ok a, c) => (.ok a, c)

/-- An answer of the ledger. An error is logged behind the given text. -/
def asked (what : String) (answer : Except LedgerError α) : Action β α := fun c =>
  match answer with
  | .ok a => (.ok a, c)
  | .error e => (.error (.error (.ledger e)), c.record .error (what ++ ": " ++ e.message))

end Clusterizer

end Cospend
