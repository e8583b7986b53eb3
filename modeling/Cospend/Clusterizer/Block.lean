import Cospend.Clusterizer.Basic

/-!
# The work on a block

All addresses that fund one transaction are taken to have one owner. They are registered in their
order, and every other one is merged with the first. The writes of a block are collected in one
pending batch, which is lost if a transaction of the block fails.
-/

namespace Cospend

namespace Workspace

variable {β : Type} [WriteBatch β]

def registerAll : List Address → Work β Unit
  | [] => return ()
  | a :: as => do
    let _ ← register a
    registerAll as

/-- Merges the clusters of addresses with that of `anchor`, in the order given. -/
def unionAll (anchor : Address) : List Address → Work β Unit
  | [] => return ()
  | a :: as => do
    let _ ← union anchor a
    unionAll anchor as

/-- Puts addresses into one cluster. -/
def cospend (as : List Address) : Work β Unit := do
  registerAll as
  match as with
  | [] => return ()
  | anchor :: others => unionAll anchor others

end Workspace

namespace Clusterizer

variable {β : Type} [WriteBatch β]

/-- Works on the partition with a batch of its own and returns the batch. -/
def work {α : Type} (x : Work β α) (b : Pending β) : Action β (Pending β) := fun c =>
  match x ⟨c.partition, b⟩ with
  | (.ok _, w) => (.ok w.pending, { c with partition := w.partition })
  | (.error e, w) => (.error (e.map .partition), { c with partition := w.partition })

/-- A listed transaction, as the ledger has it. -/
def listed (env : Environment) (height : Height) (place : Nat) (id : Digest) :
    Action β Transaction := fun c =>
  match env.ledger.transaction ⟨height, place, none⟩ id with
  | .ok t => (.ok t, c)
  | .error e => (.error (e.map .ledger), c)

/-- The addresses whose outputs a transaction spends. -/
def funders (env : Environment) (height : Height) (place : Nat) (t : Transaction) :
    Action β (List Address) := fun c =>
  match env.inputAddresses height place t c.clock with
  | (.ok as, clock) => (.ok as, { c with clock })
  | (.error e, clock) => (.error (.error (.worker e)), { c with clock })

/-- Applies a transaction to the partition. -/
def processTransaction (env : Environment) (height : Height) (place : Nat) (id : Digest)
    (b : Pending β) : Action β (Pending β) := do
  let t ← listed env height place id
  let as ← funders env height place t
  work (Workspace.cospend (Address.sort as)) b

/-- Applies transactions in order, the first of them at the given place in its block. -/
def processTransactions (env : Environment) (height : Height) :
    (place : Nat) → List Digest → Pending β → Action β (Pending β)
  | _, [], b => return b
  | place, id :: ids, b => do
    let what := s!"failed to process transaction {id.text} at height {height.text}"
    let b ← logging what (processTransaction env height place id b)
    processTransactions env height (place + 1) ids b

/-- Applies the block at a height and leaves its writes pending. -/
def processBlock (env : Environment) (height : Height) : Action β Unit := do
  let block ← asked s!"failed to read block at height {height.text}" (env.ledger.block height)
  publish (.blockStarted height block.hash block.transactions.length)
  let b ← processTransactions env height 0 block.transactions Pending.empty
  modify fun c => { c with pending := some b }

end Clusterizer

end Cospend
