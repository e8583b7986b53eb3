import Cospend.Chain.Block
import Cospend.Failure

/-!
# Ledgers

A ledger answers questions about the chain. It is remote: a question may fail at one time and be
answered at another, so an answer depends on the occasion of the question. Within one walk over the
chain no occasion comes twice.
-/

namespace Cospend

/-- Why a ledger did not answer. -/
inductive LedgerError where
  | blockNotFound (height : Height)
  | transactionNotFound (transaction : Digest)
  /-- The transaction has no output at that place. -/
  | outputNotFound (outpoint : Outpoint)
  /-- The ledger's own storage or transport failed. -/
  | backend (reason : String)
  deriving DecidableEq, Repr

def LedgerError.message : LedgerError → String
  | .blockNotFound height => s!"block at height {height.text} not found"
  | .transactionNotFound transaction => s!"transaction {transaction.text} not found"
  | .outputNotFound outpoint =>
    s!"output {outpoint.index.toNat} of transaction {outpoint.transaction.text} not found"
  | .backend reason => "ledger backend failure: " ++ reason

/-- What a transaction is asked for. -/
structure Occasion where
  /-- The height of the block that is walked over. -/
  height : Height
  /-- The place in the block of the transaction that is looked at. -/
  place : Nat
  /-- The place of the input whose output is looked up, or nothing if the transaction itself is
  looked at. -/
  input : Option Nat
  deriving DecidableEq, Repr

/-- The chain as it can be asked about. -/
structure Ledger where
  /-- The height of the newest block, asked for after the given checkpoint. -/
  tip : Option Height → Except LedgerError Height
  block : Height → Except LedgerError Block
  /-- A transaction. The ledger may also give up. -/
  transaction : Occasion → Digest → Except (Failure LedgerError) Transaction

end Cospend
