import Cospend.Chain.Ledger

/-!
# A chain in memory

An archive holds blocks by height and transactions by digest, and answers for both as a ledger. Some
questions may be planned to fail, or to get another answer than the archive has.
-/

namespace Cospend

/-- Blocks and transactions. -/
structure Archive where
  blocks : Std.ExtTreeMap Int Block
  transactions : Std.ExtTreeMap Bytes Transaction

/-- What a ledger answers instead of what it holds. -/
structure Detour where
  /-- The height given as the tip. -/
  tip : Option Height := none
  /-- Why the tip is not answered. -/
  failTip : Option String := none
  /-- Why a block is not answered. -/
  failBlock : Height → Option String := fun _ => none
  /-- Why a transaction is not answered. -/
  failTransaction : Digest → Option String := fun _ => none
  /-- Why the ledger gives up at a transaction. -/
  abortTransaction : Digest → Option String := fun _ => none

namespace Archive

def empty : Archive := ⟨∅, ∅⟩

def addTransaction (a : Archive) (t : Transaction) : Archive :=
  { a with transactions := a.transactions.insert t.id.bytes t }

def removeTransaction (a : Archive) (id : Digest) : Archive :=
  { a with transactions := a.transactions.erase id.bytes }

def addBlock (a : Archive) (b : Block) : Archive :=
  { a with blocks := a.blocks.insert b.height.toInt b }

/-- The height of the highest block. -/
def highest? (a : Archive) : Option Height := a.blocks.maxEntry?.map fun e => e.2.height

/-- The height of the highest block, or a height below all of them. -/
def tip (a : Archive) : Height := a.highest?.getD { toInt := -1 }

/-- The archive as a ledger, except for the answers that take a detour. -/
def ledger (a : Archive) (d : Detour) : Ledger where
  tip _ := match d.failTip with
    | some reason => .error (.backend reason)
    | none => .ok (d.tip.getD a.tip)
  block h := match d.failBlock h with
    | some reason => .error (.backend reason)
    | none => match a.blocks[h.toInt]? with
      | some b => .ok b
      | none => .error (.blockNotFound h)
  transaction _ id := match d.failTransaction id with
    | some reason => .error (.error (.backend reason))
    | none => match d.abortTransaction id with
      | some text => .error (.abort (.raised text))
      | none => match a.transactions[id.bytes]? with
        | some t => .ok t
        | none => .error (.error (.transactionNotFound id))

end Archive

end Cospend
