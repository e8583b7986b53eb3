import Cospend.Store.Variable

/-!
# Pending writes

The values that variables are to get are collected until they are written together. A batch that
gives the height a value is a checkpoint at that height.
-/

namespace Cospend

/-- Writes that are not durable yet. -/
structure Pending (β : Type) where
  writes : β
  /-- The height of the checkpoint that the batch is, if it is one. -/
  checkpoint : Option Height

namespace Pending

variable {β : Type} [WriteBatch β]

def empty : Pending β := ⟨WriteBatch.empty, none⟩

/-- The number of writes, as the batch counts them. -/
def size (b : Pending β) : Nat := WriteBatch.size b.writes

def isEmpty (b : Pending β) : Bool := WriteBatch.isEmpty b.writes

/-- The checkpoint of a batch after a variable was given a value. -/
def checkpointAfter (checkpoint : Option Height) : (v : Variable) → v.Value → Option Height
  | .height, h => some h
  | _, _ => checkpoint

def stage (v : Variable) (x : v.Value) (b : Pending β) : Pending β where
  writes := WriteBatch.record (.set v.key (v.encode x)) b.writes
  checkpoint := checkpointAfter b.checkpoint v x

end Pending

end Cospend
