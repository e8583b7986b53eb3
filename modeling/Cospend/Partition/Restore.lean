import Cospend.Failure
import Cospend.Partition.Basic
import Cospend.Partition.Error
import Cospend.Partition.Pending
import Cospend.Store.Typed

/-!
# Partitions in the store

`load` reads a partition back from a store and refuses variables that are missing or contradict each
other. `flush` writes pending changes. A store without variables holds the empty partition.
-/

namespace Cospend.Partition

/-- A way of loading that may fail. -/
abbrev Loading (α : Type) := Except (Failure PartitionError) α

/-- A reading error met while loading. -/
def reading {α : Type} : Except ReadError α → Loading α
  | .ok a => .ok a
  | .error e => .error (.error (.read e))

/-- Refuses the store for a contradiction. -/
def refuse {α : Type} (i : Inconsistency) : Loading α := .error (.error (.inconsistent i.message))

/-- Adds the next `left` nodes to a forest, each with its stored parent and rank. -/
def loadNodes (s : Store) (size : Nat) : (left : Nat) → Forest → Loading Forest
  | 0, f => return f
  | left + 1, f => do
    let id := f.size
    let parent : AddressId ← reading (s.expect (.parent id))
    if size ≤ parent.toNat then refuse (.parentOutOfRange id parent size) else
    let rank : UInt64 ← reading (s.expect (.rank id))
    loadNodes s size left (f.push parent.toNat rank)

/-- The forest of the given number of nodes, refused if it has a cycle. -/
def loadForest (s : Store) (size : Nat) : Loading Forest := do
  let f ← loadNodes s size size Forest.empty
  match f.cycle? with
  | some id => refuse (.cycle id)
  | none => return f

/-- The numbers of the addresses, refused if one is out of range or their count is wrong. -/
def loadIds (s : Store) (size : Nat) : Loading (Std.ExtTreeMap Address Nat) := do
  let entries ← reading s.addresses
  match entries.find? fun e => size ≤ e.2.toNat with
  | some (a, id) => refuse (.idOutOfRange a id size)
  | none =>
    let ids := entries.foldl (fun ids e => ids.insert e.1 e.2.toNat) (∅ : Std.ExtTreeMap Address Nat)
    if ids.size = size then return ids else refuse (.countMismatch ids.size size)

/-- The partition that a store holds. -/
def load (s : Store) : Loading Partition := do
  let height : Option Height ← reading (s.read .height)
  let stored : Option UInt64 ← reading (s.read .size)
  let size := (stored.getD 0).toNat
  if capacityLimit ≤ size then .error (.abort .capacityOverflow) else
  let forest ← loadForest s size
  let ids ← loadIds s size
  return ⟨height, forest, ids⟩

/-- Replaces a partition by the one that a store holds. A failure leaves it as it is. -/
def restore (p : Partition) (s : Store) : Loading Unit × Partition :=
  match load s with
  | .ok q => (.ok (), q)
  | .error e => (.error e, p)

variable {β : Type} [WriteBatch β]

/-- Writes pending changes. The height of the partition moves on only if they are a checkpoint and
were written. -/
def flush (p : Partition) (s : Store) (b : Pending β) :
    Except PartitionError Unit × Partition × Store :=
  match s.write b.writes with
  | (.ok (), s) => (.ok (), { p with height := b.checkpoint.or p.height }, s)
  | (.error e, s) => (.error (.store e), p, s)

end Cospend.Partition
