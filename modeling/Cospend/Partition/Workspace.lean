import Cospend.Forest.Link
import Cospend.Partition.Basic
import Cospend.Partition.Error
import Cospend.Partition.Pending

/-!
# Changing a partition

Every change of a partition is staged in a pending batch as it is made, so that the store overlaid
with the batch keeps showing the partition. An operation that fails midway leaves both as far as it
came.
-/

namespace Cospend

/-- A partition together with the writes that have not reached the store. -/
structure Workspace (β : Type) where
  partition : Partition
  pending : Pending β

abbrev Work (β α : Type) := ExceptT (Failure PartitionError) (StateM (Workspace β)) α

namespace Workspace

variable {β : Type} [WriteBatch β]

/-! ## Registering -/

/-- The workspace with an address that was not registered before. -/
def add (w : Workspace β) (a : Address) : Workspace β :=
  let p := w.partition
  let id := p.size
  { partition := { p with forest := p.forest.push id 0, ids := p.ids.insert a id }
    pending := w.pending
      |>.stage .size (UInt64.ofNat (id + 1))
      |>.stage (.addressId a) (AddressId.ofNat id)
      |>.stage (.parent id) (AddressId.ofNat id)
      |>.stage (.rank id) 0 }

/-- Registers an address and answers its number. An address that is registered keeps its number. As no machine has
the memory for `capacityLimit` addresses, the numbers never come near the end of their range. -/
def register (a : Address) : Work β Nat := fun w =>
  match w.partition.ids[a]? with
  | some id => (.ok id, w)
  | none =>
    if Partition.capacityLimit ≤ w.partition.size + 1 then (.error (.abort .exhausted), w)
    else (.ok w.partition.size, w.add a)

/-! ## Finding -/

/-- The workspace after a way to a root was shortened. -/
def shorten (w : Workspace β) (c : Forest.Compression) : Workspace β where
  partition := { w.partition with forest := c.forest }
  pending := c.moved.foldl (fun b i => b.stage (.parent i) (AddressId.ofNat c.root)) w.pending

/-- The root of the number of an address. The way to it is shortened. -/
def find (a : Address) : Work β Nat := fun w =>
  match w.partition.ids[a]? with
  | none => (.error (.error (.unregistered a)), w)
  | some id =>
    let c := w.partition.forest.compress id
    (.ok c.root, w.shorten c)

/-! ## Merging -/

/-- The workspace after two trees were joined. -/
def join (w : Workspace β) (l : Forest.Link) : Workspace β where
  partition := { w.partition with forest := w.partition.forest.link l }
  pending :=
    (match l.rank with
      | none => w.pending
      | some r => w.pending.stage (.rank l.parent) r)
    |>.stage (.parent l.child) (AddressId.ofNat l.parent)

/-- Joins the trees of two different roots and answers the root that stays. -/
def link (a b : Nat) : Work β Nat := fun w =>
  match w.partition.forest.chooseLink a b with
  | .error e => (.error (.abort e), w)
  | .ok l => (.ok l.parent, w.join l)

/-- Merges the clusters of two addresses and answers the root of the merged one. -/
def union (a b : Address) : Work β Nat := do
  let x ← find a
  let y ← find b
  if x = y then return x else link x y

end Workspace

end Cospend
