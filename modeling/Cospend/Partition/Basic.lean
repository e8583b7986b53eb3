import Cospend.Chain.Address
import Cospend.Chain.Height
import Cospend.Failure
import Cospend.Forest.Basic

/-!
# Partitions of addresses

The registered addresses are numbered in the order of their registration, and a forest over the
numbers groups them: two addresses are in one cluster if their numbers have the same root.
-/

namespace Cospend

/-- The registered addresses in clusters. -/
structure Partition where
  /-- The height of the last checkpoint that was written, if there is one. -/
  height : Option Height
  /-- The forest over the numbers of the addresses. -/
  forest : Forest
  /-- The number of each registered address. -/
  ids : Std.ExtTreeMap Address Nat

namespace Partition

def empty : Partition := ⟨none, Forest.empty, ∅⟩

/-- The number of elements at which an array of numbers cannot be made any more. -/
def capacityLimit : Nat := 0x1000000000000000

/-- The empty partition with room for addresses to come. -/
def withCapacity (capacity : Nat) : Except Abort Partition :=
  if capacityLimit ≤ capacity then .error .capacityOverflow else .ok empty

/-- The number of addresses ever registered. -/
def size (p : Partition) : Nat := p.forest.size

def contains (p : Partition) (a : Address) : Bool := p.ids.contains a

/-- The parent of a number, if an address has been given the number. -/
def parent? (p : Partition) (id : Nat) : Option Nat := p.forest.parent[id]?

/-- The rank of a number, if an address has been given the number. -/
def rank? (p : Partition) (id : Nat) : Option UInt64 := p.forest.rank[id]?

/-- The number that stands for the cluster of an address. -/
def clusterOf (p : Partition) (a : Address) : Option Nat := p.ids[a]?.map p.forest.root

/-- Puts an address into its group. -/
def group (p : Partition) (groups : Std.ExtTreeMap Nat (List Address)) (entry : Address × Nat) :
    Std.ExtTreeMap Nat (List Address) :=
  let r := p.forest.root entry.2
  groups.insert r (groups.getD r [] ++ [entry.1])

/-- The registered addresses grouped by the number that stands for their cluster. -/
def clusters (p : Partition) : Std.ExtTreeMap Nat (List Address) := p.ids.toList.foldl p.group ∅

/-- The partition with every way to a root shortened to one step. -/
def finalize (p : Partition) : Partition := { p with forest := p.forest.flatten }

end Partition

end Cospend
