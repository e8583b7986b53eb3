import Cospend.Partition.Basic

/-!
# Rows of the export

The export has a row for each registered address, in the order of the numbers. As it follows
`Partition.finalize`, the parent of a number is the number that stands for its cluster.
-/

namespace Cospend

/-- An address with its cluster. -/
structure Row where
  cluster : AddressId
  address : Address
  deriving DecidableEq, Repr

/-- The row as a line: the address and the cluster, separated by a comma. -/
def Row.line (r : Row) : String := r.address.text ++ "," ++ r.cluster.text ++ "\n"

namespace Partition

def row (p : Partition) (entry : Address × Nat) : Row :=
  ⟨AddressId.ofNat (p.forest.next entry.2), entry.1⟩

/-- The rows of addresses that come in any order. -/
def rowsOf (p : Partition) (entries : List (Address × Nat)) : List Row :=
  (sortBy (fun a b => a.2 ≤ b.2) entries).map p.row

def rows (p : Partition) : List Row := p.rowsOf p.ids.toList

/-- The number of clusters, counted by their roots. -/
def countRoots (p : Partition) : Nat :=
  (List.range p.size).countP fun i => p.forest.next i == i

end Partition

/-- The text of rows, each on a line of its own. -/
def Row.sheet (rows : List Row) : String := rows.foldl (fun text r => text ++ r.line) ""

end Cospend
