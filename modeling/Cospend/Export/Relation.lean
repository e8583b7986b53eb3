import Cospend.Export.Row

/-!
# Relations of clusters and addresses

A relation holds pairs of a cluster and an address, each pair once, in the order in which they were
first inserted. The column of the clusters is a signed number of sixty-four bits, so the upper half
of the numbers is stored as negative ones and read back from them.
-/

namespace Cospend

/-- A row as it is stored. -/
structure Relation.Entry where
  /-- The cluster, as a signed number. -/
  cluster : Int64
  address : String
  deriving DecidableEq, Repr

/-- Pairs of clusters and addresses. -/
structure Relation where
  /-- The pairs in the order of their insertion. -/
  entries : List Relation.Entry
  deriving DecidableEq, Repr

namespace Relation

def Entry.ofRow (r : Row) : Entry := ⟨r.cluster.toUInt64.toInt64, r.address.text⟩

def Entry.toRow (e : Entry) : Row := ⟨⟨e.cluster.toUInt64⟩, ⟨e.address⟩⟩

def empty : Relation := ⟨[]⟩

/-- Adds a pair at the end, unless the relation has it. -/
def insert (t : Relation) (e : Entry) : Relation :=
  if t.entries.contains e then t else ⟨t.entries ++ [e]⟩

/-- Adds the rows that the relation does not have. -/
def insertRows (t : Relation) (rows : List Row) : Relation :=
  rows.foldl (fun t r => t.insert (Entry.ofRow r)) t

def rows (t : Relation) : List Row := t.entries.map Entry.toRow

def size (t : Relation) : Nat := t.entries.length

/-- The cluster column of the first row with an address. -/
def firstCluster (t : Relation) (a : String) : Option Int64 :=
  (t.entries.find? fun e => e.address == a).map Entry.cluster

/-- The cluster that an address was first inserted with. -/
def clusterOf (t : Relation) (a : Address) : Option AddressId :=
  (t.firstCluster a.text).map fun c => ⟨c.toUInt64⟩

end Relation

end Cospend
