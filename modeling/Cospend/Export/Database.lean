import Cospend.Export.Relation
import Cospend.Export.Sink

/-!
# A table of a database as a sink

The sink keeps its rows in a table of a database. A batch is inserted in a transaction of its own: if one of the
operations fails then the transaction is given up and the batch is refused. The database itself is a parameter,
so what is told here is which operations are called, in which order, and what becomes of their errors.
-/

namespace Cospend

/-- An operation on a database, which may fail. -/
abbrev Query (δ α : Type) := ExceptT SinkError (StateM δ) α

/-- The operations of a database that has a table with a column for clusters and one for addresses. -/
structure Database (δ : Type) where
  /-- Begins a transaction. -/
  begin : Query δ Unit
  /-- Makes the statement ready that inserts a row. -/
  prepare : Query δ Unit
  insertOrIgnore : Relation.Entry → Query δ Unit
  commit : Query δ Unit
  /-- Gives up the transaction that was begun. -/
  rollBack : δ → δ
  /-- The cluster in the first row that is found with an address. -/
  selectCluster : String → Query δ (Option Int64)
  /-- The number of rows. -/
  count : Query δ Int64

namespace Database

variable {δ : Type}

/-- What is done in the transaction of a batch. -/
def insertRows (db : Database δ) (rows : List Row) : Query δ Unit := do
  db.prepare
  rows.forM fun r => db.insertOrIgnore (.ofRow r)
  db.commit

/-- Inserts the rows that the table does not have. The transaction is given up at the first error. -/
def insertIfAbsent (db : Database δ) (rows : List Row) : Query δ Unit := do
  db.begin
  tryCatch (db.insertRows rows) fun e => do
    modify db.rollBack
    throw e

/-- The cluster that an address was exported into. -/
def clusterOf (db : Database δ) (a : Address) : Query δ (Option AddressId) := do
  let cluster ← db.selectCluster a.text
  return cluster.map fun c => ⟨c.toUInt64⟩

/-- The number of rows in the table. -/
def size (db : Database δ) : Query δ UInt64 := do
  let n ← db.count
  return n.toUInt64

def isEmpty (db : Database δ) : Query δ Bool := do
  return (← db.size) == 0

def sink (db : Database δ) : Sink δ where
  insertIfAbsent rows s :=
    match (db.insertIfAbsent rows).run s with
    | (.ok (), s) => (.done, s)
    | (.error e, s) => (.failed e, s)

end Database

end Cospend
