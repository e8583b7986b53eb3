import Cospend.Export.Database

/-!
# A database in memory

A stand-in for a database that is kept in memory: the relation as it was committed last, and as a transaction has
changed it. None of its operations fails, but that more rows than a signed number of sixty-four bits can tell are
not counted.
-/

namespace Cospend

/-- A relation as it was committed, and as the transaction has it that was begun last. -/
structure Memory where
  table : Relation
  working : Relation
  deriving DecidableEq, Repr

namespace Memory

def empty : Memory := ⟨.empty, .empty⟩

/-- A number of rows, if a signed number of sixty-four bits can tell it. -/
def countOf {δ : Type} (n : Nat) : Query δ Int64 :=
  if n < 0x8000000000000000 then pure (Int64.ofNat n) else throw ⟨"integer overflow"⟩

def database : Database Memory where
  begin := modify fun m => { m with working := m.table }
  prepare := pure ()
  insertOrIgnore e := modify fun m => { m with working := m.working.insert e }
  commit := modify fun m => { m with table := m.working }
  rollBack m := { m with working := m.table }
  selectCluster a := do return (← get).table.firstCluster a
  count := do countOf (← get).table.size

end Memory

end Cospend
