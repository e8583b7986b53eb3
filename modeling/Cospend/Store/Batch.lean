import Cospend.Store.Table
import Std.Data.ExtTreeSet

/-!
# Batches of changes

Changes of a table are collected in a batch and made together. A `Delta` keeps the last change of
each key, a `Journal` keeps every change in order. A delta never sets and deletes the same key, so it
may make its insertions in any order and its deletions after them.
-/

namespace Cospend

/-- The values of a type collect changes of a table. -/
class WriteBatch (β : Type) where
  empty : β
  /-- Adds a change after those so far. -/
  record : Change → β → β
  /-- How many changes the batch counts. -/
  size : β → Nat
  applyTo : β → Table → Table

namespace WriteBatch

variable {β : Type} [WriteBatch β]

def isEmpty (b : β) : Bool := size b == 0

/-- The batch of changes recorded in order. -/
def ofChanges (cs : List Change) : β := cs.foldl (fun b c => record c b) empty

end WriteBatch

/-! ## The last change of each key -/

/-- The keys to set with their values, and the keys to delete. -/
structure Delta where
  insertions : Std.ExtTreeMap Bytes Bytes
  deletions : Std.ExtTreeSet Bytes

namespace Delta

def empty : Delta := ⟨∅, ∅⟩

/-- Puts a change in the place of any earlier change of its key. -/
def record : Change → Delta → Delta
  | .set key value, d => ⟨d.insertions.insert key value, d.deletions.erase key⟩
  | .delete key, d => ⟨d.insertions.erase key, d.deletions.insert key⟩

/-- The number of keys that are changed. -/
def size (d : Delta) : Nat := d.insertions.size + d.deletions.size

/-- Makes insertions and then deletions, each in the order given. -/
def applyInOrder (insertions : List (Bytes × Bytes)) (deletions : List Bytes) (t : Table) : Table :=
  deletions.foldl (fun t key => t.erase key)
    (insertions.foldl (fun t e => t.insert e.1 e.2) t)

/-- Makes the insertions and then the deletions. -/
def applyTo (d : Delta) (t : Table) : Table :=
  applyInOrder d.insertions.toList d.deletions.toList t

instance : WriteBatch Delta := ⟨empty, record, size, applyTo⟩

end Delta

/-! ## Every change in order -/

/-- Changes in the order in which they were recorded. -/
structure Journal where
  changes : Array Change

namespace Journal

def empty : Journal := ⟨#[]⟩

def record (c : Change) (j : Journal) : Journal := ⟨j.changes.push c⟩

def size (j : Journal) : Nat := j.changes.size

/-- The changes, recorded in another batch. -/
def replay {β : Type} [WriteBatch β] (j : Journal) : β := WriteBatch.ofChanges j.changes.toList

/-- Makes the changes as the delta that they amount to. -/
def applyTo (j : Journal) (t : Table) : Table := (j.replay : Delta).applyTo t

instance : WriteBatch Journal := ⟨empty, record, size, applyTo⟩

end Journal

end Cospend
