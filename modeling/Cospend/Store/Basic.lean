import Cospend.Store.Batch

/-!
# The store

A store holds a table. Any call to it may fail, and a call that fails changes nothing; in particular
a batch is written as a whole or not at all. Which calls fail is part of the store, so that a run
over a failing store is a function like any other.
-/

namespace Cospend

/-- The failure of a store itself, as opposed to a key that it does not hold. -/
structure StoreError where
  reason : String
  deriving DecidableEq, Repr

def StoreError.message (e : StoreError) : String := "key-value store failure: " ++ e.reason

/-- Which calls to a store fail, and why. -/
structure Faults where
  get : Bytes → Option String := fun _ => none
  /-- Reading the entries whose keys begin with an octet string. -/
  scan : Bytes → Option String := fun _ => none
  clear : Option String := none
  /-- Writing a batch, by the number of writes tried before. -/
  write : Nat → Option String := fun _ => none

def Faults.none : Faults := {}

/-- After `skip` writes, the next `count` fail. -/
def Faults.ofWrites (skip count : Nat) (reason : String) : Faults where
  write n := if skip ≤ n ∧ n < skip + count then some reason else Option.none

/-- A table with the failures of its calls. -/
structure Store where
  table : Table
  faults : Faults
  /-- How many writes were tried under these faults. -/
  writes : Nat

/-- Where the entries of a store are kept. -/
inductive Backend where
  | memory
  | disk (path : String)
  deriving DecidableEq, Repr

namespace Store

def empty : Store := ⟨∅, Faults.none, 0⟩

/-- Opens a store. Only memory can hold one. -/
def «open» : Backend → Except StoreError Store
  | .memory => .ok empty
  | .disk path =>
    .error ⟨"cannot open " ++ path ++ ": built without the `rocksdb` feature"⟩

/-- The store with other faults, the count of writes started afresh. -/
def withFaults (s : Store) (f : Faults) : Store := { s with faults := f, writes := 0 }

/-- The call succeeds unless it has a failure. -/
def guard (failure : Option String) : Except StoreError Unit :=
  match failure with
  | none => .ok ()
  | some reason => .error ⟨reason⟩

def get (s : Store) (key : Bytes) : Except StoreError (Option Bytes) := do
  guard (s.faults.get key)
  return s.table[key]?

/-- The entries whose keys begin with `lead`, in the order of the keys. -/
def scan (s : Store) (lead : Bytes) : Except StoreError (List (Bytes × Bytes)) := do
  guard (s.faults.scan lead)
  return s.table.scan lead

/-- The values of the entries whose keys begin with `lead`. -/
def scanValues (s : Store) (lead : Bytes) : Except StoreError (List Bytes) := do
  return (← s.scan lead).map Prod.snd

def scanKeys (s : Store) (lead : Bytes) : Except StoreError (List Bytes) := do
  return (← s.scan lead).map Prod.fst

def clear (s : Store) : Except StoreError Unit × Store :=
  match s.faults.clear with
  | none => (.ok (), { s with table := ∅ })
  | some reason => (.error ⟨reason⟩, s)

variable {β : Type} [WriteBatch β]

/-- Makes the changes of a batch, all of them or none. -/
def write (s : Store) (b : β) : Except StoreError Unit × Store :=
  match s.faults.write s.writes with
  | none => (.ok (), { s with table := WriteBatch.applyTo b s.table, writes := s.writes + 1 })
  | some reason => (.error ⟨reason⟩, { s with writes := s.writes + 1 })

/-- Writes a batch that sets one key. -/
def put (β : Type) [WriteBatch β] (s : Store) (key value : Bytes) : Except StoreError Unit × Store :=
  s.write (WriteBatch.record (.set key value) (WriteBatch.empty : β))

end Store

end Cospend
