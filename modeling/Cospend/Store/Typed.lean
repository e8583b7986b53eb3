import Cospend.Store.Variable

/-!
# Reading variables from a store

A variable without a value reads as nothing. A parent and a rank are read where they must exist, so
for them the absence is an error. All addresses are read by one scan, each of them out of its key.
-/

namespace Cospend.Store

/-- A store failure met while reading a variable. -/
def reading {α : Type} : Except StoreError α → Except ReadError α
  | .ok a => .ok a
  | .error e => .error (.store e)

/-- The value of a variable, if it has one. -/
def read (s : Store) (v : Variable) : Except ReadError (Option v.Value) := do
  match ← reading (s.get v.key) with
  | none => return none
  | some bs => return some (← v.decode bs)

/-- The value of a variable that must have one. -/
def expect (s : Store) (v : Variable) : Except ReadError v.Value := do
  match ← s.read v with
  | none => throw (.missing v)
  | some a => return a

/-- The address and the number that an entry stands for, if its key is one of an address. -/
def addressEntry (entry : Bytes × Bytes) : Except ReadError (Address × AddressId) :=
  match Utf8.decode (entry.1.drop Variable.addressLead.length) with
  | .error _ => .error (.malformedKey entry.1)
  | .ok text => do
    let id ← (Variable.addressId ⟨text⟩).decode entry.2
    return (⟨text⟩, id)

/-- Every address that the store holds with its number, in the order of the addresses. -/
def addresses (s : Store) : Except ReadError (List (Address × AddressId)) := do
  (← reading (s.scan Variable.addressLead)).mapM addressEntry

end Cospend.Store
