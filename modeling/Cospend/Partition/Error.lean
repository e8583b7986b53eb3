import Cospend.Store.Variable

/-!
# Errors of a partition

Why an operation on a partition, or on its place in the store, did not succeed.
-/

namespace Cospend

/-- A value that could not be written in octets. -/
structure StageError where
  /-- The variable that was to get the value. -/
  v : Variable
  reason : String
  deriving DecidableEq, Repr

def StageError.message (e : StageError) : String :=
  "cannot serialize " ++ e.v.text ++ ": " ++ e.reason

/-- A contradiction between stored variables. -/
inductive Inconsistency where
  /-- The parent of a number is no number. -/
  | parentOutOfRange (id : Nat) (parent : AddressId) (size : Nat)
  /-- Following parents from a number leads back to it. -/
  | cycle (id : Nat)
  /-- The number of an address is no number. -/
  | idOutOfRange (address : Address) (id : AddressId) (size : Nat)
  /-- There are more or fewer addresses than numbers. -/
  | countMismatch (count size : Nat)
  deriving DecidableEq, Repr

def Inconsistency.message : Inconsistency → String
  | .parentOutOfRange id parent size => s!"parent of id {id} is {parent.text}, but size is {size}"
  | .cycle id => s!"parent pointers of id {id} form a cycle"
  | .idOutOfRange address id size =>
    "address " ++ address.text ++ s!" has id {id.text}, but size is {size}"
  | .countMismatch count size => s!"{count} addresses are registered, but size is {size}"

/-- Why an operation on a partition did not succeed. -/
inductive PartitionError where
  | unregistered (address : Address)
  | read (e : ReadError)
  | stage (e : StageError)
  | store (e : StoreError)
  /-- The stored variables contradict each other, as the finding tells. -/
  | inconsistent (finding : String)
  deriving DecidableEq, Repr

def PartitionError.message : PartitionError → String
  | .unregistered address => "address " ++ address.text ++ " is not registered"
  | .read e => e.message
  | .stage e => e.message
  | .store e => e.message
  | .inconsistent finding => "inconsistent persisted state: " ++ finding

end Cospend
