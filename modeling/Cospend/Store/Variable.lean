import Cospend.Chain.Address
import Cospend.Chain.Height
import Cospend.Store.Basic

/-!
# Variables of the store

The store keeps a partition as variables: the height of the last checkpoint, the number of registered
addresses, for each number a parent and a rank, and for each address its number. Each variable has a
key of its own and a type of values, and a value takes eight octets. Octets after those are ignored.
-/

namespace Cospend

/-- A variable that the store keeps. -/
inductive Variable where
  | height
  | size
  | parent (id : Nat)
  | rank (id : Nat)
  | addressId (address : Address)
  deriving DecidableEq, Repr

/-- Why a variable could not be read. -/
inductive ReadError where
  | store (e : StoreError)
  | undecodable (v : Variable) (reason : String)
  /-- The variable has no value, and it must have one. -/
  | missing (v : Variable)
  /-- The stored number is not a value of the variable. -/
  | outOfRange (v : Variable)
  /-- The key begins as those of addresses do, and the rest is no text. -/
  | malformedKey (key : Bytes)
  deriving DecidableEq, Repr

namespace Variable

/-- The octets with which the keys of addresses begin. -/
def addressLead : Bytes := Bytes.ofText "addr"

def key : Variable → Bytes
  | .height => Bytes.ofText "height"
  | .size => Bytes.ofText "size"
  | .parent id => Bytes.ofText "p" ++ Bytes.ofText (toString id)
  | .rank id => Bytes.ofText "r" ++ Bytes.ofText (toString id)
  | .addressId address => addressLead ++ Bytes.ofText address.text

/-- How a variable is called in messages. -/
def text : Variable → String
  | .height => "Height"
  | .size => "Size"
  | .parent id => s!"Parent of id {id}"
  | .rank id => s!"Rank of id {id}"
  | .addressId address => "Id of address " ++ address.text

abbrev Value : Variable → Type
  | .height => Height
  | .size => UInt64
  | .parent _ => AddressId
  | .rank _ => UInt64
  | .addressId _ => AddressId

def encode : (v : Variable) → v.Value → Bytes
  | .height, h => LittleEndian.encodeInt 8 h.toInt
  | .size, n => Wire.encode (α := UInt64) n
  | .parent _, id => Wire.encode (α := AddressId) id
  | .rank _, n => Wire.encode (α := UInt64) n
  | .addressId _, id => Wire.encode (α := AddressId) id

/-- The value at the front of an octet string. -/
def take {α : Type} (v : Variable) (d : Decoder α) (bs : Bytes) : Except ReadError α :=
  match d.run bs with
  | .ok (a, _) => .ok a
  | .error e => .error (.undecodable v e.message)

def decode : (v : Variable) → Bytes → Except ReadError v.Value
  | .height, bs => do
    match Height.ofInt? (← take .height (Decoder.int 8) bs) with
    | some h => return h
    | none => throw (.outOfRange .height)
  | .size, bs => take .size (Wire.decoder (α := UInt64)) bs
  | .parent id, bs => take (.parent id) (Wire.decoder (α := AddressId)) bs
  | .rank id, bs => take (.rank id) (Wire.decoder (α := UInt64)) bs
  | .addressId a, bs => take (.addressId a) (Wire.decoder (α := AddressId)) bs

end Variable

def ReadError.message : ReadError → String
  | .store e => e.message
  | .undecodable v reason => "cannot deserialize " ++ v.text ++ ": " ++ reason
  | .missing v => v.text ++ " not found"
  | .outOfRange v => v.text ++ " is out of range"
  | .malformedKey key => "malformed key " ++ key.listing

end Cospend
