import Cospend.Sorting
import Cospend.Text.Quoted
import Cospend.Wire.Basic
import Std.Data.ExtTreeMap

/-!
# Addresses and their numbers

An address is an opaque text. Addresses are ordered by their code points, which is also the order of
their octets. A registered address has a number of sixty-four bits.
-/

namespace Cospend

/-- An address that can own an output of a transaction. -/
structure Address where
  /-- The address in the encoding of its ledger. -/
  text : String
  deriving DecidableEq, Repr

namespace Address

instance : Ord Address := ⟨fun a b => compare a.text b.text⟩

theorem compare_def (a b : Address) : compare a b = compare a.text b.text := rfl

instance : Std.TransOrd Address where
  eq_swap := by intro a b; simp only [compare_def]; exact Std.OrientedCmp.eq_swap
  isLE_trans := by
    intro a b c
    simp only [compare_def]
    exact Std.TransCmp.isLE_trans

instance : Std.LawfulEqOrd Address where
  compare_self := by intro a; simp only [compare_def]; exact Std.ReflCmp.compare_self
  eq_of_compare := by
    intro a b h
    simp only [compare_def] at h
    cases a; cases b
    exact congrArg Address.mk (Std.LawfulEqCmp.eq_of_compare h)

def le (a b : Address) : Bool := (compare a b).isLE

def sort (as : List Address) : List Address := sortBy le as

/-- The address in quotes, with each of its characters told in print. -/
def quoted (a : Address) : String := Quoted.encode a.text

instance : Wire Address where
  encode a := Wire.encode a.text
  decoder := return ⟨← Wire.decoder⟩

end Address

/-- The number of a registered address, as it is stored and exported. -/
structure AddressId where
  toUInt64 : UInt64
  deriving DecidableEq, Repr

namespace AddressId

/-- The number as an unbounded one. -/
def toNat (id : AddressId) : Nat := id.toUInt64.toNat

/-- The number with the given value, modulo the width. -/
def ofNat (n : Nat) : AddressId := ⟨UInt64.ofNat n⟩

def text (id : AddressId) : String := toString id.toNat

instance : Wire AddressId where
  encode id := Wire.encode id.toUInt64
  decoder := return ⟨← Wire.decoder⟩

end AddressId

end Cospend
