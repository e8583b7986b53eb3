/-!
# Byte strings

A byte string is a list of octets. Keys of the store are compared as lists, octet by octet, so that
the keys that share a first part stand next to each other in the order.
-/

namespace Cospend

abbrev Bytes := List UInt8

namespace Bytes

/-- The octets in brackets, each in decimal, with a comma and a blank between two. -/
def listing (bs : Bytes) : String :=
  "[" ++ ", ".intercalate (bs.map fun b => toString b.toNat) ++ "]"

/-- The octets of a text in UTF-8. -/
def ofText (s : String) : Bytes := s.toByteArray.data.toList

@[simp] theorem ofText_inj {s t : String} : ofText s = ofText t ↔ s = t := by
  constructor
  · intro h
    apply String.toByteArray_inj.1
    exact ByteArray.ext (Array.toList_inj.1 h)
  · exact fun h => h ▸ rfl

end Bytes

end Cospend
