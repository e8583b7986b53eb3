import Cospend.Bytes.Basic

/-!
# Base64 without padding

Three octets are written as four digits of six bits. One octet left over takes two digits and two
octets take three, and nothing marks the digits that are missing.
-/

namespace Cospend.Base64

/-- The digit for a number below sixty-four: capital letters, small letters, figures, `+` and `/`. -/
def digit (n : Nat) : Char :=
  if n < 26 then Char.ofNat ('A'.toNat + n)
  else if n < 52 then Char.ofNat ('a'.toNat + (n - 26))
  else if n < 62 then Char.ofNat ('0'.toNat + (n - 52))
  else if n = 62 then '+'
  else '/'

/-- The groups of six bits, the last of them filled up with zero bits. -/
def sextets : Bytes → List Nat
  | a :: b :: c :: rest =>
    a.toNat / 4 :: (a.toNat % 4 * 16 + b.toNat / 16) :: (b.toNat % 16 * 4 + c.toNat / 64)
      :: c.toNat % 64 :: sextets rest
  | [a, b] => [a.toNat / 4, a.toNat % 4 * 16 + b.toNat / 16, b.toNat % 16 * 4]
  | [a] => [a.toNat / 4, a.toNat % 4 * 16]
  | [] => []

/-- The digits of an octet string. -/
def encode (bs : Bytes) : String := String.ofList ((sextets bs).map digit)

end Cospend.Base64
