import Cospend.Bytes.Sha256
import Cospend.Text.Base64
import Cospend.Wire.Basic

/-!
# Digests

A digest of thirty-two octets names a transaction or a block. The zero digest names no transaction.
-/

namespace Cospend

/-- A string of thirty-two octets that stands for a hashed message. -/
structure Digest where
  bytes : Bytes
  length_bytes : bytes.length = 32
  deriving DecidableEq, Repr

namespace Digest

def ofMessage (message : Bytes) : Digest := ⟨Sha256.hash message, Sha256.length_hash message⟩

/-- The octets as a digest, if there are thirty-two. -/
def ofBytes? (bs : Bytes) : Option Digest :=
  if h : bs.length = 32 then some ⟨bs, h⟩ else none

def zero : Digest := ⟨List.replicate 32 0, by simp⟩

def isZero (d : Digest) : Bool := d.bytes.all (· == 0)

def text (d : Digest) : String := Base64.encode d.bytes

/-- The first seven digits of the digest in Base64. -/
def shortText (d : Digest) : String := (d.text.take 7).toString

instance : Wire Digest where
  encode d := d.bytes
  decoder := fun bs =>
    if h : 32 ≤ bs.length then .ok (⟨bs.take 32, by simp [h]⟩, bs.drop 32)
    else .error .unexpectedEnd

end Digest

end Cospend
