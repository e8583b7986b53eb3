import Cospend.Bytes.LittleEndian
import Cospend.Text.Utf8

/-!
# The wire form of values

A value is written as an octet string that shows its own end: numbers in a fixed width, a list and a
text behind a count of thirty-two bits, an optional value behind a flag. The fields of a record stand
in order with nothing between them. `Wire.decode` reads a value from the front of an octet string and
returns what follows it, `Wire.decodeAll` takes the octet string as one value.
-/

namespace Cospend

/-- Why an octet string is not the wire form of a value. -/
inductive DecodeError where
  | unexpectedEnd
  /-- The flag of an optional value is neither zero nor one. -/
  | badFlag (flag : UInt8)
  /-- The octets of a text are not UTF-8. -/
  | badText (fault : Utf8.Fault)
  /-- Octets follow a value that should have been the whole. -/
  | leftOver
  deriving DecidableEq, Repr

def DecodeError.message : DecodeError → String
  | .unexpectedEnd => "Unexpected length of input"
  | .badFlag flag =>
    s!"Invalid Option representation: {flag.toNat}. The first byte must be 0 or 1"
  | .badText fault => fault.message
  | .leftOver => "Not all bytes read"

/-- Reads a value from the front of an octet string. -/
abbrev Decoder (α : Type) := StateT Bytes (Except DecodeError) α

namespace Decoder

def octets (n : Nat) : Decoder Bytes := fun bs =>
  if n ≤ bs.length then .ok (bs.take n, bs.drop n) else .error .unexpectedEnd

/-- A number of `width` octets, the lowest first. -/
def nat (width : Nat) : Decoder Nat := do
  return LittleEndian.decode (← octets width)

/-- A whole number in the two's complement of `width` octets. -/
def int (width : Nat) : Decoder Int := do
  return LittleEndian.decodeInt (← octets width)

/-- `n` values, one after the other. -/
def replicate {α : Type} (d : Decoder α) : (n : Nat) → Decoder (List α)
  | 0 => return []
  | n + 1 => do
    let a ← d
    let as ← replicate d n
    return a :: as

end Decoder

/-- The values of a type have a wire form. -/
class Wire (α : Type) where
  encode : α → Bytes
  decoder : Decoder α

namespace Wire

variable {α : Type} [Wire α]

/-- The value at the front of an octet string, and the octets that follow it. -/
def decode (bs : Bytes) : Except DecodeError (α × Bytes) := decoder.run bs

/-- The value that an octet string is the wire form of. -/
def decodeAll (bs : Bytes) : Except DecodeError α := do
  let (a, rest) ← decode bs
  if rest.isEmpty then return a else throw .leftOver

/-! ## Numbers -/

instance : Wire UInt32 where
  encode n := LittleEndian.encode 4 n.toNat
  decoder := return UInt32.ofNat (← Decoder.nat 4)

instance : Wire UInt64 where
  encode n := LittleEndian.encode 8 n.toNat
  decoder := return UInt64.ofNat (← Decoder.nat 8)

/-! ## Texts, lists and optional values -/

instance : Wire String where
  encode s := encode (UInt32.ofNat (Bytes.ofText s).length) ++ Bytes.ofText s
  decoder := do
    let length : UInt32 ← decoder
    match Utf8.decode (← Decoder.octets length.toNat) with
    | .ok s => return s
    | .error fault => throw (.badText fault)

instance : Wire (List α) where
  encode as := encode (UInt32.ofNat as.length) ++ as.flatMap encode
  decoder := do
    let length : UInt32 ← decoder
    Decoder.replicate decoder length.toNat

instance : Wire (Option α) where
  encode
    | none => [0]
    | some a => 1 :: encode a
  decoder := do
    match ← Decoder.octets 1 with
    | [0] => return none
    | [1] => return some (← decoder)
    | bs => throw (.badFlag (bs.headD 0))

end Wire

end Cospend
