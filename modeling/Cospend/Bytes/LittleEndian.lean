import Cospend.Bytes.Basic

/-!
# Little-endian integers

A natural number in a fixed number of octets, the lowest first, and a whole number in two's
complement over the same octets. `decode_encode` says that a number is read back modulo the width,
`encode_decode` that every octet string of the width is the written form of what it reads as.
-/

namespace Cospend.LittleEndian

/-- How many numbers there are of the given number of octets. -/
def span : (width : Nat) → Nat
  | 0 => 1
  | width + 1 => 256 * span width

/-- The `width` lowest octets of `n`, the lowest first. -/
def encode : (width : Nat) → (n : Nat) → Bytes
  | 0, _ => []
  | width + 1, n => UInt8.ofNat n :: encode width (n / 256)

/-- The number whose octets, the lowest first, are given. -/
def decode : Bytes → Nat
  | [] => 0
  | b :: bs => b.toNat + 256 * decode bs

/-- The two's complement of `n` in `width` octets. -/
def encodeInt (width : Nat) (n : Int) : Bytes := encode width (n % span width).toNat

/-- The whole number whose two's complement is given. -/
def decodeInt (bs : Bytes) : Int := (decode bs : Int).bmod (span bs.length)

@[simp] theorem length_encode (width n : Nat) : (encode width n).length = width := by
  induction width generalizing n with
  | zero => rfl
  | succ width ih => simp [encode, ih]

@[simp] theorem length_encodeInt (width : Nat) (n : Int) : (encodeInt width n).length = width :=
  length_encode _ _

theorem decode_encode (width n : Nat) : decode (encode width n) = n % span width := by
  induction width generalizing n with
  | zero => simp [encode, decode, span, Nat.mod_one]
  | succ width ih =>
    rw [encode, decode, UInt8.toNat_ofNat', ih, span, Nat.mod_mul]

theorem decode_lt (bs : Bytes) : decode bs < span bs.length := by
  induction bs with
  | nil => simp [decode, span]
  | cons b bs ih =>
    have hb : b.toNat < 256 := b.toNat_lt
    simp only [decode, List.length_cons, span]
    omega

theorem encode_decode (bs : Bytes) : encode bs.length (decode bs) = bs := by
  induction bs with
  | nil => rfl
  | cons b bs ih =>
    have hb : b.toNat < 256 := b.toNat_lt
    have hlow : UInt8.ofNat (b.toNat + 256 * decode bs) = b := by
      apply UInt8.toNat_inj.1
      rw [UInt8.toNat_ofNat']
      omega
    have hrest : (b.toNat + 256 * decode bs) / 256 = decode bs := by omega
    simp [encode, decode, hlow, hrest, ih]

end Cospend.LittleEndian
