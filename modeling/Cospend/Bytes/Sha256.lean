import Cospend.Bytes.LittleEndian

/-!
# SHA-256

The hash of a byte string, as the standard defines it: the message is padded to whole blocks of
sixty-four octets, and each block is compressed into a chaining value of eight words. `length_hash`
says that a hash has thirty-two octets.
-/

namespace Cospend.Sha256

/-- The chaining value between two blocks. -/
abbrev Chain := Vector UInt32 8

/-- The first thirty-two bits of the fractional parts of the square roots of the first eight primes. -/
def initial : Chain :=
  #v[0x6a09e667, 0xbb67ae85, 0x3c6ef372, 0xa54ff53a, 0x510e527f, 0x9b05688c, 0x1f83d9ab, 0x5be0cd19]

/-- The first thirty-two bits of the fractional parts of the cube roots of the first sixty-four
primes, one for each round. -/
def roundConstants : List UInt32 :=
  [0x428a2f98, 0x71374491, 0xb5c0fbcf, 0xe9b5dba5, 0x3956c25b, 0x59f111f1, 0x923f82a4, 0xab1c5ed5,
   0xd807aa98, 0x12835b01, 0x243185be, 0x550c7dc3, 0x72be5d74, 0x80deb1fe, 0x9bdc06a7, 0xc19bf174,
   0xe49b69c1, 0xefbe4786, 0x0fc19dc6, 0x240ca1cc, 0x2de92c6f, 0x4a7484aa, 0x5cb0a9dc, 0x76f988da,
   0x983e5152, 0xa831c66d, 0xb00327c8, 0xbf597fc7, 0xc6e00bf3, 0xd5a79147, 0x06ca6351, 0x14292967,
   0x27b70a85, 0x2e1b2138, 0x4d2c6dfc, 0x53380d13, 0x650a7354, 0x766a0abb, 0x81c2c92e, 0x92722c85,
   0xa2bfe8a1, 0xa81a664b, 0xc24b8b70, 0xc76c51a3, 0xd192e819, 0xd6990624, 0xf40e3585, 0x106aa070,
   0x19a4c116, 0x1e376c08, 0x2748774c, 0x34b0bcb5, 0x391c0cb3, 0x4ed8aa4a, 0x5b9cca4f, 0x682e6ff3,
   0x748f82ee, 0x78a5636f, 0x84c87814, 0x8cc70208, 0x90befffa, 0xa4506ceb, 0xbef9a3f7, 0xc67178f2]

def rotate (x : UInt32) (n : UInt32) : UInt32 := (x >>> n) ||| (x <<< (32 - n))

/-- Four octets as a word, the highest first. -/
def word (a b c d : UInt8) : UInt32 :=
  (a.toUInt32 <<< 24) ||| (b.toUInt32 <<< 16) ||| (c.toUInt32 <<< 8) ||| d.toUInt32

def wordBytes (x : UInt32) : Bytes :=
  [(x >>> 24).toUInt8, (x >>> 16).toUInt8, (x >>> 8).toUInt8, x.toUInt8]

/-- The words of an octet string, an incomplete last word left out. -/
def words : Bytes → List UInt32
  | a :: b :: c :: d :: rest => word a b c d :: words rest
  | _ => []

/-- The message with a set bit, the fewest zero bits that fill the last block, and its length in bits
in eight octets. -/
def pad (message : Bytes) : Bytes :=
  let bits := message.length * 8
  message ++ 0x80 :: List.replicate ((119 - message.length % 64) % 64) 0
    ++ (LittleEndian.encode 8 bits).reverse

/-- One more word of the schedule, from the words so far in reverse order. -/
def extendSchedule (reversed : List UInt32) : List UInt32 :=
  let at_ (i : Nat) := reversed.getD (i - 1) 0
  let s0 := rotate (at_ 15) 7 ^^^ rotate (at_ 15) 18 ^^^ (at_ 15 >>> 3)
  let s1 := rotate (at_ 2) 17 ^^^ rotate (at_ 2) 19 ^^^ (at_ 2 >>> 10)
  (at_ 16 + s0 + at_ 7 + s1) :: reversed

/-- The sixty-four words of the rounds, from the sixteen words of a block. -/
def schedule (block : List UInt32) : List UInt32 :=
  (Nat.repeat extendSchedule 48 block.reverse).reverse

/-- One round, with its constant and its word of the schedule added up. -/
def round (h : Chain) (add : UInt32) : Chain :=
  let s1 := rotate h[4] 6 ^^^ rotate h[4] 11 ^^^ rotate h[4] 25
  let choice := (h[4] &&& h[5]) ^^^ (~~~h[4] &&& h[6])
  let t1 := h[7] + s1 + choice + add
  let s0 := rotate h[0] 2 ^^^ rotate h[0] 13 ^^^ rotate h[0] 22
  let majority := (h[0] &&& h[1]) ^^^ (h[0] &&& h[2]) ^^^ (h[1] &&& h[2])
  #v[t1 + (s0 + majority), h[0], h[1], h[2], h[3] + t1, h[4], h[5], h[6]]

def compress (h : Chain) (block : List UInt32) : Chain :=
  let rounds := List.zipWith (· + ·) roundConstants (schedule block)
  Vector.zipWith (· + ·) h (rounds.foldl round h)

/-- The chaining value after the blocks of sixteen words that the given number of blocks holds. -/
def absorb : (blocks : Nat) → Chain → List UInt32 → Chain
  | 0, h, _ => h
  | blocks + 1, h, ws => absorb blocks (compress h (ws.take 16)) (ws.drop 16)

def hash (message : Bytes) : Bytes :=
  let ws := words (pad message)
  (absorb (ws.length / 16) initial ws).toList.flatMap wordBytes

@[simp] theorem length_hash (message : Bytes) : (hash message).length = 32 := by
  simp [hash, List.length_flatMap, wordBytes, List.map_const']

end Cospend.Sha256
