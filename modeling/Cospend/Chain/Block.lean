import Cospend.Chain.Height
import Cospend.Chain.Transaction

/-!
# Blocks

A block lists the transactions at one height of the chain. Its digest covers the height and the
list.
-/

namespace Cospend

structure Block where
  height : Height
  /-- The digest of the block, as its ledger gave it. -/
  hash : Digest
  transactions : List Digest
  deriving DecidableEq, Repr

namespace Block

/-- The digest of a block: of its height in four octets, followed by its transactions. -/
def digest (height : Height) (transactions : List Digest) : Digest :=
  Digest.ofMessage (LittleEndian.encodeInt 4 height.toInt ++ transactions.flatMap Digest.bytes)

/-- The block with the given height and transactions and the digest that belongs to them. -/
def make (height : Height) (transactions : List Digest) : Block :=
  ⟨height, digest height transactions, transactions⟩

instance : Wire Block where
  encode b := Wire.encode b.height ++ Wire.encode b.hash ++ Wire.encode b.transactions
  decoder := return ⟨← Wire.decoder, ← Wire.decoder, ← Wire.decoder⟩

end Block

end Cospend
