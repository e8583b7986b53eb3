import Cospend.Chain.Address
import Cospend.Chain.Digest

/-!
# Transactions

A transaction spends outputs of earlier transactions and makes outputs of its own. Only what
clustering needs is kept: which output an input spends, and which address owns an output.
-/

namespace Cospend

/-- An output of a transaction, named by the transaction and its place among the outputs. -/
structure Outpoint where
  transaction : Digest
  index : UInt32
  deriving DecidableEq, Repr

/-- The outpoint that an input carries which makes new coins. -/
def Outpoint.coinbase : Outpoint := ⟨Digest.zero, 0xFFFFFFFF⟩

structure Input where
  spends : Outpoint
  deriving DecidableEq, Repr

/-- The input spends nothing: the transaction that it names is the zero digest. -/
def Input.isCoinbase (i : Input) : Bool := i.spends.transaction.isZero

structure Output where
  value : UInt64
  /-- The owner, if the output belongs to an address. -/
  address : Option Address
  deriving DecidableEq, Repr

structure Transaction where
  inputs : List Input
  outputs : List Output
  deriving DecidableEq, Repr

instance : Wire Outpoint where
  encode o := Wire.encode o.transaction ++ Wire.encode o.index
  decoder := return ⟨← Wire.decoder, ← Wire.decoder⟩

instance : Wire Input where
  encode i := Wire.encode i.spends
  decoder := return ⟨← Wire.decoder⟩

instance : Wire Output where
  encode o := Wire.encode o.value ++ Wire.encode o.address
  decoder := return ⟨← Wire.decoder, ← Wire.decoder⟩

namespace Transaction

instance : Wire Transaction where
  encode t := Wire.encode t.inputs ++ Wire.encode t.outputs
  decoder := return ⟨← Wire.decoder, ← Wire.decoder⟩

/-- The digest of the wire form, by which other transactions name this one. -/
def id (t : Transaction) : Digest := Digest.ofMessage (Wire.encode t)

/-- There is an input, and no input spends anything. -/
def isCoinbase (t : Transaction) : Bool := !t.inputs.isEmpty && t.inputs.all Input.isCoinbase

end Transaction

end Cospend
