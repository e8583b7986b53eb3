import Cospend.Export.Sink

/-!
# A sink that remembers its batches

A recorder keeps the batches it was handed, as they came. It may refuse the batches that hold a given
address, or give up at them.
-/

namespace Cospend

/-- The batches handed over so far, and which ones are not taken. -/
structure Recorder where
  /-- The batches, in the order in which they came. -/
  batches : List (List Row)
  /-- Batches with this address are refused. -/
  failOn : Option Address
  /-- Batches with this address are given up at. -/
  abortOn : Option Address
  reason : String

namespace Recorder

/-- One of the rows has the address. -/
def mentions (rows : List Row) (a : Option Address) : Bool :=
  rows.any fun r => some r.address == a

def sink : Sink Recorder where
  insertIfAbsent rows r :=
    if mentions rows r.abortOn then (.aborted, r)
    else if mentions rows r.failOn then (.failed ⟨r.reason⟩, r)
    else (.done, { r with batches := r.batches ++ [rows] })

def compareRows (a b : Row) : Ordering :=
  (compare a.address b.address).then (compare a.cluster.toNat b.cluster.toNat)

/-- The order of batches by their rows, from the first on. -/
def compareBatches : List Row → List Row → Ordering
  | [], [] => .eq
  | [], _ => .lt
  | _, [] => .gt
  | a :: as, b :: bs => (compareRows a b).then (compareBatches as bs)

def sorted (r : Recorder) : List (List Row) :=
  sortBy (fun a b => (compareBatches a b).isLE) r.batches

end Recorder

end Cospend
