import Cospend.Export.Row
import Cospend.Pool.Basic

/-!
# Sinks for rows

A sink takes rows that it does not have yet and skips the others. The export hands it the rows in
batches, each batch as a job of its own.
-/

namespace Cospend

structure SinkError where
  reason : String
  deriving DecidableEq, Repr

def SinkError.message (e : SinkError) : String := "sink error: " ++ e.reason

/-- Takes rows into a state. -/
structure Sink (σ : Type) where
  insertIfAbsent : List Row → Job σ SinkError

/-- Cuts a list into pieces of `n` elements, the last of them perhaps shorter, where `left` is at
least the number of pieces. -/
def pieces {α : Type} (n : Nat) : (left : Nat) → List α → List (List α)
  | 0, _ => []
  | _, [] => []
  | left + 1, as => as.take n :: pieces n left (as.drop n)

/-- The rows in batches of the given size, which is at least one. -/
def Row.batches (size : Nat) (rows : List Row) : List (List Row) :=
  pieces (max size 1) rows.length rows

/-- Inserts rows in batches, each of them as a job of a new pool, and waits for all of them. Once a batch is
refused no more are submitted, and the error is that of the refusal. No batch is inserted if the pool cannot
be started. -/
def Sink.insertAll {σ : Type} (sink : Sink σ) (workers batchSize : Nat) (schedule : Schedule)
    (rows : List Row) (state : σ) : Except (Failure (WorkerError SinkError)) Unit × σ :=
  match Pool.start? workers state 0 with
  | .error a => (.error (.abort a), state)
  | .ok pool =>
    let jobs := (Row.batches batchSize rows).map sink.insertIfAbsent
    let (refusal, pool) := Pool.takeAll schedule false jobs pool
    -- a pool that is given up waits for its workers as one that is closed does
    let (e, pool) := pool.close schedule
    (Failure.answer (refusal.or e), pool.shared)

end Cospend
