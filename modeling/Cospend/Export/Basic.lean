import Cospend.Event.Basic
import Cospend.Export.Directory
import Cospend.Export.Sink
import Cospend.Log

/-!
# Exporting clusters

An export first finalizes the partition, then writes a row for each registered address to a
destination: a file of lines or a sink. It tells of its success by an event and of an error by a log
record, and of neither if it is abandoned.
-/

namespace Cospend

/-- Why an export did not succeed. -/
inductive ExportError where
  | io (reason : String)
  /-- The sink did not take a batch. -/
  | worker (e : WorkerError SinkError)
  deriving DecidableEq, Repr

def ExportError.message : ExportError → String
  | .io reason => "export I/O error: " ++ reason
  | .worker e => e.message SinkError.message

/-- What an export did. -/
structure ExportReport (τ : Type) where
  /-- The number of addresses written, or why they were not. -/
  result : Except (Failure ExportError) Nat
  partition : Partition
  destination : τ
  events : List Event
  log : List LogRecord

namespace Partition

/-- Finalizes a partition and writes its rows by `write`, which also returns the destination
afterwards. `told` is the name of the destination in the event, `blamed` the one in the log. -/
def exportWith {τ : Type} (p : Partition) (told blamed : String)
    (write : List Row → Except (Failure ExportError) Unit × τ) : ExportReport τ :=
  let p := p.finalize
  let (result, destination) := write p.rows
  match result with
  | .ok () =>
    { result := .ok p.rows.length, partition := p, destination
      events := [.finalized p.size, .exported told p.rows.length p.countRoots], log := [] }
  | .error (.error e) =>
    { result := .error (.error e), partition := p, destination, events := [.finalized p.size]
      log := [⟨.error, "failed to export to " ++ blamed ++ ": " ++ e.message⟩] }
  | .error (.abort a) =>
    { result := .error (.abort a), partition := p, destination, events := [.finalized p.size], log := [] }

/-- Writes rows to a file of lines. -/
def writeLines {κ : Type} (d : Directory κ) (path : String) (rows : List Row) :
    Except (Failure ExportError) Unit × Directory κ :=
  match d.writeSheet path (Row.sheet rows) with
  | .ok d => (.ok (), d)
  | .error e => (.error (.error (.io e.message)), d)

/-- Exports to a file of lines, which is written afresh. -/
def exportSheet {κ : Type} (p : Partition) (d : Directory κ) (path : String) : ExportReport (Directory κ) :=
  p.exportWith (d.pathOf path) (d.pathOf path) (writeLines d path)

/-- Inserts rows into a sink. -/
def writeBatches {σ : Type} (sink : Sink σ) (workers batchSize : Nat) (schedule : Schedule) (state : σ)
    (rows : List Row) : Except (Failure ExportError) Unit × σ :=
  let (result, state) := sink.insertAll workers batchSize schedule rows state
  (result.mapError (Failure.map .worker), state)

def exportSink {σ : Type} (p : Partition) (sink : Sink σ) (workers batchSize : Nat)
    (schedule : Schedule) (state : σ) : ExportReport σ :=
  p.exportWith "sink" "sink" (writeBatches sink workers batchSize schedule state)

end Partition

end Cospend
