/-!
# Jobs

A job acts on a state that it shares with other jobs and ends in one of four ways. A worker that runs a
job outlives it, unless the job is given up and what it left behind cannot even be thrown away.
-/

namespace Cospend

inductive JobEnd (ε : Type) where
  | done
  | failed (e : ε)
  | aborted
  /-- The job was given up, and throwing away what it left behind is given up as well. -/
  | fatal
  deriving DecidableEq, Repr

def JobEnd.isFatal {ε : Type} : JobEnd ε → Bool
  | .fatal => true
  | _ => false

/-- A unit of work on a shared state. -/
abbrev Job (σ ε : Type) := σ → JobEnd ε × σ

/-- What a pool of workers reports of jobs that did not succeed. -/
inductive WorkerError (ε : Type) where
  | job (e : ε)
  | jobAborted
  /-- No worker is left to take a job or to report its end. -/
  | poolClosed
  deriving DecidableEq, Repr

/-- The error that the end of a job is to be reported as. -/
def JobEnd.error? {ε : Type} : JobEnd ε → Option (WorkerError ε)
  | .done => none
  | .failed e => some (.job e)
  | .aborted => some .jobAborted
  | .fatal => some .jobAborted

/-- The text of a worker error, given the texts of the jobs' own errors. -/
def WorkerError.message {ε : Type} (text : ε → String) : WorkerError ε → String
  | .job e => "job failed: " ++ text e
  | .jobAborted => "job panicked"
  | .poolClosed => "worker pool is closed"

end Cospend
