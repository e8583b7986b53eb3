import Cospend.Failure
import Cospend.Pool.Job

/-!
# Pools of workers

A pool starts with a fixed number of workers and has no queue: a job is handed over to a worker that is
idle, and whoever submits it waits until one is. A worker that has taken a job first runs it and then
reports how it ended, and other workers may move in between. Which worker moves next is decided by a
schedule, so a run of the pool is a function of its schedule and every interleaving is the run of
some schedule.

Jobs are submitted alone or as a group. The ends of the jobs of a group are collected, and the group
is over when no worker has one of its jobs any more. Of the jobs submitted alone the first error is
kept until the pool is closed.

A worker is lost with a job whose end is fatal, before it can report that end. Once all workers are
lost, nobody takes a job.
-/

namespace Cospend

/-- A job on its way through a pool. -/
structure Task (σ ε : Type) where
  /-- The number of jobs that workers took before it. -/
  number : Nat
  grouped : Bool
  job : Job σ ε

/-- What a worker is doing. -/
inductive Worker (σ ε : Type) where
  | idle
  /-- It has taken a job and has not run it yet. -/
  | holding (task : Task σ ε)
  /-- It has run a job and has not reported its end yet. -/
  | finished (grouped : Bool) (result : JobEnd ε)
  /-- It was lost with a job. -/
  | gone

namespace Worker

variable {σ ε : Type}

def isIdle : Worker σ ε → Bool
  | .idle => true
  | _ => false

def isGone : Worker σ ε → Bool
  | .gone => true
  | _ => false

/-- The worker has a job of a group, or the end of one. -/
def grouped : Worker σ ε → Bool
  | .holding t => t.grouped
  | .finished g _ => g
  | _ => false

/-- How many moves the worker has to make until it is idle or gone. -/
def load : Worker σ ε → Nat
  | .holding _ => 2
  | .finished _ _ => 1
  | _ => 0

end Worker

/-- Workers with the state that their jobs share. -/
structure Pool (σ ε : Type) where
  workers : List (Worker σ ε)
  shared : σ
  /-- How the jobs of the current group ended, in the order of the reports. -/
  inbox : List (JobEnd ε)
  /-- The first error reported of a job submitted alone. -/
  kept : Option (WorkerError ε)
  /-- How many jobs workers took. -/
  submitted : Nat
  /-- The numbers of the jobs that ran, in the order in which they ran. -/
  ran : List Nat
  clock : Nat

/-- A choice for every moment. The number is taken modulo that of the choices. -/
abbrev Schedule := Nat → Nat

/-- The first choice at every moment. -/
def Schedule.first : Schedule := fun _ => 0

namespace Pool

variable {σ ε : Type}

/-- A pool of idle workers, at least one, that starts at the given moment. -/
def start (workers : Nat) (shared : σ) (clock : Nat) : Pool σ ε :=
  ⟨List.replicate (max workers 1) .idle, shared, [], none, 0, [], clock⟩

/-- The most workers that an array can name. A name takes twenty-four octets, and an array fewer than
two to the power of sixty-three. -/
def workerLimit : Nat := 0x7FFFFFFFFFFFFFFF / 24

/-- A pool of the given size, unless no array can name its workers. -/
def start? (workers : Nat) (shared : σ) (clock : Nat) : Except Abort (Pool σ ε) :=
  if workers ≤ workerLimit then .ok (start workers shared clock) else .error .capacityOverflow

/-- How many moves the workers have to make until all are idle or gone. -/
def load (p : Pool σ ε) : Nat := p.workers.foldr (fun w load => w.load + load) 0

/-- The workers that are not gone. -/
def living (p : Pool σ ε) : List Nat :=
  (List.range p.workers.length).filter fun i => !(p.workers.getD i .gone).isGone

/-- The workers that have a move to make. -/
def busy (p : Pool σ ε) : List Nat :=
  (List.range p.workers.length).filter fun i => (p.workers.getD i .gone).load != 0

/-- The choice of the present moment, if there is something to choose from. -/
def pick (schedule : Schedule) (p : Pool σ ε) (choices : List Nat) : Option Nat :=
  choices[schedule p.clock % choices.length]?

/-- The pool at the next moment, with a worker doing something else. -/
def setWorker (p : Pool σ ε) (i : Nat) (w : Worker σ ε) : Pool σ ε :=
  { p with workers := p.workers.set i w, clock := p.clock + 1 }

/-- Takes note of how a job ended. -/
def report (p : Pool σ ε) (grouped : Bool) (result : JobEnd ε) : Pool σ ε :=
  if grouped then { p with inbox := p.inbox ++ [result] }
  else { p with kept := p.kept.or result.error? }

/-- A move of one worker. A worker that is idle or gone has none, and one whose job had a fatal end is
lost without a report. -/
def advance (p : Pool σ ε) (i : Nat) : Pool σ ε :=
  match p.workers.getD i .gone with
  | .idle => p
  | .gone => p
  | .holding task =>
    let (result, shared) := task.job p.shared
    { p.setWorker i (.finished task.grouped result) with
      shared, ran := p.ran ++ [task.number] }
  | .finished grouped result =>
    if result.isFatal then p.setWorker i .gone else (p.setWorker i .idle).report grouped result

/-! ## Handing jobs over -/

/-- Lets workers move until the chosen one is idle, and hands the task over to it. Where all workers are
gone, or get lost meanwhile, the task is refused. -/
def handOver (schedule : Schedule) (task : Task σ ε) :
    (left : Nat) → Pool σ ε → Option (WorkerError ε) × Pool σ ε
  | 0, p =>
    match p.pick schedule p.living with
    | none => (some .poolClosed, p)
    | some i => (none, p.setWorker i (.holding task))
  | left + 1, p =>
    match p.pick schedule p.living with
    | none => (some .poolClosed, p)
    | some i =>
      if (p.workers.getD i .gone).isIdle then (none, p.setWorker i (.holding task))
      else handOver schedule task left (p.advance i)

/-- Hands a job over as soon as a worker is idle. -/
def take (schedule : Schedule) (grouped : Bool) (p : Pool σ ε) (job : Job σ ε) :
    Option (WorkerError ε) × Pool σ ε :=
  match handOver schedule ⟨p.submitted, grouped, job⟩ p.load p with
  | (none, p) => (none, { p with submitted := p.submitted + 1 })
  | (some e, p) => (some e, p)

/-- Hands jobs over one after the other, until one is refused. -/
def takeAll (schedule : Schedule) (grouped : Bool) :
    List (Job σ ε) → Pool σ ε → Option (WorkerError ε) × Pool σ ε
  | [], p => (none, p)
  | job :: jobs, p =>
    match p.take schedule grouped job with
    | (none, p) => takeAll schedule grouped jobs p
    | (some e, p) => (some e, p)

def submit (schedule : Schedule) (p : Pool σ ε) (job : Job σ ε) : Option (WorkerError ε) × Pool σ ε :=
  p.take schedule false job

/-! ## Waiting for jobs -/

/-- A move of one of the workers that have one to make. -/
def advanceBusy (schedule : Schedule) (p : Pool σ ε) : Pool σ ε :=
  match p.pick schedule p.busy with
  | none => p
  | some i => p.advance i

/-- Lets workers move until none has a job of a group, or the end of one. -/
def awaitGroup (schedule : Schedule) : (left : Nat) → Pool σ ε → Pool σ ε
  | 0, p => p
  | left + 1, p =>
    if p.workers.any Worker.grouped then awaitGroup schedule left (p.advanceBusy schedule) else p

/-- Lets workers move until all are idle or gone. -/
def awaitIdle (schedule : Schedule) : (left : Nat) → Pool σ ε → Pool σ ε
  | 0, p => p
  | left + 1, p => awaitIdle schedule left (p.advanceBusy schedule)

def firstError? (ends : List (JobEnd ε)) : Option (WorkerError ε) := ends.findSome? JobEnd.error?

/-- What a group of which workers took `count` jobs is answered, once no worker has one of them. The
first error reported comes before the ends that nobody will report. -/
def groupAnswer (count : Nat) (inbox : List (JobEnd ε)) : Option (WorkerError ε) :=
  (firstError? inbox).or (if inbox.length < count then some .poolClosed else none)

/-- Runs a group of jobs and waits until all of them have ended. A job that is refused, and all jobs
after it, are not run, and then the error is that of the refusal. -/
def executeAll (schedule : Schedule) (p : Pool σ ε) (jobs : List (Job σ ε)) :
    Option (WorkerError ε) × Pool σ ε :=
  let (refusal, q) := takeAll schedule true jobs { p with inbox := [] }
  let r := q.awaitGroup schedule q.load
  (refusal.or (groupAnswer (q.submitted - p.submitted) r.inbox), r)

/-- Waits until no worker has a job, and takes no more jobs. -/
def shutDown (schedule : Schedule) (p : Pool σ ε) : Pool σ ε := p.awaitIdle schedule p.load

/-- Shuts the pool down. An error is the first one reported of the jobs that were submitted alone. -/
def close (schedule : Schedule) (p : Pool σ ε) : Option (WorkerError ε) × Pool σ ε :=
  let p := p.shutDown schedule
  (p.kept, p)

end Pool

end Cospend
