import Cospend.Proofs.Export.Report
import Cospend.Proofs.Partition.Staging
import Cospend.Proofs.Partition.Stored

/-!
# Sessions

A session is a partition at work over a store. Its changes are staged in one batch, which is written or
given up from time to time. After a batch was given up, or could not be written, the partition may be
ahead of the store, and it has to be read back before anything else is done.
-/

namespace Cospend

/-! ## Calls -/

/-- One operation of a session. -/
inductive Call : Type 1 where
  | register (a : Address)
  | find (a : Address)
  | union (a b : Address)
  | setHeight (h : Height)
  | finalize
  | exportSheet {κ : Type} (d : Directory κ) (path : String)
  | exportSink {τ : Type} (sink : Sink τ) (workers batchSize : Nat) (schedule : Schedule) (state : τ)
  | flush (fault : Option String)
  | drop
  | restore (faults : Faults)

namespace Call

/-- The call shortens ways and stages nothing. -/
def isFinalize : Call → Bool
  | .finalize | .exportSheet .. | .exportSink .. => true
  | _ => false

/-- The call gives the current batch up. -/
def givesUp : Call → Bool
  | .drop | .restore _ | .flush (some _) => true
  | _ => false

/-- The call reads the partition back. -/
def isRestore : Call → Bool
  | .restore _ => true
  | _ => false

end Call

/-- What a call answers. -/
abbrev Answer := Except (Failure PartitionError) (Option Nat)

/-- A partition at work over a store. -/
structure Session (β : Type) where
  store : Store
  workspace : Workspace β
  /-- A batch was given up and the partition was not read back since. -/
  lost : Bool

namespace Session

variable {β : Type} [WriteBatch β]

/-- The partition in memory. -/
abbrev partition (s : Session β) : Partition := s.workspace.partition

/-- The current batch. -/
abbrev pending (s : Session β) : Pending β := s.workspace.pending

/-- The empty partition over an empty store. -/
def start : Session β := ⟨Store.empty, ⟨Partition.empty, Pending.empty⟩, false⟩

/-- Works on the partition with the current batch. -/
def work (s : Session β) (x : Work β Nat) : Answer × Session β :=
  ((x s.workspace).1.map some, { s with workspace := (x s.workspace).2 })

/-- Puts another partition in the place of the one in memory. -/
def replace (s : Session β) (p : Partition) : Session β :=
  { s with workspace := { s.workspace with partition := p } }

/-- Makes a call. A new batch takes the place of one that was written or given up. -/
def perform (s : Session β) : Call → Answer × Session β
  | .register a => s.work (Workspace.register a)
  | .find a => s.work (Workspace.find a)
  | .union a b => s.work (Workspace.union a b)
  | .setHeight h =>
    (.ok none, { s with workspace := { s.workspace with pending := s.pending.stage .height h } })
  | .finalize => (.ok none, s.replace s.partition.finalize)
  | .exportSheet d path => (.ok none, s.replace (s.partition.exportSheet d path).partition)
  | .exportSink sink workers batchSize schedule state =>
    (.ok none, s.replace (s.partition.exportSink sink workers batchSize schedule state).partition)
  | .flush fault =>
    match s.partition.flush (s.store.withFaults { write := fun _ => fault }) s.pending with
    | (.ok (), p, store) => (.ok none, ⟨store, ⟨p, .empty⟩, false⟩)
    | (.error e, p, store) => (.error (.error e), ⟨store, ⟨p, .empty⟩, true⟩)
  | .drop => (.ok none, ⟨s.store, ⟨s.partition, .empty⟩, true⟩)
  | .restore faults =>
    match s.partition.restore (s.store.withFaults faults) with
    | (.ok (), p) => (.ok none, ⟨s.store, ⟨p, .empty⟩, false⟩)
    | (.error e, p) => (.error e, ⟨s.store, ⟨p, .empty⟩, true⟩)

/-- Makes calls in order. The calls are returned with their answers. -/
def run (s : Session β) : List Call → List (Call × Answer) × Session β
  | [] => ([], s)
  | c :: cs =>
    let (trace, s') := (s.perform c).2.run cs
    ((c, (s.perform c).1) :: trace, s')

/-- The sessions that come about by usable calls, where nothing but reading back follows the loss of a
batch. -/
inductive Reachable (usable : Call → Prop) : Session β → Prop
  | start : Reachable usable start
  | call {s : Session β} {c : Call} (h : Reachable usable s) (hc : usable c)
      (hlost : s.lost = true → c.isRestore = true) : Reachable usable (s.perform c).2

/-- The store overlaid with the current batch. -/
def overlay (s : Session β) : Table := WriteBatch.applyTo s.pending.writes s.store.table

/-! ## What the calls do -/

variable {s : Session β} {p : Partition}

theorem perform_finalize {c : Call} (hc : c.isFinalize = true) :
    s.perform c = (.ok none, s.replace s.partition.finalize) := by
  cases c with
  | finalize => rfl
  | exportSheet d path => rw [perform, (Partition.exportSheet_leaves _ _ _).1]
  | exportSink sink workers batchSize schedule state =>
      rw [perform, (Partition.exportSink_leaves _ _ _ _ _ _).1]
  | _ => cases hc

theorem perform_flush_none :
    s.perform (.flush none) = (.ok none,
      ⟨⟨s.overlay, { write := fun _ => none }, 1⟩,
        ⟨s.partition.checkpointed s.pending.checkpoint, .empty⟩, false⟩) := rfl

theorem perform_flush_some (reason : String) :
    s.perform (.flush (some reason)) = (.error (.error (.store ⟨reason⟩)),
      ⟨⟨s.store.table, { write := fun _ => some reason }, 1⟩, ⟨s.partition, .empty⟩, true⟩) := rfl

theorem perform_restore_of_ok {faults : Faults}
    (h : Partition.load (s.store.withFaults faults) = .ok p) :
    s.perform (.restore faults) = (.ok none, ⟨s.store, ⟨p, .empty⟩, false⟩) := by
  simp only [perform, Partition.restore, h]

theorem perform_restore_of_error {faults : Faults} {e : Failure PartitionError}
    (h : Partition.load (s.store.withFaults faults) = .error e) :
    s.perform (.restore faults) = (.error e, ⟨s.store, ⟨s.partition, .empty⟩, true⟩) := by
  simp only [perform, Partition.restore, h]

theorem lost_perform (hlost : s.lost = false) {c : Call} (hc : c.givesUp = false) :
    (s.perform c).2.lost = false := by
  cases c with
  | register a => exact hlost
  | find a => exact hlost
  | union a b => exact hlost
  | setHeight height => exact hlost
  | finalize => exact hlost
  | exportSheet d path => exact hlost
  | exportSink sink workers batchSize schedule state => exact hlost
  | flush fault =>
      cases fault with
      | none => rfl
      | some reason => cases hc
  | drop => cases hc
  | restore faults => cases hc

/-- As long as no batch is given up, any calls may follow each other. -/
theorem Reachable.run {usable : Call → Prop} (h : Reachable usable s) (hlost : s.lost = false)
    {cs : List Call} (hcs : ∀ c ∈ cs, usable c ∧ c.givesUp = false) :
    Reachable usable (s.run cs).2 := by
  induction cs generalizing s with
  | nil => exact h
  | cons c cs ih =>
      obtain ⟨⟨hc, hkeeps⟩, hcs⟩ := List.forall_mem_cons.mp hcs
      exact ih (.call h hc (by simp [hlost])) (lost_perform hlost hkeeps) hcs

/-- What becomes of a session in a call. While a batch is lost, nothing but the last two ways is open. -/
inductive Becomes (s : Session β) (c : Call) : Session β → Prop
  | worked {w : Workspace β} (hlost : s.lost = false) (hw : Workspace.Edits s.workspace w) :
      Becomes s c { s with workspace := w }
  | measured (hlost : s.lost = false) (height : Height) : Becomes s c (s.perform (.setHeight height)).2
  | finalized (hlost : s.lost = false) (hc : c.isFinalize = true) :
      Becomes s c (s.replace s.partition.finalize)
  | written (hlost : s.lost = false) : Becomes s c (s.perform (.flush none)).2
  | givenUp {store : Store} (ht : store.table = s.store.table) :
      Becomes s c ⟨store, ⟨s.partition, .empty⟩, true⟩
  | readBack {faults : Faults} {p : Partition}
      (h : Partition.load (s.store.withFaults faults) = .ok p) :
      Becomes s c ⟨s.store, ⟨p, .empty⟩, false⟩

theorem becomes_restore (faults : Faults) :
    Becomes s (.restore faults) (s.perform (.restore faults)).2 := by
  cases hload : Partition.load (s.store.withFaults faults) with
  | error e =>
      rw [perform_restore_of_error hload]
      exact .givenUp rfl
  | ok p =>
      rw [perform_restore_of_ok hload]
      exact .readBack hload

theorem becomes_perform {c : Call} (hs : s.lost = false → s.partition.Sound)
    (hlost : s.lost = true → c.isRestore = true) : Becomes s c (s.perform c).2 := by
  cases hl : s.lost with
  | true =>
      cases c with
      | restore faults => exact becomes_restore faults
      | _ => cases hlost hl
  | false =>
      have hfinalize : c.isFinalize = true → Becomes s c (s.perform c).2 := by
        intro hc
        rw [perform_finalize hc]
        exact .finalized hl hc
      cases c with
      | register a => exact .worked hl (Workspace.edits_register s.workspace a)
      | find a => exact .worked hl (Workspace.edits_find s.workspace a)
      | union a b => exact .worked hl (Workspace.edits_union (hs hl) a b)
      | setHeight height => exact .measured hl height
      | finalize => exact hfinalize rfl
      | exportSheet d path => exact hfinalize rfl
      | exportSink sink workers batchSize schedule state => exact hfinalize rfl
      | flush fault =>
          cases fault with
          | none => exact .written hl
          | some reason =>
              rw [perform_flush_some]
              exact .givenUp rfl
      | drop => exact .givenUp rfl
      | restore faults => exact becomes_restore faults

end Session

end Cospend
