import Cospend.Chain.Digest
import Cospend.Chain.Height

/-!
# Events

An event is published after what it tells of: a checkpoint after its batch was written, an export
after its rows were. The log shows an event as values separated by commas.
-/

namespace Cospend

inductive Event where
  /-- The partition was read back from the store. -/
  | restored (height : Option Height) (size : Nat)
  | blockStarted (height : Height) (block : Digest) (transactions : Nat)
  /-- The merges of a block and its height were written together. -/
  | checkpointed (height : Height) (size : Nat) (writes : Nat)
  | caughtUp (height : Option Height)
  /-- Every way to a root was shortened to one step. -/
  | finalized (size : Nat)
  | exported (destination : String) (addresses clusters : Nat)
  deriving DecidableEq, Repr

inductive EventKind where
  | restored
  | blockStarted
  | checkpointed
  | caughtUp
  | finalized
  | exported
  deriving DecidableEq, Repr

namespace Event

def kind : Event → EventKind
  | .restored .. => .restored
  | .blockStarted .. => .blockStarted
  | .checkpointed .. => .checkpointed
  | .caughtUp .. => .caughtUp
  | .finalized .. => .finalized
  | .exported .. => .exported

def name : Event → String
  | .restored .. => "Restore"
  | .blockStarted .. => "StartBlock"
  | .checkpointed .. => "Checkpoint"
  | .caughtUp .. => "CaughtUp"
  | .finalized .. => "Finalize"
  | .exported .. => "Export"

/-- A height in the log, with a dash if there is none. -/
def heightText : Option Height → String
  | none => "-"
  | some h => h.text

/-- What the log tells of an event. -/
def details : Event → List String
  | .restored height size => [heightText height, toString size]
  | .blockStarted height block transactions =>
    [height.text, block.shortText, toString transactions]
  | .checkpointed height size writes => [height.text, toString size, toString writes]
  | .caughtUp height => [heightText height]
  | .finalized size => [toString size]
  | .exported destination addresses clusters =>
    [destination, toString addresses, toString clusters]

/-- The line of an event in the log: its name, the time in seconds, and what there is to tell,
separated by commas. -/
def line (seconds : String) (e : Event) : String :=
  ", ".intercalate (e.name :: seconds :: e.details)

end Event

end Cospend
