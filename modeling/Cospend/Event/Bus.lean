import Cospend.Event.Basic

/-!
# The event bus

Published events wait in a queue, and a thread of their own hands each of them to the handlers of its
kind. Closing the bus returns after the queue has run empty.
-/

namespace Cospend

/-- The handlers of each kind of event, in the order in which they are called. -/
structure Handlers (α : Type) where
  ofKind : EventKind → List (Event → α)

namespace Handlers

variable {α : Type}

/-- A logger for every kind, if there is one, and after it the handler that was registered. -/
def make (logger : Option (Event → α)) (registered : EventKind → Option (Event → α)) :
    Handlers α where
  ofKind k := logger.toList ++ (registered k).toList

/-- What the handlers make of an event. -/
def handle (h : Handlers α) (e : Event) : List α := (h.ofKind e.kind).map fun handler => handler e

end Handlers

/-- Published events on their way to the handlers. -/
structure Bus (α : Type) where
  /-- The events that were not handled yet, the oldest first. -/
  queue : List Event
  /-- What the handlers made of the events so far. -/
  handled : List α

namespace Bus

variable {α : Type}

def empty : Bus α := ⟨[], []⟩

/-- Puts an event at the end of the queue. -/
def publish (b : Bus α) (e : Event) : Bus α := { b with queue := b.queue ++ [e] }

/-- Handles the oldest event of the queue, if there is one. -/
def handleNext (h : Handlers α) (b : Bus α) : Bus α :=
  match b.queue with
  | [] => b
  | e :: queue => ⟨queue, b.handled ++ h.handle e⟩

def close (h : Handlers α) (b : Bus α) : Bus α :=
  Nat.repeat (handleNext h) b.queue.length b

end Bus

end Cospend
