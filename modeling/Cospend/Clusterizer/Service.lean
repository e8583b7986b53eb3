import Cospend.Clusterizer.Export
import Cospend.Clusterizer.Step
import Cospend.Event.Bus

/-!
# A clusterizer in service

A clusterizer in service has its set-up and its handlers. The events that it published are handled
when it is taken out of service, at the latest.
-/

namespace Cospend

/-- A clusterizer with its set-up and its handlers. -/
structure Service (β α : Type) where
  clusterizer : Clusterizer β
  config : Configuration
  handlers : Handlers α

namespace Service

variable {β α τ : Type} [WriteBatch β]

/-- Runs an action over a store. The log records of the action alone are returned, and the store
afterwards. -/
def act {γ : Type} (s : Service β α) (store : Store) (x : Action β γ) :
    Except (Failure ClusterizerError) γ × List LogRecord × Store × Service β α :=
  let (result, c) := x { s.clusterizer with store, log := [] }
  (result, c.log, c.store, { s with clusterizer := { c with log := [] } })

/-- What the handlers made of the published events, once all are handled. -/
def stop (s : Service β α) : List α :=
  ((s.clusterizer.published.foldl Bus.publish Bus.empty).close s.handlers).handled

end Service

end Cospend
