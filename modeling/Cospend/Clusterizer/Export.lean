import Cospend.Clusterizer.Basic
import Cospend.Export.Basic

/-!
# Exporting from a clusterizer

A clusterizer exports its own partition and publishes the events of the export.
-/

namespace Cospend.Clusterizer

variable {β τ : Type}

/-- The clusterizer after an export. -/
def afterExport (c : Clusterizer β) (r : ExportReport τ) : Clusterizer β :=
  { c with
    partition := r.partition
    published := c.published ++ r.events
    log := c.log ++ r.log }

def exportSheet {κ : Type} (c : Clusterizer β) (d : Directory κ) (path : String) :
    ExportReport (Directory κ) × Clusterizer β :=
  let r := c.partition.exportSheet d path
  (r, c.afterExport r)

/-- Exports to a sink, with the batches of the configuration. -/
def exportSink (c : Clusterizer β) (config : Configuration) (sink : Sink τ) (schedule : Schedule)
    (state : τ) : ExportReport τ × Clusterizer β :=
  let r := c.partition.exportSink sink config.workers config.batchSize schedule state
  (r, c.afterExport r)

end Cospend.Clusterizer
