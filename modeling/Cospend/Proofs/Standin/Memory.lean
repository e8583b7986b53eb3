import Cospend.Proofs.Export.Database
import Cospend.Standin.Memory

/-!
# The database in memory keeps its promises
-/

namespace Cospend.Memory

/-- The table is the relation, and has no row twice. -/
def Holds (m : Memory) (t : Relation) : Prop := m.table = t ∧ t.entries.Nodup

/-- The transaction has made the one relation of the other. -/
def Within (m : Memory) (t u : Relation) : Prop := m.Holds t ∧ m.working = u ∧ u.entries.Nodup

theorem faultless : database.Faultless where
  begin _ := rfl
  prepare _ := rfl
  insertOrIgnore _ _ := rfl
  commit _ := rfl

end Cospend.Memory
