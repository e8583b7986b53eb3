import Cospend.Proofs.Export.Delivery
import Cospend.Proofs.Standin.Connection
import Mathlib.Data.Finset.Card

/-!
# A table as a set of rows

To insert rows into a table is to unite sets: neither the order of the rows, nor how they are put into batches, nor
how often they come makes a difference. So a partition that is exported again and again leaves the rows that it
leaves when it is exported once.
-/

namespace Cospend

namespace Relation

variable {t : Relation}

theorem nodup_rows (h : t.entries.Nodup) : t.rows.Nodup :=
  h.map (Function.LeftInverse.injective Entry.ofRow_toRow)

end Relation

namespace Row

variable {rows : List Row} {a : Address} {c : AddressId}

theorem firstOf_eq_none_iff : firstOf rows a = none ↔ ∀ r ∈ rows, r.address ≠ a := by
  simp [firstOf]

theorem mem_of_firstOf (h : firstOf rows a = some c) : ⟨c, a⟩ ∈ rows := by
  obtain ⟨r, hr, rfl⟩ := Option.map_eq_some_iff.mp h
  have haddress := List.find?_some hr
  rw [← eq_of_beq haddress]
  exact List.mem_of_find?_eq_some hr

end Row

/-! ## Repeated exports -/

/-- What is chosen for an export. -/
structure ExportChoice where
  workers : Nat
  batchSize : Nat
  schedule : Schedule

/-- Exports a partition into the same sink time and again: how the exports end, and what the sink is left
with. -/
def Partition.exportAll {σ : Type} (sink : Sink σ) :
    List ExportChoice → Partition → σ → List (Except (Failure ExportError) Nat) × σ
  | [], _, state => ([], state)
  | c :: cs, p, state =>
    let report := p.exportSink sink c.workers c.batchSize c.schedule state
    let (results, state) := exportAll sink cs report.partition report.destination
    (report.result :: results, state)

/-- Finalizing a partition again does not change its rows. -/
theorem Partition.Sound.mem_rows_finalize {p : Partition} (hp : p.Sound) {r : Row} :
    r ∈ p.finalize.finalize.rows ↔ r ∈ p.finalize.rows := by
  rw [(hp.finalize.sound hp).mem_rows, hp.mem_rows, hp.finalize.clusterOf_eq]

theorem Partition.length_rows_finalize (p : Partition) :
    p.finalize.finalize.rows.length = p.finalize.rows.length := by
  rw [length_rows, length_rows]
  rfl

namespace Database

variable {δ : Type} {db : Database δ} {Holds : δ → Relation → Prop} {Within : δ → Relation → Relation → Prop}
variable {s : δ} {t : Relation}

/-- The table of the database has the rows of a set, each once, and no others. What is asked of it is answered
from them. -/
structure Keeps (db : Database δ) (Holds : δ → Relation → Prop) (s : δ) (rows : Finset Row) : Prop where
  table : ∃ t, Holds s t ∧ t.rows.Nodup ∧ t.rows.toFinset = rows
  size : Answered (db.count s).1 (fun n => n.toNat = rows.card) (db.size s).1
  clusterOf (a : Address) : Answered (db.selectCluster a.text s).1
    (fun c => (c = none ↔ ∀ r ∈ rows, r.address ≠ a) ∧ ∀ id, c = some id → ⟨id, a⟩ ∈ rows) (db.clusterOf a s).1

namespace Lawful

theorem keeps (h : db.Lawful Holds Within) (hs : Holds s t) : db.Keeps Holds s t.rows.toFinset where
  table := ⟨t, hs, Relation.nodup_rows (h.primary_key hs), rfl⟩
  size := by
    rw [List.toFinset_card_of_nodup (Relation.nodup_rows (h.primary_key hs)), Relation.length_rows]
    exact (h.size hs).2
  clusterOf a := by
    refine (h.clusterOf hs a).2.imp ?_
    rintro _ rfl
    rw [Relation.clusterOf_eq]
    simp only [List.mem_toFinset]
    exact ⟨Row.firstOf_eq_none_iff, fun id hid => Row.mem_of_firstOf hid⟩

/-- Of a partition that is exported time and again some rows are inserted, and all of them as soon as one of the
exports succeeds. -/
theorem exportAll (h : db.Lawful Holds Within) (hs : Holds s t) {p : Partition} (hp : p.Sound)
    (choices : List ExportChoice) :
    let out := p.exportAll db.sink choices s
    ∃ rows, rows ⊆ p.finalize.rows ∧ Holds out.2 (t.insertRows rows) ∧
      ∀ n, .ok n ∈ out.1 → n = p.finalize.rows.length ∧ p.finalize.rows ⊆ rows := by
  induction choices generalizing p s t with
  | nil => exact ⟨[], List.nil_subset _, hs, nofun⟩
  | cons c cs ih =>
      obtain ⟨hpartition, rows, hrows, hfirst, hok⟩ :=
        h.exportSink hs p c.workers c.batchSize c.schedule
      obtain ⟨more, hmore, hholds, hoks⟩ := ih hfirst (hp.finalize.sound hp)
      rw [p.length_rows_finalize] at hoks
      rw [Partition.exportAll, hpartition]
      refine ⟨rows ++ more, ?_, ?_, fun n hn => ?_⟩
      · exact List.append_subset.mpr ⟨hrows, fun r hr => hp.mem_rows_finalize.mp (hmore hr)⟩
      · rw [Relation.insertRows_append]
        exact hholds
      · rcases List.mem_cons.mp hn with hn | hn
        · obtain ⟨hlength, hperm⟩ := hok n hn.symm
          exact ⟨hlength, fun r hr => List.mem_append_left _ (hperm.mem_iff.mpr hr)⟩
        · obtain ⟨hlength, hall⟩ := hoks n hn
          exact ⟨hlength, fun r hr => List.mem_append_right _ (hall (hp.mem_rows_finalize.mpr hr))⟩

end Lawful

end Database

end Cospend
