import Cospend.Export.Relation
import Mathlib.Data.List.Nodup

/-!
# Rows of a relation

A relation gives no row up and has none twice. So it holds each row that was ever inserted, and for an
address it keeps the cluster with which the address came first.
-/

namespace Cospend

/-- The cluster of the first row that an address has. -/
def Row.firstOf (rows : List Row) (a : Address) : Option AddressId :=
  (rows.find? fun r => r.address == a).map Row.cluster

namespace Relation

variable {t : Relation} {rows : List Row} {r : Row} {a : Address}

@[simp] theorem Entry.toRow_ofRow (r : Row) : (Entry.ofRow r).toRow = r := by
  simp [Entry.ofRow, Entry.toRow]

@[simp] theorem Entry.ofRow_toRow (e : Entry) : Entry.ofRow e.toRow = e := by
  simp [Entry.ofRow, Entry.toRow]

theorem mem_rows : r ∈ t.rows ↔ Entry.ofRow r ∈ t.entries := by
  rw [rows, List.mem_map]
  constructor
  · rintro ⟨e, he, rfl⟩
    rwa [Entry.ofRow_toRow]
  · intro h
    exact ⟨_, h, Entry.toRow_ofRow r⟩

theorem length_rows : t.rows.length = t.size := List.length_map _

theorem clusterOf_eq (t : Relation) (a : Address) : t.clusterOf a = Row.firstOf t.rows a := by
  have hkey : ∀ e : Entry, (e.toRow.address == a) = (e.address == a.text) := by
    intro e
    cases a
    simp [Entry.toRow, BEq.beq]
  rw [clusterOf, firstCluster, Row.firstOf, rows, List.find?_map, Option.map_map, Option.map_map]
  simp only [Function.comp_def, hkey]
  rfl

/-! ## One row -/

theorem rows_insert (t : Relation) (r : Row) :
    (t.insert (Entry.ofRow r)).rows = if r ∈ t.rows then t.rows else t.rows ++ [r] := by
  by_cases hr : r ∈ t.rows
  · rw [insert, if_pos hr, if_pos (by simpa using mem_rows.mp hr)]
  · rw [insert, if_neg hr, if_neg (by simpa [mem_rows] using hr)]
    simp [rows]

theorem firstOf_append (rows rows' : List Row) (a : Address) :
    Row.firstOf (rows ++ rows') a = (Row.firstOf rows a).or (Row.firstOf rows' a) := by
  rw [Row.firstOf, List.find?_append, Option.map_or]
  rfl

theorem clusterOf_insert (t : Relation) (r : Row) (a : Address) :
    (t.insert (Entry.ofRow r)).clusterOf a = (t.clusterOf a).or (Row.firstOf [r] a) := by
  rw [clusterOf_eq, clusterOf_eq, rows_insert]
  split
  · rename_i hr
    -- an address with a row that is there already has a first row
    by_cases ha : r.address = a
    · have hsome : (Row.firstOf t.rows a).isSome := by
        simpa [Row.firstOf] using ⟨r, hr, ha⟩
      rw [Option.or_of_isSome hsome]
    · simp [Row.firstOf, ha]
  · exact firstOf_append _ _ _

/-! ## Many rows -/

theorem insertRows_cons (t : Relation) (r : Row) (rows : List Row) :
    t.insertRows (r :: rows) = (t.insert (Entry.ofRow r)).insertRows rows := rfl

theorem insertRows_append (t : Relation) (rows rows' : List Row) :
    t.insertRows (rows ++ rows') = (t.insertRows rows).insertRows rows' :=
  List.foldl_append

theorem mem_insertRows : r ∈ (t.insertRows rows).rows ↔ r ∈ t.rows ∨ r ∈ rows := by
  induction rows generalizing t with
  | nil => simp [insertRows]
  | cons r' rows ih =>
      have hstep : r ∈ (t.insert (Entry.ofRow r')).rows ↔ r ∈ t.rows ∨ r = r' := by
        rw [rows_insert]
        split
        · rename_i hr'
          exact ⟨.inl, fun h => h.elim id fun he => he ▸ hr'⟩
        · simp
      rw [insertRows_cons, ih, hstep, List.mem_cons, or_assoc]

theorem nodup_insertRows (ht : t.rows.Nodup) (rows : List Row) : (t.insertRows rows).rows.Nodup := by
  induction rows generalizing t with
  | nil => exact ht
  | cons r rows ih =>
      apply ih
      rw [rows_insert]
      split
      · exact ht
      · rename_i hr
        rw [← List.concat_eq_append]
        exact ht.concat hr

theorem clusterOf_insertRows (t : Relation) (rows : List Row) (a : Address) :
    (t.insertRows rows).clusterOf a = (t.clusterOf a).or (Row.firstOf rows a) := by
  induction rows generalizing t with
  | nil => simp [insertRows, Row.firstOf]
  | cons r rows ih =>
      rw [insertRows_cons, ih, clusterOf_insert, Option.or_assoc, ← firstOf_append]
      rfl

end Relation

end Cospend
