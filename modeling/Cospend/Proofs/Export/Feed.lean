import Cospend.Proofs.Export.Insertion
import Cospend.Proofs.Export.Rows
import Cospend.Proofs.Partition.Edits
import Cospend.Proofs.Partition.Stored
import Cospend.Proofs.Standin.Memory

/-!
# Exporting into one database time and again

Between two exports clusters are merged, and the numbers that stand for them change. A database only takes rows
that it does not have: the rows of earlier exports stay, and the first row of an address is the one that is
found. So it tells for each address the cluster of the first export that had the address.
-/

namespace Cospend

/-! ## What a relation holds after some exports -/

/-- The relation has the rows of these partitions, each once, and tells the first cluster of an address. -/
structure Relation.Fed (t : Relation) (exported : List Partition) : Prop where
  nodup : t.rows.Nodup
  mem : ∀ r : Row, r ∈ t.rows ↔
    ∃ p ∈ exported, (p.clusterOf r.address).map AddressId.ofNat = some r.cluster
  clusterOf : ∀ a, t.clusterOf a = (exported.findSome? fun p => p.clusterOf a).map AddressId.ofNat

namespace Relation

variable {t : Relation} {exported : List Partition} {p q : Partition} {a : Address}

theorem fed_empty : Fed .empty [] := ⟨List.nodup_nil, fun r => by simp [empty, rows], fun a => rfl⟩

/-- Rows of one more export may come in any order. -/
theorem Fed.insertRows (h : t.Fed exported) (hp : p.Sound) {rows : List Row}
    (hrows : rows.Perm p.finalize.rows) : (t.insertRows rows).Fed (exported ++ [p.finalize]) where
  nodup := nodup_insertRows h.nodup rows
  mem r := by
    rw [mem_insertRows, h.mem, hrows.mem_iff, hp.mem_rows]
    simp [or_and_right, exists_or, hp.finalize.clusterOf_eq]
  clusterOf a := by
    rw [clusterOf_insertRows, h.clusterOf, hp.firstOf_rows hrows, List.findSome?_append, Option.map_or]
    simp [hp.finalize.clusterOf_eq]

/-- The numbers of clusters are far below the width in which they are exported. -/
theorem ofNat_inj_of_clusterOf (hp : p.Numbered) (hq : q.Numbered) {b : Address} {c d : Nat}
    (hc : p.clusterOf a = some c) (hd : q.clusterOf b = some d) (h : AddressId.ofNat c = AddressId.ofNat d) :
    c = d := by
  have hc := Partition.toNat_ofNat (Nat.lt_trans (hp.clusterOf_lt hc) hp.size_lt_uint64)
  have hd := Partition.toNat_ofNat (Nat.lt_trans (hq.clusterOf_lt hd) hq.size_lt_uint64)
  rw [← hc, ← hd, h]

theorem Fed.clusterOf_eq_iff (h : t.Fed exported) (hexported : ∀ p ∈ exported, p.Numbered)
    (hq : q.Numbered) {c : Nat} (hc : q.clusterOf a = some c) :
    t.clusterOf a = some (AddressId.ofNat c) ↔
      (exported.findSome? fun p => p.clusterOf a) = some c := by
  rw [h.clusterOf, Option.map_eq_some_iff]
  constructor
  · rintro ⟨d, hd, heq⟩
    obtain ⟨p, hp, hpd⟩ := List.exists_of_findSome?_eq_some hd
    rw [hd, ofNat_inj_of_clusterOf (hexported p hp) hq hpd hc heq]
  · intro hc
    exact ⟨c, hc, rfl⟩

end Relation

/-! ## Partitions at work that are exported -/

/-- A partition at work, and a database into which it is exported from time to time. -/
structure Feed (β δ : Type) where
  workspace : Workspace β
  database : δ
  /-- The partitions as they were exported, in order. -/
  exported : List Partition

namespace Feed

/-- What a database can be asked. -/
inductive Question where
  | clusterOf (a : Address)
  | size

inductive Step where
  | register (a : Address)
  | union (a b : Address)
  | exportSink (workers batchSize : Nat) (schedule : Schedule)
  | ask (question : Question)

variable {β δ : Type} {db : Database δ}

/-- The partition in memory. -/
abbrev partition (x : Feed β δ) : Partition := x.workspace.partition

/-- What an export into the database does. -/
def report (db : Database δ) (x : Feed β δ) (workers batchSize : Nat) (schedule : Schedule) : ExportReport δ :=
  x.partition.exportSink db.sink workers batchSize schedule x.database

/-- The feed after an export. -/
def exportSink (db : Database δ) (x : Feed β δ) (workers batchSize : Nat) (schedule : Schedule) : Feed β δ :=
  let r := x.report db workers batchSize schedule
  { workspace := { x.workspace with partition := r.partition }
    database := r.destination, exported := x.exported ++ [r.partition] }

/-- The feed after a question, which may leave something in the database. -/
def ask (db : Database δ) (x : Feed β δ) : Question → Feed β δ
  | .clusterOf a => { x with database := (db.clusterOf a x.database).2 }
  | .size => { x with database := (db.size x.database).2 }

variable [WriteBatch β]

def perform (db : Database δ) (x : Feed β δ) : Step → Feed β δ
  | .register a => { x with workspace := (Workspace.register a x.workspace).2 }
  | .union a b => { x with workspace := (Workspace.union a b x.workspace).2 }
  | .exportSink workers batchSize schedule => x.exportSink db workers batchSize schedule
  | .ask question => x.ask db question

def run (db : Database δ) (x : Feed β δ) (steps : List Step) : Feed β δ := steps.foldl (perform db) x

/-- The step is no export, or one that succeeds. -/
def Succeeds (db : Database δ) (x : Feed β δ) : Step → Prop
  | .exportSink workers batchSize schedule => ∃ n, (x.report db workers batchSize schedule).result = .ok n
  | _ => True

/-- All exports succeed. -/
def AllSucceed (db : Database δ) : Feed β δ → List Step → Prop
  | _, [] => True
  | x, step :: steps => x.Succeeds db step ∧ AllSucceed db (x.perform db step) steps

/-! ## One step -/

variable {Holds : δ → Relation → Prop} {Within : δ → Relation → Relation → Prop}

/-- The database is fed with the partitions that were exported. -/
structure Kept (Holds : δ → Relation → Prop) (x : Feed β δ) : Prop where
  numbered : x.partition.Numbered
  exported : ∀ p ∈ x.exported, p.Numbered
  held : ∃ t, Holds x.database t ∧ t.Fed x.exported

variable {x : Feed β δ}

omit [WriteBatch β] in
theorem kept_start {w : Workspace β} {s : δ} (hw : w.partition.Numbered) (hs : Holds s .empty) :
    Kept Holds ⟨w, s, []⟩ :=
  ⟨hw, List.forall_mem_nil _, .empty, hs, Relation.fed_empty⟩

omit [WriteBatch β] in
theorem Kept.ask (hx : Kept Holds x) (h : db.Lawful Holds Within) (question : Question) :
    Kept Holds (x.ask db question) := by
  obtain ⟨t, ht, hfed⟩ := hx.held
  cases question with
  | clusterOf a => exact ⟨hx.numbered, hx.exported, t, (h.clusterOf ht a).1, hfed⟩
  | size => exact ⟨hx.numbered, hx.exported, t, (h.size ht).1, hfed⟩

omit [WriteBatch β] in
/-- After an export that succeeds the database is fed with one more partition. -/
theorem Kept.exportSink (hx : Kept Holds x) (h : db.Lawful Holds Within) {workers batchSize : Nat}
    {schedule : Schedule} {n : Nat} (hn : (x.report db workers batchSize schedule).result = .ok n) :
    let y := x.exportSink db workers batchSize schedule
    n = x.partition.size ∧ Kept Holds y ∧ y.partition = x.partition.finalize ∧
      y.exported = x.exported ++ [x.partition.finalize] := by
  have hp := hx.numbered
  obtain ⟨t, ht, hfed⟩ := hx.held
  obtain ⟨hpartition, rows, -, hholds, hok⟩ := h.exportSink ht x.partition workers batchSize schedule
  obtain ⟨hlength, hrows⟩ := hok n hn
  have hpartition : (x.report db workers batchSize schedule).partition = x.partition.finalize := hpartition
  simp only [Feed.exportSink, hpartition]
  refine ⟨hlength.trans ((Partition.length_rows _).trans hp.ids_size), ⟨hp.finalize.numbered hp, ?_, _, hholds,
    hfed.insertRows hp.toSound hrows⟩, trivial, trivial⟩
  intro p hmem
  rcases List.mem_append.mp hmem with hmem | hmem
  · exact hx.exported p hmem
  · rw [List.mem_singleton.mp hmem]
    exact hp.finalize.numbered hp

theorem Kept.work (hx : Kept Holds x) {w : Workspace β} (hw : Workspace.Edits x.workspace w) :
    Kept Holds { x with workspace := w } :=
  ⟨hw.numbered hx.numbered, hx.exported, hx.held⟩

theorem Kept.perform (hx : Kept Holds x) (h : db.Lawful Holds Within) {step : Step}
    (hstep : x.Succeeds db step) : Kept Holds (x.perform db step) := by
  cases step with
  | register a => exact hx.work (Workspace.edits_register x.workspace a)
  | union a b => exact hx.work (Workspace.edits_union hx.numbered.toSound a b)
  | exportSink workers batchSize schedule =>
      obtain ⟨n, hn⟩ := hstep
      exact (hx.exportSink h hn).2.1
  | ask question => exact hx.ask h question

/-! ## Any steps -/

theorem Kept.run (hx : Kept Holds x) (h : db.Lawful Holds Within) {steps : List Step}
    (hsteps : AllSucceed db x steps) : Kept Holds (x.run db steps) := by
  induction steps generalizing x with
  | nil => exact hx
  | cons step steps ih => exact ih (hx.perform h hsteps.1) hsteps.2

end Feed

end Cospend
