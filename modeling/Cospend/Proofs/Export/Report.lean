import Cospend.Export.Basic
import Mathlib.Tactic.SplitIfs

/-!
# Reports of exports

An export finalizes the partition whether or not it can write the rows. It tells of the export only if all rows
are written.
-/

namespace Cospend

variable {σ τ κ : Type}

/-! ## Sheets in files -/

/-- A way that leads to a file does so whichever files there are. -/
theorem Path.follow_of_ok {isFile isFile' : String → Bool} {above : Nat} {names : List String} {file : String}
    (h : follow isFile above names = .ok file) : follow isFile' above names = .ok file := by
  induction names generalizing above with
  | nil => cases h
  | cons name rest ih =>
      rw [follow] at h ⊢
      split_ifs at h ⊢ <;> first | exact ih h | exact h

theorem Directory.sheetFile_of_ok {d : Directory κ} {path file : String} (h : d.sheetFile path = .ok file)
    (d' : Directory κ) (hpath : d'.path = d.path) : d'.sheetFile path = .ok file := by
  rw [sheetFile, pathOf] at h ⊢
  rw [hpath]
  split_ifs at h with hnull hlong
  rw [if_neg hnull, if_neg hlong]
  exact Path.follow_of_ok h

/-- A sheet that was written is found again. -/
theorem Directory.sheet?_write {d : Directory κ} {path file : String} (h : d.sheetFile path = .ok file)
    (text : String) : (d.write file (.sheet text)).sheet? path = some text := by
  have hfile := sheetFile_of_ok h (d.write file (.sheet text)) rfl
  simp only [sheet?, hfile]
  simp [write]

/-! ## Reports -/

namespace Partition

/-- What an export leaves, whatever becomes of the rows. -/
theorem exportWith_leaves (p : Partition) (told blamed : String)
    (write : List Row → Except (Failure ExportError) Unit × τ) :
    let report := p.exportWith told blamed write
    report.partition = p.finalize ∧ report.destination = (write p.finalize.rows).2 ∧
      report.result = (write p.finalize.rows).1.map (fun _ => p.finalize.rows.length) ∧
      report.events = .finalized p.finalize.size :: if (write p.finalize.rows).1.isOk then
        [.exported told p.finalize.rows.length p.finalize.countRoots] else [] := by
  simp only [exportWith]
  rcases write p.finalize.rows with ⟨(e | a) | _, destination⟩ <;> exact ⟨rfl, rfl, rfl, rfl⟩

theorem exportWith_partition (p : Partition) (told blamed : String)
    (write : List Row → Except (Failure ExportError) Unit × τ) :
    (p.exportWith told blamed write).partition = p.finalize :=
  (p.exportWith_leaves told blamed write).1

theorem exportWith_events (p : Partition) (told blamed : String)
    (write : List Row → Except (Failure ExportError) Unit × τ) :
    ∀ e ∈ (p.exportWith told blamed write).events, e.kind = .finalized ∨ e.kind = .exported := by
  rw [(p.exportWith_leaves told blamed write).2.2.2]
  split <;> simp [Event.kind]

/-- An export to a file leaves the rows in it if the path leads to one, and else changes no file. -/
theorem exportSheet_leaves (p : Partition) (d : Directory κ) (path : String) :
    let report := p.exportSheet d path
    let rows := p.finalize.rows
    report.partition = p.finalize ∧ match d.sheetFile path with
      | .ok _ => report.result = .ok rows.length ∧
        report.destination.sheet? path = some (Row.sheet rows) ∧ report.events =
          [.finalized p.finalize.size, .exported (d.pathOf path) rows.length p.finalize.countRoots]
      | .error e => report.result = .error (.error (.io e.message)) ∧ report.destination = d ∧
        report.events = [.finalized p.finalize.size] := by
  obtain ⟨hpartition, hdestination, hresult, hevents⟩ :=
    p.exportWith_leaves (d.pathOf path) (d.pathOf path) (writeLines d path)
  refine ⟨hpartition, ?_⟩
  cases hfile : d.sheetFile path with
  | error e =>
      have hwrite : writeLines d path p.finalize.rows = (.error (.error (.io e.message)), d) := by
        simp only [writeLines, Directory.writeSheet, hfile]
        rfl
      rw [hwrite] at hdestination hresult hevents
      exact ⟨hresult, hdestination, hevents⟩
  | ok file =>
      have hwrite : writeLines d path p.finalize.rows =
          (.ok (), d.write file (.sheet (Row.sheet p.finalize.rows))) := by
        simp only [writeLines, Directory.writeSheet, hfile]
        rfl
      rw [hwrite] at hdestination hresult hevents
      refine ⟨hresult, ?_, hevents⟩
      rw [exportSheet, hdestination]
      exact Directory.sheet?_write hfile _

/-- An export to a sink does what the insertion of the rows does. -/
theorem exportSink_leaves (p : Partition) (sink : Sink σ) (workers batchSize : Nat) (schedule : Schedule)
    (state : σ) :
    let report := p.exportSink sink workers batchSize schedule state
    let out := sink.insertAll workers batchSize schedule p.finalize.rows state
    report.partition = p.finalize ∧ report.destination = out.2 ∧ match out.1 with
      | .ok () => report.result = .ok p.finalize.rows.length ∧ report.events =
          [.finalized p.finalize.size, .exported "sink" p.finalize.rows.length p.finalize.countRoots]
      | .error f => report.result = .error (f.map .worker) ∧ report.events = [.finalized p.finalize.size] := by
  intro report out
  obtain ⟨hpartition, hdestination, hresult, hevents⟩ :=
    p.exportWith_leaves "sink" "sink" (writeBatches sink workers batchSize schedule state)
  refine ⟨hpartition, hdestination, ?_⟩
  have hwrite : writeBatches sink workers batchSize schedule state p.finalize.rows =
      (out.1.mapError (Failure.map .worker), out.2) := rfl
  rw [hwrite] at hresult hevents
  cases hout : out.1 <;> rw [hout] at hresult hevents <;> exact ⟨hresult, hevents⟩

end Partition

end Cospend
