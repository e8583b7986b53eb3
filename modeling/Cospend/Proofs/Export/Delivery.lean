import Cospend.Export.Recorder
import Cospend.Proofs.Export.Complete

/-!
# Every row is delivered once

An export cuts its rows, in the order of the numbers, into batches that are full but for the last, and hands the
batches to the sink, each of them once, however the others end. As long as no worker is lost with a batch, every
batch is handed over, and the export succeeds and tells of it exactly if all of them were done.
-/

namespace Cospend

/-! ## Pieces -/

section Pieces

variable {α : Type} {n left : Nat} {as b : List α}

theorem mem_pieces (hn : 0 < n) (hb : b ∈ pieces n left as) : b ≠ [] ∧ b.length ≤ n := by
  induction left generalizing as with
  | zero => cases hb
  | succ left ih =>
      cases as with
      | nil => cases hb
      | cons a as =>
          rw [pieces_cons] at hb
          rcases List.mem_cons.mp hb with rfl | hb
          · refine ⟨fun h => ?_, List.length_take_le n _⟩
            rcases List.take_eq_nil_iff.mp h with h | h
            · omega
            · cases h
          · exact ih hb

/-- A piece that is followed by another one is full. -/
theorem length_of_mem_dropLast_pieces (hb : b ∈ (pieces n left as).dropLast) : b.length = n := by
  induction left generalizing as with
  | zero => cases hb
  | succ left ih =>
      cases as with
      | nil => cases hb
      | cons a as =>
          rw [pieces_cons] at hb
          by_cases hrest : pieces n left ((a :: as).drop n) = []
          · rw [hrest] at hb
            cases hb
          · rw [List.dropLast_cons_of_ne_nil hrest] at hb
            rcases List.mem_cons.mp hb with rfl | hb
            · -- elements are left for the next piece, so this one took as many as it could
              have hleft : (a :: as).drop n ≠ [] := fun h => hrest (by rw [h, pieces_nil])
              rw [List.length_take, Nat.min_eq_left]
              exact Nat.le_of_not_le (mt List.drop_eq_nil_iff.mpr hleft)
            · exact ih hb

end Pieces

/-! ## Exports -/

/-- A recorder costs no worker. -/
theorem Recorder.handAll_mild (batches : List (List Row)) (r : Recorder) :
    ∀ e ∈ (Recorder.sink.handAll batches r).1, e ≠ .fatal := by
  have hinsert : ∀ (b : List Row) (r : Recorder), (Recorder.sink.insertIfAbsent b r).1 ≠ .fatal := by
    intro b r
    simp only [Recorder.sink]
    split
    · nofun
    · split <;> nofun
  induction batches generalizing r with
  | nil => exact List.forall_mem_nil _
  | cons b bs ih => exact List.forall_mem_cons.mpr ⟨hinsert b r, ih _⟩

namespace Partition

theorem rows_ordered (p : Partition) : ∃ entries : List (Address × Nat),
    entries.Perm p.ids.toList ∧ entries.Pairwise (fun a b => a.2 ≤ b.2) ∧
      p.rows = entries.map p.row :=
  ⟨_, sortBy_perm _ _, pairwise_sortBy_snd _, rfl⟩

/-- Whatever the sink does with a batch, and in whatever turns the workers move. The batches have the rows in the
order of the numbers, and are full but for the last. They are handed over from the first on, each of them once,
and a single worker keeps their order. Some are left only if there were as many fatal ends as workers, and then
the export fails. If none are left then it succeeds if all batches were done or cost a worker, and else its error
is that of a batch. It tells of the export only if it succeeds. Without a pool nothing is handed over. -/
theorem exportSink_delivers {σ : Type} (p : Partition) (sink : Sink σ) (workers batchSize : Nat)
    (schedule : Schedule) (state : σ) :
    let report := p.exportSink sink workers batchSize schedule state
    let rows := p.finalize.rows
    let batches := Row.batches batchSize rows
    ((p.Numbered → p.Listed batches.flatten) ∧ ∃ entries : List (Address × Nat),
      entries.Perm p.finalize.ids.toList ∧ entries.Pairwise (fun a b => a.2 ≤ b.2) ∧
        batches.flatten = entries.map p.finalize.row) ∧
    (∀ b ∈ batches, b ≠ [] ∧ b.length ≤ max batchSize 1) ∧
    (∀ b ∈ batches.dropLast, b.length = max batchSize 1) ∧
    if workers ≤ Pool.workerLimit then
      ∃ taken left order, taken ++ left = batches ∧ order.Perm taken ∧ (workers ≤ 1 → order = taken) ∧
        let (ends, state') := sink.handAll order state
        report.destination = state' ∧
          ((∀ e ∈ ends, e ≠ .fatal) → left = []) ∧
          (left ≠ [] → max workers 1 ≤ ends.countP JobEnd.isFatal ∧
            report.result = .error (.error (.worker .poolClosed)) ∧
              report.events = [.finalized p.finalize.size]) ∧
          (left = [] → if ∀ e ∈ ends, e = .done ∨ e = .fatal then
              report.result = .ok rows.length ∧ report.events =
                [.finalized p.finalize.size, .exported "sink" rows.length p.finalize.countRoots]
            else (∃ e ∈ ends, e ≠ .fatal ∧ ∃ err, e.error? = some err ∧
                report.result = .error (.error (.worker err))) ∧
              report.events = [.finalized p.finalize.size])
    else report.destination = state ∧ report.result = .error (.abort .capacityOverflow) ∧
      report.events = [.finalized p.finalize.size] := by
  intro report rows batches
  have hflatten : batches.flatten = rows := Row.flatten_batches batchSize rows
  have hpos : 0 < max batchSize 1 := Nat.lt_of_lt_of_le Nat.one_pos (Nat.le_max_right _ _)
  refine ⟨⟨fun hp => hflatten ▸ hp.listed, ?_⟩, fun b hb => mem_pieces hpos hb,
    fun b hb => length_of_mem_dropLast_pieces hb, ?_⟩
  · rw [hflatten]
    exact p.finalize.rows_ordered
  · split
    · rename_i hworkers
      obtain ⟨taken, left, order, htaken, horder, hordered, hstate, hleft, hcases⟩ :=
        p.exportSink_handAll sink hworkers batchSize schedule state
      refine ⟨taken, left, order, htaken, horder, hordered, hstate, fun hmild => ?_, hleft, hcases⟩
      by_contra hne
      exact Sink.not_left_of_mild hmild (hleft hne).1
    · rename_i hworkers
      exact p.exportSink_of_limit sink hworkers batchSize schedule state

/-- Three addresses, two of them in one cluster. -/
def threeRegistered : Session Delta :=
  (Session.start.run [.register ⟨"A"⟩, .register ⟨"B"⟩, .register ⟨"C"⟩, .union ⟨"C"⟩ ⟨"B"⟩]).2

def threeAddresses : Partition := threeRegistered.partition

theorem numbered_threeAddresses : threeAddresses.Numbered := by
  have hreachable : Session.Reachable (fun _ => True) threeRegistered :=
    Session.Reachable.run .start rfl (by simp [Call.givesUp])
  exact hreachable.byRank.memory.toNumbered

def threeRows : List Row := [⟨.ofNat 0, ⟨"A"⟩⟩, ⟨.ofNat 2, ⟨"B"⟩⟩, ⟨.ofNat 2, ⟨"C"⟩⟩]

theorem rows_threeAddresses : threeAddresses.finalize.rows = threeRows := by decide +kernel

/-- The sink gives up at the first of three batches and refuses the second. The third is still taken. -/
theorem exportSink_delivers_after_failures :
    let p := threeAddresses
    let state : Recorder := ⟨[], some ⟨"B"⟩, some ⟨"A"⟩, "no"⟩
    let report := p.exportSink Recorder.sink 1 0 .first state
    p.Numbered ∧ p.finalize.rows = threeRows ∧ p.Listed threeRows ∧
      report.destination.batches = [[⟨.ofNat 2, ⟨"C"⟩⟩]] ∧ report.events = [.finalized 3] ∧
      ∃ err ∈ [.jobAborted, .job ⟨"no"⟩], report.result = .error (.error (.worker err)) := by
  intro p state report
  have hrows : threeAddresses.finalize.rows = threeRows := rows_threeAddresses
  have hsize : threeAddresses.finalize.size = 3 := by rfl
  have hbatches : Row.batches 0 threeAddresses.finalize.rows =
      [[⟨.ofNat 0, ⟨"A"⟩⟩], [⟨.ofNat 2, ⟨"B"⟩⟩], [⟨.ofNat 2, ⟨"C"⟩⟩]] := by
    rw [hrows]
    rfl
  obtain ⟨⟨hlisted, -⟩, -, -, hreport⟩ :=
    exportSink_delivers threeAddresses Recorder.sink 1 0 .first state
  rw [if_pos (by decide)] at hreport
  obtain ⟨taken, left, order, htaken, -, horder, hstate, hmild, -, hreport⟩ := hreport
  obtain rfl := horder (Nat.le_refl 1)
  obtain rfl := hmild (Recorder.handAll_mild _ _)
  rw [List.append_nil, hbatches] at htaken
  subst htaken
  have hends : (Recorder.sink.handAll [[⟨.ofNat 0, ⟨"A"⟩⟩], [⟨.ofNat 2, ⟨"B"⟩⟩], [⟨.ofNat 2, ⟨"C"⟩⟩]]
      state).1 = [.aborted, .failed ⟨"no"⟩, .done] := by rfl
  specialize hreport rfl
  rw [hends, if_neg (by simp), hsize] at hreport
  obtain ⟨⟨e, he, -, err, herr, hresult⟩, hevents⟩ := hreport
  rw [Row.flatten_batches, hrows] at hlisted
  refine ⟨numbered_threeAddresses, hrows, hlisted numbered_threeAddresses, ?_, hevents, err, ?_, hresult⟩
  · rw [hstate]
    rfl
  · have hmem := List.mem_filterMap.mpr ⟨e, he, herr⟩
    simpa [JobEnd.error?] using hmem

/-- Costs a worker for each batch that it is handed. -/
def ruinous : Sink (List (List Row)) := ⟨fun batch batches => (.fatal, batches ++ [batch])⟩

/-- A single worker is lost with the first batch, and the others are not handed over. Two workers are lost with two
batches, and the export is told of as if it had succeeded. With more workers than an array can name none of the
batches is handed over. -/
theorem undelivered_after_fatal :
    let p := threeAddresses
    let single := p.exportSink ruinous 1 1 .first []
    let double := p.exportSink ruinous 2 2 .first []
    let many := p.exportSink Recorder.sink 0xFFFFFFFFFFFFFFFF 1 .first ⟨[], none, none, ""⟩
    p.Numbered ∧ single.destination = [[⟨.ofNat 0, ⟨"A"⟩⟩]] ∧
      single.result = .error (.error (.worker .poolClosed)) ∧
      double.result = .ok 3 ∧ double.events = [.finalized 3, .exported "sink" 3 2] ∧
      many.result = .error (.abort .capacityOverflow) ∧ many.destination.batches = [] := by
  intro p single double many
  have hsize : threeAddresses.finalize.size = 3 := by rfl
  have hroots : threeAddresses.finalize.countRoots = 2 := by rfl
  obtain ⟨-, hstate, hreport⟩ := p.exportSink_leaves ruinous 1 1 .first []
  obtain ⟨-, -, hreport'⟩ := p.exportSink_leaves ruinous 2 2 .first []
  have hlimit : ¬ 0xFFFFFFFFFFFFFFFF ≤ Pool.workerLimit := by decide
  obtain ⟨hstate'', hreport'', -⟩ := p.exportSink_of_limit Recorder.sink hlimit 1 .first ⟨[], none, none, ""⟩
  rw [show p.finalize.rows = threeRows from rows_threeAddresses] at hstate hreport hreport'
  have hsingle : ruinous.insertAll 1 1 .first threeRows [] =
      (.error (.error .poolClosed), [[⟨.ofNat 0, ⟨"A"⟩⟩]]) := by rfl
  have hdouble : (ruinous.insertAll 2 2 .first threeRows []).1 = .ok () := by rfl
  rw [hsingle] at hstate hreport
  rw [hdouble, show p.finalize.size = 3 from hsize, show p.finalize.countRoots = 2 from hroots] at hreport'
  exact ⟨numbered_threeAddresses, hstate, hreport.1, hreport'.1, hreport'.2, hreport'', congrArg _ hstate''⟩

end Partition

end Cospend
