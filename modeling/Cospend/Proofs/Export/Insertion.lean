import Cospend.Proofs.Export.Database
import Cospend.Proofs.Export.Report
import Cospend.Proofs.Pool.Calls

/-!
# Inserting rows by a pool

The rows of an export reach the sink in batches, and the workers of a pool decide in which order. A database
takes each batch as a whole or not at all, so in the end it has the rows of the batches that did not fail.
-/

namespace Cospend

section Pieces

variable {α : Type} {n left : Nat} {as : List α}

theorem pieces_nil (n left : Nat) : pieces n left ([] : List α) = [] := by
  cases left <;> rfl

theorem pieces_cons (n left : Nat) (a : α) (as : List α) :
    pieces n (left + 1) (a :: as) = (a :: as).take n :: pieces n left ((a :: as).drop n) := rfl

theorem flatten_pieces (hn : 0 < n) (h : as.length ≤ left) : (pieces n left as).flatten = as := by
  induction left generalizing as with
  | zero =>
      cases as with
      | nil => rfl
      | cons a as => simp at h
  | succ left ih =>
      cases as with
      | nil => rfl
      | cons a as =>
          have hdrop : ((a :: as).drop n).length ≤ left := by
            rw [List.length_drop]
            omega
          rw [pieces_cons, List.flatten_cons, ih hdrop, List.take_append_drop]

end Pieces

theorem Row.flatten_batches (size : Nat) (rows : List Row) : (Row.batches size rows).flatten = rows :=
  flatten_pieces (Nat.lt_of_lt_of_le Nat.one_pos (Nat.le_max_right size 1)) (Nat.le_refl _)

namespace Sink

variable {σ : Type} {sink : Sink σ} {init s : σ} {batches : List (List Row)}

/-! ## Batches handed over one after the other -/

/-- How batches that are handed over one after the other end, and the state that they leave. -/
def handAll (sink : Sink σ) : List (List Row) → σ → List (JobEnd SinkError) × σ
  | [], s => ([], s)
  | b :: bs, s =>
    let (result, s) := sink.insertIfAbsent b s
    let (ends, s) := sink.handAll bs s
    (result :: ends, s)

theorem handAll_append (sink : Sink σ) (bs bs' : List (List Row)) (s : σ) :
    sink.handAll (bs ++ bs') s =
      ((sink.handAll bs s).1 ++ (sink.handAll bs' (sink.handAll bs s).2).1,
        (sink.handAll bs' (sink.handAll bs s).2).2) := by
  induction bs generalizing s with
  | nil => rfl
  | cons b bs ih => simp only [List.cons_append, handAll, ih]

/-- All batches are taken by a sink that takes any. -/
theorem handAll_done (h : ∀ batch s, (sink.insertIfAbsent batch s).1 = .done) (bs : List (List Row)) (s : σ) :
    ∀ e ∈ (sink.handAll bs s).1, e = .done := by
  induction bs generalizing s with
  | nil => exact List.forall_mem_nil _
  | cons b bs ih => exact List.forall_mem_cons.mpr ⟨h b s, ih _⟩

theorem handAll_of_ran {ran : List (Task σ SinkError × JobEnd SinkError)} (hran : Pool.Ran init ran s)
    (hjobs : ran.map (fun e => e.1.job) = batches.map sink.insertIfAbsent) :
    sink.handAll batches init = (ran.map Prod.snd, s) := by
  induction hran generalizing batches with
  | none =>
      obtain rfl := List.map_eq_nil_iff.mp hjobs.symm
      rfl
  | more _ task ih =>
      rw [List.map_append] at hjobs
      obtain ⟨before, last, rfl, hbefore, hlast⟩ := List.map_eq_append_iff.mp hjobs.symm
      obtain ⟨batch, rfl, hbatch⟩ := List.map_eq_singleton_iff.mp hlast
      simp only [handAll_append, ih hbefore.symm, handAll, hbatch, List.map_append, List.map_cons,
        List.map_nil]

/-- However many workers there are and however they take turns, batches are handed over from the first on, each
of them once, and the error is the first one that is told. Batches are left only if there were as many fatal ends
as workers, and then the insertion tells of that. A single worker keeps the order of the batches. -/
theorem insertAll_handAll (sink : Sink σ) {workers : Nat} (hworkers : workers ≤ Pool.workerLimit)
    (batchSize : Nat) (schedule : Schedule) (rows : List Row) (init : σ) :
    let out := sink.insertAll workers batchSize schedule rows init
    ∃ taken left order told, taken ++ left = Row.batches batchSize rows ∧
      Pool.Same (workers ≤ 1) order taken ∧
      let (ends, s) := sink.handAll order init
      out.2 = s ∧ Pool.Same (workers ≤ 1) (ends.filter fun e => !e.isFatal) told ∧
        (left = [] ∧ out.1 = Failure.answer (Pool.firstError? told) ∨
          left ≠ [] ∧ out.1 = .error (.error .poolClosed) ∧ max workers 1 ≤ ends.countP JobEnd.isFatal) := by
  intro out
  let batches := Row.batches batchSize rows
  let jobs := batches.map sink.insertIfAbsent
  obtain ⟨n, ran, told, hran, hjobs, htold, hanswer, hcases⟩ :=
    Pool.takeAll_close schedule workers init 0 jobs
  let taking := Pool.takeAll schedule false jobs (Pool.start workers init 0)
  let closing := taking.2.close schedule
  have hout : out = (Failure.answer (taking.1.or closing.1), closing.2.shared) := by
    simp only [out, insertAll, Pool.start?, if_pos hworkers]
    rfl
  -- the jobs that were run are those of some batches, in the order in which they ran
  rw [← List.map_take] at hjobs
  obtain ⟨order, horder, hsame⟩ := hjobs.symm.exists_of_map
  have hlength : jobs.length = batches.length := List.length_map _
  refine ⟨batches.take n, batches.drop n, order, told, List.take_append_drop n batches, hsame, ?_⟩
  rw [handAll_of_ran hran horder, hout]
  refine ⟨rfl, htold, ?_⟩
  rcases hcases with ⟨hn, hnone⟩ | ⟨hn, hrefused, hcount⟩
  · refine .inl ⟨List.drop_eq_nil_iff.mpr (Nat.le_of_eq (hlength.symm.trans hn.symm)), ?_⟩
    rw [show taking.1 = none from hnone, Option.none_or, show closing.1 = _ from hanswer]
  · refine .inr ⟨fun hnil => ?_, ?_, hcount⟩
    · exact absurd (List.drop_eq_nil_iff.mp hnil) (Nat.not_le_of_lt (hlength ▸ hn))
    · rw [show taking.1 = _ from hrefused]
      rfl

theorem insertAll_of_limit (sink : Sink σ) {workers : Nat} (hworkers : ¬ workers ≤ Pool.workerLimit)
    (batchSize : Nat) (schedule : Schedule) (rows : List Row) (init : σ) :
    sink.insertAll workers batchSize schedule rows init = (.error (.abort .capacityOverflow), init) := by
  simp only [insertAll, Pool.start?, if_neg hworkers]

/-- If no end was fatal then no batch is left. -/
theorem not_left_of_mild {workers : Nat} {ends : List (JobEnd SinkError)} (h : ∀ e ∈ ends, e ≠ .fatal) :
    ¬ max workers 1 ≤ ends.countP JobEnd.isFatal := by
  have hzero : ends.countP JobEnd.isFatal = 0 :=
    List.countP_eq_zero.mpr fun e he hfatal => h e he (Pool.isFatal_iff.mp hfatal)
  omega

end Sink

/-! ## Exports -/

section Exports

variable {σ : Type} {workers : Nat}

theorem Failure.answer_eq_ok {ε : Type} {e : Option ε} : answer e = .ok () ↔ e = none := by
  cases e <;> simp [answer]

/-- The first error told is that of an end that can be told, and there is none if all of these were done. -/
theorem firstError?_of_filter {ends told : List (JobEnd SinkError)}
    (h : (ends.filter fun e => !e.isFatal).Perm told) :
    (Pool.firstError? told = none ↔ ∀ e ∈ ends, e = .done ∨ e = .fatal) ∧
      ∀ err, Pool.firstError? told = some err → ∃ e ∈ ends, e ≠ .fatal ∧ e.error? = some err := by
  have hmem : ∀ {e : JobEnd SinkError}, e ∈ told ↔ e ∈ ends ∧ e ≠ .fatal := by
    intro e
    rw [← h.mem_iff, List.mem_filter, Bool.not_eq_true', Bool.eq_false_iff, ne_eq, Pool.isFatal_iff]
  constructor
  · rw [Pool.firstError?_eq_none_iff]
    refine forall_congr' fun e => ?_
    rw [hmem, and_imp, or_comm, or_iff_not_imp_left]
  · intro err herr
    obtain ⟨e, he, herr⟩ := List.exists_of_findSome?_eq_some herr
    exact ⟨e, (hmem.mp he).1, (hmem.mp he).2, herr⟩

/-- What an export to a sink gives, told by the batches that were handed over, one after the other. -/
theorem Partition.exportSink_handAll (p : Partition) (sink : Sink σ) (hworkers : workers ≤ Pool.workerLimit)
    (batchSize : Nat) (schedule : Schedule) (state : σ) :
    let report := p.exportSink sink workers batchSize schedule state
    let rows := p.finalize.rows
    ∃ taken left order, taken ++ left = Row.batches batchSize rows ∧ order.Perm taken ∧
      (workers ≤ 1 → order = taken) ∧
      let (ends, state') := sink.handAll order state
      report.destination = state' ∧
        (left ≠ [] → max workers 1 ≤ ends.countP JobEnd.isFatal ∧
          report.result = .error (.error (.worker .poolClosed)) ∧
            report.events = [.finalized p.finalize.size]) ∧
        (left = [] → if ∀ e ∈ ends, e = .done ∨ e = .fatal then
            report.result = .ok rows.length ∧ report.events =
              [.finalized p.finalize.size, .exported "sink" rows.length p.finalize.countRoots]
          else (∃ e ∈ ends, e ≠ .fatal ∧ ∃ err, e.error? = some err ∧
              report.result = .error (.error (.worker err))) ∧
            report.events = [.finalized p.finalize.size]) := by
  intro report rows
  obtain ⟨taken, left, order, told, htaken, hsame, hstate, htold, hcases⟩ :=
    sink.insertAll_handAll hworkers batchSize schedule rows state
  obtain ⟨hnone, hsome⟩ := firstError?_of_filter htold.1
  obtain ⟨-, hdestination, hreport⟩ := p.exportSink_leaves sink workers batchSize schedule state
  refine ⟨taken, left, order, htaken, hsame.1, hsame.2, hdestination.trans hstate, fun hleft => ?_,
    fun hleft => ?_⟩
  · obtain ⟨-, hclosed, hcount⟩ := hcases.resolve_left fun h => hleft h.1
    rw [hclosed] at hreport
    exact ⟨hcount, hreport⟩
  · obtain ⟨-, hanswer⟩ := hcases.resolve_right fun h => h.1 hleft
    rw [hanswer] at hreport
    cases hfirst : Pool.firstError? told with
    | none =>
        rw [hfirst] at hreport
        rw [if_pos (hnone.mp hfirst)]
        exact hreport
    | some err =>
        rw [hfirst] at hreport
        obtain ⟨e, he, hmild, herr⟩ := hsome err hfirst
        rw [if_neg fun hall => by rw [hnone.mpr hall] at hfirst; cases hfirst]
        exact ⟨⟨e, he, hmild, err, herr, hreport.1⟩, hreport.2⟩

/-- An export to a sink that takes every batch succeeds. -/
theorem Partition.exportSink_of_done (p : Partition) {sink : Sink σ}
    (hdone : ∀ batch s, (sink.insertIfAbsent batch s).1 = .done) (hworkers : workers ≤ Pool.workerLimit)
    (batchSize : Nat) (schedule : Schedule) (state : σ) :
    (p.exportSink sink workers batchSize schedule state).result = .ok p.finalize.rows.length := by
  obtain ⟨taken, left, order, -, -, -, -, hleft, hcases⟩ :=
    p.exportSink_handAll sink hworkers batchSize schedule state
  have hends := Sink.handAll_done hdone order state
  obtain rfl : left = [] := by
    by_contra hne
    exact Sink.not_left_of_mild (fun e he => by rw [hends e he]; nofun) (hleft hne).1
  specialize hcases rfl
  rw [if_pos fun e he => .inl (hends e he)] at hcases
  exact hcases.1

/-- No batch is handed over if there are to be more workers than an array can name. -/
theorem Partition.exportSink_of_limit (p : Partition) (sink : Sink σ) (hworkers : ¬ workers ≤ Pool.workerLimit)
    (batchSize : Nat) (schedule : Schedule) (state : σ) :
    let report := p.exportSink sink workers batchSize schedule state
    report.destination = state ∧ report.result = .error (.abort .capacityOverflow) ∧
      report.events = [.finalized p.finalize.size] := by
  intro report
  obtain ⟨-, hdestination, hreport⟩ := p.exportSink_leaves sink workers batchSize schedule state
  have hout := Sink.insertAll_of_limit sink hworkers batchSize schedule p.finalize.rows state
  rw [hout] at hdestination hreport
  exact ⟨hdestination, hreport⟩

/-- An export that succeeds has handed over all batches, and the sink has taken those that cost no worker. -/
theorem Partition.exportSink_of_ok (p : Partition) (sink : Sink σ) (batchSize : Nat) (schedule : Schedule)
    (state : σ) {n : Nat} (hn : (p.exportSink sink workers batchSize schedule state).result = .ok n) :
    let report := p.exportSink sink workers batchSize schedule state
    let rows := p.finalize.rows
    n = rows.length ∧
      report.events = [.finalized p.finalize.size, .exported "sink" rows.length p.finalize.countRoots] ∧
      ∃ order, order.Perm (Row.batches batchSize rows) ∧ (workers ≤ 1 → order = Row.batches batchSize rows) ∧
        let (ends, state') := sink.handAll order state
        report.destination = state' ∧ ∀ e ∈ ends, e = .done ∨ e = .fatal := by
  intro report rows
  have hworkers : workers ≤ Pool.workerLimit := by
    by_contra hlimit
    rw [(p.exportSink_of_limit sink hlimit batchSize schedule state).2.1] at hn
    cases hn
  obtain ⟨taken, left, order, htaken, horder, hordered, hstate, hleft, hcases⟩ :=
    p.exportSink_handAll sink hworkers batchSize schedule state
  obtain rfl : left = [] := by
    by_contra hne
    rw [(hleft hne).2.1] at hn
    cases hn
  rw [List.append_nil] at htaken
  subst htaken
  specialize hcases rfl
  split at hcases
  · rename_i hends
    exact ⟨Except.ok.inj (hn.symm.trans hcases.1), hcases.2, order, horder, hordered, hstate, hends⟩
  · obtain ⟨⟨-, -, -, err, -, hresult⟩, -⟩ := hcases
    cases hn.symm.trans hresult

/-- An export that fails tells of nothing but that the partition was finalized. -/
theorem Partition.exportSink_of_error (p : Partition) (sink : Sink σ) (batchSize : Nat) (schedule : Schedule)
    (state : σ) {e : Failure ExportError}
    (he : (p.exportSink sink workers batchSize schedule state).result = .error e) :
    (p.exportSink sink workers batchSize schedule state).events = [.finalized p.finalize.size] := by
  obtain ⟨-, -, hreport⟩ := p.exportSink_leaves sink workers batchSize schedule state
  cases hout : (sink.insertAll workers batchSize schedule p.finalize.rows state).1 <;> rw [hout] at hreport
  · exact hreport.2
  · cases hreport.1.symm.trans he

end Exports

/-! ## Databases -/

/-- The batches that were inserted, given how the jobs for them ended. -/
def stored : List (List Row) → List (JobEnd SinkError) → List (List Row)
  | b :: bs, .done :: ends => b :: stored bs ends
  | _ :: bs, _ :: ends => stored bs ends
  | _, _ => []

theorem stored_sublist (batches : List (List Row)) (ends : List (JobEnd SinkError)) :
    (stored batches ends).Sublist batches := by
  fun_induction stored batches ends with
  | case1 b bs ends ih => exact ih.cons_cons b
  | case2 b bs e ends _ ih => exact ih.cons b
  | case3 => exact List.nil_sublist _

namespace Database.Lawful

variable {δ : Type} {db : Database δ} {Holds : δ → Relation → Prop} {Within : δ → Relation → Relation → Prop}
variable {s : δ} {t : Relation}

/-- A batch that is handed over is inserted, or the database refuses it and keeps its table. -/
theorem insertIfAbsent_sink (h : db.Lawful Holds Within) (hs : Holds s t) (rows : List Row) :
    let out := db.sink.insertIfAbsent rows s
    out.1 = .done ∧ Holds out.2 (t.insertRows rows) ∨ ∃ e, out.1 = .failed e ∧ Holds out.2 t := by
  have hends := h.insertIfAbsent hs rows
  rcases hr : db.insertIfAbsent rows s with ⟨e | _, s'⟩ <;> rw [hr] at hends
  · rw [sink_of_error hr]
    exact .inr ⟨e, rfl, hends⟩
  · rw [sink_of_ok hr]
    exact .inl ⟨rfl, hends⟩

/-- Of batches that are handed over one after the other those are inserted for which the job was done. -/
theorem handAll (h : db.Lawful Holds Within) (hs : Holds s t) (batches : List (List Row)) :
    let (ends, s') := db.sink.handAll batches s
    Holds s' (t.insertRows (stored batches ends).flatten) ∧
      (∀ e ∈ ends, e = .done ∨ ∃ err, e = .failed err) ∧
      ((∀ e ∈ ends, e = .done) → stored batches ends = batches) := by
  induction batches generalizing s t with
  | nil => exact ⟨hs, List.forall_mem_nil _, fun _ => rfl⟩
  | cons b bs ih =>
      have hb := h.insertIfAbsent_sink hs b
      rcases hout : db.sink.insertIfAbsent b s with ⟨result, s₁⟩
      rw [hout] at hb
      simp only [Sink.handAll, hout]
      rcases hb with ⟨rfl, hb⟩ | ⟨err, rfl, hb⟩
      · obtain ⟨hholds, hends, hall⟩ := ih hb
        refine ⟨?_, List.forall_mem_cons.mpr ⟨.inl rfl, hends⟩, fun hdone => ?_⟩
        · rw [stored, List.flatten_cons, Relation.insertRows_append]
          exact hholds
        · rw [stored, hall (List.forall_mem_cons.mp hdone).2]
      · obtain ⟨hholds, hends, -⟩ := ih hb
        refine ⟨hholds, List.forall_mem_cons.mpr ⟨.inr ⟨err, rfl⟩, hends⟩, fun hdone => ?_⟩
        cases (List.forall_mem_cons.mp hdone).1

/-- However many workers there are and however they take turns, some of the rows are inserted, in some order,
and all of them if there is no error. -/
theorem insertAll (h : db.Lawful Holds Within) (hs : Holds s t) (workers batchSize : Nat)
    (schedule : Schedule) (rows : List Row) :
    let out := db.sink.insertAll workers batchSize schedule rows s
    ∃ rows', rows' ⊆ rows ∧ Holds out.2 (t.insertRows rows') ∧ (out.1 = .ok () → rows'.Perm rows) := by
  intro out
  by_cases hworkers : workers ≤ Pool.workerLimit
  · obtain ⟨taken, left, order, told, htaken, hsame, hstate, htold, hcases⟩ :=
      db.sink.insertAll_handAll hworkers batchSize schedule rows s
    obtain ⟨hholds, hends, hall⟩ := h.handAll hs order
    have hmild : ∀ e ∈ (db.sink.handAll order s).1, e ≠ .fatal := by
      intro e he hfatal
      rcases hends e he with rfl | ⟨err, rfl⟩ <;> cases hfatal
    obtain ⟨rfl, hanswer⟩ := hcases.resolve_right fun h => Sink.not_left_of_mild hmild h.2.2
    rw [List.filter_eq_self.mpr fun e he => by simpa [← Pool.isFatal_iff] using hmild e he] at htold
    have hperm : order.flatten.Perm rows := by
      rw [← Row.flatten_batches batchSize rows, ← htaken, List.append_nil]
      exact hsame.1.flatten
    refine ⟨(stored order (db.sink.handAll order s).1).flatten, fun r hr => ?_, ?_, fun hok => ?_⟩
    · obtain ⟨b, hb, hr⟩ := List.mem_flatten.mp hr
      exact hperm.mem_iff.mp (List.mem_flatten.mpr ⟨b, (stored_sublist _ _).subset hb, hr⟩)
    · rw [show out.2 = _ from hstate]
      exact hholds
    · rw [show out.1 = _ from hanswer, Failure.answer_eq_ok, Pool.firstError?_eq_none_iff] at hok
      rw [hall fun e he => hok e (htold.1.mem_iff.mp he)]
      exact hperm
  · rw [show out = _ from db.sink.insertAll_of_limit hworkers batchSize schedule rows s]
    exact ⟨[], List.nil_subset _, hs, nofun⟩

/-- An export inserts some of the rows, and all of them if it succeeds. -/
theorem exportSink (h : db.Lawful Holds Within) (hs : Holds s t) (p : Partition) (workers batchSize : Nat)
    (schedule : Schedule) :
    let report := p.exportSink db.sink workers batchSize schedule s
    report.partition = p.finalize ∧ ∃ rows, rows ⊆ p.finalize.rows ∧
      Holds report.destination (t.insertRows rows) ∧
        ∀ n, report.result = .ok n → n = p.finalize.rows.length ∧ rows.Perm p.finalize.rows := by
  intro report
  obtain ⟨hpartition, hdestination, hreport⟩ := p.exportSink_leaves db.sink workers batchSize schedule s
  obtain ⟨rows, hsub, hholds, hperm⟩ := h.insertAll hs workers batchSize schedule p.finalize.rows
  refine ⟨hpartition, rows, hsub, by rwa [show report.destination = _ from hdestination], fun n hn => ?_⟩
  cases hout : (db.sink.insertAll workers batchSize schedule p.finalize.rows s).1 <;> rw [hout] at hreport
  · rw [show report.result = _ from hreport.1] at hn
    cases hn
  · exact ⟨(Except.ok.inj (hreport.1.symm.trans hn)).symm, hperm hout⟩

end Database.Lawful

end Cospend
