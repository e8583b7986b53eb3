import Cospend.Clusterizer.Export
import Cospend.Proofs.Clusterizer.Driver

/-!
# What the events of a step tell

A step publishes its events as it goes. Those of a checkpoint and of a restore tell what the store holds at
that moment, whatever failed before, and whether or not ways to the roots were shortened by an export in
between.
-/

namespace Cospend

/-- The height of a partition and the number of its addresses. -/
structure Mark where
  height : Option Height
  size : Nat
  deriving DecidableEq, Repr

/-- The number of blocks up to the height, which is also the height of the next one. -/
def Mark.blocks (m : Mark) : Int := m.height.elim 0 fun h => h.toInt + 1

/-- What a table holds. -/
def Table.mark (t : Table) : Except ReadError Mark := do
  let height : Option Height ← t.look .height
  let size : Option UInt64 ← t.look .size
  return ⟨height, (size.getD 0).toNat⟩

def Partition.mark (p : Partition) : Mark := ⟨p.height, p.size⟩

namespace Event

def checkpoint? : Event → Option Mark
  | .checkpointed height size _ => some ⟨some height, size⟩
  | _ => none

def restore? : Event → Option Mark
  | .restored height size => some ⟨height, size⟩
  | _ => none

def block? : Event → Option Height
  | .blockStarted height _ _ => some height
  | _ => none

def arrival? : Event → Option (Option Height)
  | .caughtUp height => some height
  | _ => none

end Event

namespace Clusterizer

variable {β : Type} [WriteBatch β] {c c' c₁ : Clusterizer β} {env : Environment} {p q : Partition}
variable {es : List Event} {r : Except (Failure ClusterizerError) Phase}

/-! ## Phase, memory and store, up to the ways to the roots -/

/-- What goes with each phase while the store holds `p`. -/
def Abreast (p : Partition) (c : Clusterizer β) : Prop :=
  match c.phase with
  | .idle => c.stale = false → Partition.Alike c.partition p
  | .done => c.stale = false ∧ Partition.Alike c.partition p
  | .processing h => c.stale = false ∧ Partition.Alike c.partition p ∧ heightAfter p.height = .ok h
  | .checkpointing h => c.stale = false ∧ heightAfter p.height = .ok h ∧
    ∃ b q, c.pending = some b ∧ q.Numbered ∧ Partition.Alike q c.partition ∧ b.LeadsTo p.table q

/-- The store holds `p`, and the rest goes with the phase. -/
structure Aligned (p : Partition) (c : Clusterizer β) : Prop where
  numbered : p.Numbered
  table : c.store.table = p.table
  abreast : Abreast p c

/-! ## What is told on the way -/

/-- On the way from `c` to `c'` the store moved on from `p` to `q`, if at all, and `es` was published. -/
structure Passage (p : Partition) (c : Clusterizer β) (q : Partition) (es : List Event)
    (c' : Clusterizer β) : Prop where
  numbered : q.Numbered
  table : c'.store.table = q.table
  published : c'.published = c.published ++ es
  phase_eq : c'.phase = c.phase
  stale_eq : c'.stale = (c.stale && !(Partition.load c.store).isOk)
  checkpoints : q = p ∧ es.filterMap Event.checkpoint? = [] ∨
    ∃ h, heightAfter p.height = .ok h ∧ q.height = some h ∧ es.filterMap Event.checkpoint? = [q.mark]
  restores : es.filterMap Event.restore? =
    if c.stale && (Partition.load c.store).isOk then [p.mark] else []
  blocks : ∀ h ∈ es.filterMap Event.block?, heightAfter p.height = .ok h

/-- A transition from `c` over a store that held `p` ended in this way. -/
structure Recounts (p : Partition) (c : Clusterizer β) (q : Partition) (es : List Event)
    (r : Except (Failure ClusterizerError) Phase × Clusterizer β) : Prop
    extends Passage p c q es r.2 where
  arrivals : es.filterMap Event.arrival? = if r.1 = .ok .done ∧ c.phase ≠ .done then [q.height] else []
  ok {phase : Phase} (h : r.1 = .ok phase) : Abreast q { r.2 with phase }
  error {e : ClusterizerError} (h : r.1 = .error (.error e)) : Abreast q (r.2.fallBack c.phase)

/-- Nothing is told while nothing is read back. -/
theorem Aligned.passage_of_unread (h : Aligned p c)
    (hunread : (c.stale && (Partition.load c.store).isOk) = false) : Passage p c p [] c where
  numbered := h.numbered
  table := h.table
  published := (List.append_nil _).symm
  phase_eq := rfl
  stale_eq := by
    cases hstale : c.stale with
    | false => rfl
    | true =>
        rw [hstale, Bool.true_and] at hunread
        rw [hunread]
        rfl
  checkpoints := .inl ⟨rfl, rfl⟩
  restores := by rw [hunread]; rfl
  blocks _ hh := absurd hh List.not_mem_nil

theorem Aligned.passage (h : Aligned p c) (hstale : c.stale = false) : Passage p c p [] c :=
  h.passage_of_unread (by rw [hstale, Bool.false_and])

omit [WriteBatch β] in
/-- A walk that arrived tells so. -/
theorem Passage.caughtUp (h : Passage p c q es c₁) (height : Option Height) :
    Passage p c q (es ++ [.caughtUp height])
      { c₁ with published := c₁.published ++ [.caughtUp height] } := by
  have hquiet {α : Type} (f : Event → Option α) (hf : f (.caughtUp height) = none) :
      (es ++ [Event.caughtUp height]).filterMap f = es.filterMap f := by
    rw [List.filterMap_append, List.filterMap_cons_none hf, List.filterMap_nil, List.append_nil]
  exact { h with
    published := by rw [h.published, List.append_assoc]
    checkpoints := by rw [hquiet _ rfl]; exact h.checkpoints
    restores := by rw [hquiet _ rfl]; exact h.restores
    blocks := by rw [hquiet _ rfl]; exact h.blocks }

/-- An error is not told. What memory has then matters only if it is not to be read back. -/
theorem Passage.failed (h : Passage p c q es c₁) (hnone : es.filterMap Event.arrival? = [])
    (hpartition : (c₁.stale || c.phase.isMidBlock) = false → Partition.Alike c₁.partition q)
    (e : Failure ClusterizerError) : Recounts p c q es (.error e, c₁) :=
  { h with arrivals := hnone, ok := nofun, error := fun _ => hpartition }

/-- After an error in the middle of a block the partition is stale. -/
theorem Passage.failed_midBlock (h : Passage p c q es c₁) (hnone : es.filterMap Event.arrival? = [])
    (hphase : c.phase.isMidBlock = true) (e : Failure ClusterizerError) :
    Recounts p c q es (.error e, c₁) := by
  refine h.failed hnone (fun hclear => ?_) e
  rw [hphase, Bool.or_true] at hclear
  cases hclear

/-- With the partition of the store in memory, the phase that comes next is told if the walk arrived. -/
theorem Passage.phaseAfter (h : Passage p c q es c₁) (hnone : es.filterMap Event.arrival? = [])
    (hdone : c.phase ≠ .done) (hstale : c₁.stale = false)
    (hpartition : Partition.Alike c₁.partition q) :
    ∃ es', Recounts p c q es' (phaseAfter env q.height c₁) := by
  rcases phaseAfter_cases env q.height c₁ with ⟨e, log, heq⟩ | ⟨next, hnext, heq⟩ | heq <;> rw [heq]
  · have hlogged : Passage p c q es { c₁ with log } := { h with }
    exact ⟨es, hlogged.failed hnone (fun _ => hpartition) e⟩
  · refine ⟨es, { h with arrivals := hnone, ok := fun {phase} hphase => ?_, error := nofun }⟩
    cases hphase
    exact ⟨hstale, hpartition, hnext⟩
  · refine ⟨_, { h.caughtUp q.height with arrivals := ?_, ok := fun {phase} hphase => ?_, error := nofun }⟩
    · rw [List.filterMap_append, hnone, if_pos ⟨rfl, hdone⟩]
      rfl
    · cases hphase
      exact ⟨hstale, hpartition⟩

/-- A stale partition stays stale, or it is read back and this is told. -/
theorem Aligned.recovered (h : Aligned p c) (hphase : c.phase = .idle) :
    ∃ es c₁, Passage p c p es c₁ ∧ es.filterMap Event.arrival? = [] ∧
      (recover c = (.ok (), c₁) ∧ c₁.stale = false ∧ Partition.Alike c₁.partition p ∨
        ∃ e, recover c = (.error e, c₁) ∧ c₁.stale = true) := by
  have habreast := h.abreast
  rw [Abreast, hphase] at habreast
  cases hstale : c.stale with
  | false =>
      exact ⟨[], c, h.passage hstale, rfl, .inl ⟨recover_of_not_stale hstale, hstale, habreast hstale⟩⟩
  | true =>
      cases hload : Partition.load c.store with
      | error e =>
          obtain ⟨log, hrecover⟩ := recover_of_error hstale hload
          have hunread : (c.stale && (Partition.load c.store).isOk) = false := by rw [hload, hstale]; rfl
          exact ⟨[], { c with log }, { h.passage_of_unread hunread with }, rfl, .inr ⟨_, hrecover, hstale⟩⟩
      | ok q =>
          obtain ⟨log, hrecover⟩ := recover_of_ok hstale hload
          -- nothing but `p` can be read back from a store that holds it
          obtain rfl := h.numbered.load_eq h.table hload
          refine ⟨[.restored q.height q.size], _, ?_, rfl, .inl ⟨hrecover, rfl, h.numbered.toSound.alike⟩⟩
          exact {
            numbered := h.numbered
            table := h.table
            published := rfl
            phase_eq := rfl
            stale_eq := by rw [hload, hstale]; rfl
            checkpoints := .inl ⟨rfl, rfl⟩
            restores := by rw [hload, hstale]; rfl
            blocks := fun _ hh => absurd hh List.not_mem_nil }

theorem Aligned.resume_recounts (h : Aligned p c) (env : Environment) (hphase : c.phase = .idle) :
    ∃ es, Recounts p c p es (resume env c) := by
  have hdone : c.phase ≠ .done := by rw [hphase]; decide
  obtain ⟨es, c₁, hpassage, hnone, ⟨hrecover, hstale, hpartition⟩ | ⟨e, hrecover, hstale⟩⟩ :=
    h.recovered hphase
  · rw [resume, bind_of_ok hrecover, bind_get, hpartition.height_eq]
    exact hpassage.phaseAfter hnone hdone hstale hpartition
  · rw [resume, bind_of_error hrecover]
    refine ⟨es, hpassage.failed hnone (fun hclear => ?_) e⟩
    rw [hstale, Bool.true_or] at hclear
    cases hclear

variable [LawfulBatch β]

theorem Aligned.processing_recounts (h : Aligned p c) (env : Environment) {height : Height}
    (hphase : c.phase = .processing height) :
    ∃ es, Recounts p c p es (transition env (.processing height) c) := by
  have habreast := h.abreast
  rw [Abreast, hphase] at habreast
  obtain ⟨hstale, hpartition, hnext⟩ := habreast
  obtain ⟨es, partition, pending, log, clock, hleft, -, htold⟩ := worked_processBlock env height c
  have hquiet : es.filterMap Event.checkpoint? = [] ∧ es.filterMap Event.restore? = [] ∧
      es.filterMap Event.arrival? = [] ∧ ∀ g ∈ es.filterMap Event.block?, g = height := by
    rcases htold with rfl | ⟨hash, n, rfl⟩
    · exact ⟨rfl, rfl, rfl, fun _ hg => absurd hg List.not_mem_nil⟩
    · exact ⟨rfl, rfl, rfl, fun g hg => List.mem_singleton.mp hg⟩
  obtain ⟨hcheckpoints, hrestores, harrivals, hblocks⟩ := hquiet
  have hpassage : Passage p c p es (processBlock env height c).2 := by
    rw [hleft]
    exact { h.passage hstale with
      published := rfl
      checkpoints := .inl ⟨rfl, hcheckpoints⟩
      restores := by rw [hrestores, hstale]; rfl
      blocks := fun g hg => hblocks g hg ▸ hnext }
  refine ⟨es, bind_cases (x := processBlock env height) (motive := Recounts p c p es) ?_ ?_⟩
  · intro e c' hprocess
    rw [hprocess] at hpassage
    exact hpassage.failed_midBlock harrivals (by rw [hphase]; rfl) e
  · intro u c' hprocess
    rw [hprocess] at hpassage
    have hclear : c'.stale = false := hpassage.stale_eq.trans (by rw [hstale]; rfl)
    obtain ⟨b, hpending, hstaged⟩ := staged_processBlock (hpartition.numbered h.numbered) hprocess
    -- the same changes, made to the partition in the store, are what the batch leads to
    obtain ⟨change, -, hchange⟩ := hstaged.change
    obtain ⟨halike, hleads⟩ := hchange p hpartition.symm
    refine { hpassage with arrivals := harrivals, ok := fun {phase} hr => ?_, error := nofun }
    cases hr
    exact ⟨hclear, hnext, b, change p, hpending, halike.numbered hstaged.numbered, halike,
      hleads p.table (Pending.leadsTo_empty p)⟩

theorem Aligned.checkpointing_recounts (h : Aligned p c) {height : Height}
    (hphase : c.phase = .checkpointing height) :
    ∃ q es, Recounts p c q es (transition env (.checkpointing height) c) := by
  have habreast := h.abreast
  rw [Abreast, hphase] at habreast
  obtain ⟨hstale, hnext, b, q, hpending, hnumbered, halike, hleads⟩ := habreast
  rcases checkpoint_cases height hpending (h.table ▸ hleads) with
    ⟨e, store, log, heq, htable⟩ | ⟨store, writes, heq, htable⟩
  · have hpassage : Passage p c p [] { c with store, pending := none, log } :=
      { h.passage hstale with table := htable.trans h.table }
    rw [transition, bind_of_error heq]
    exact ⟨p, [], hpassage.failed_midBlock rfl (by rw [hphase]; rfl) _⟩
  · have hpassage : Passage p c (q.checkpointed (some height))
        [.checkpointed height c.partition.size writes] { c with
          store, partition := c.partition.checkpointed (some height), pending := none
          published := c.published ++ [.checkpointed height c.partition.size writes] } :=
      { h.passage hstale with
        numbered := hnumbered.checkpointed _
        table := htable
        published := rfl
        checkpoints := by
          refine .inr ⟨height, hnext, rfl, ?_⟩
          rw [← halike.size_eq]
          rfl }
    rw [transition, bind_of_ok heq]
    exact ⟨_, hpassage.phaseAfter rfl (by simp [hphase]) hstale (halike.symm.checkpointed _)⟩

theorem Aligned.transition_recounts (h : Aligned p c) :
    ∃ q es, Recounts p c q es (transition env c.phase c) := by
  cases hphase : c.phase with
  | idle =>
      obtain ⟨es, hes⟩ := h.resume_recounts env hphase
      exact ⟨p, es, hes⟩
  | processing height =>
      obtain ⟨es, hes⟩ := h.processing_recounts env hphase
      exact ⟨p, es, hes⟩
  | checkpointing height => exact h.checkpointing_recounts hphase
  | done =>
      have habreast := h.abreast
      rw [Abreast, hphase] at habreast
      refine ⟨p, [], { h.passage habreast.1 with
        arrivals := (if_neg fun hne => hne.2 hphase).symm, ok := fun {phase} hr => ?_, error := nofun }⟩
      cases hr
      exact habreast

end Clusterizer

end Cospend
