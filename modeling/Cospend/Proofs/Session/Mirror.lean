import Cospend.Proofs.Session.Basic

/-!
# Sessions and their stores

In every session the store overlaid with the current batch shows a partition that is alike to the one
in memory, and the very same if nothing was finalized. Hence a batch that was written can be read back.
-/

namespace Cospend.Session

variable {β : Type} [WriteBatch β] [LawfulBatch β] {s : Session β} {exact : Prop}

/-- The store holds some partition, and overlaid with the current batch it shows one that is alike to
the partition in memory, or the same one if that is asked for. -/
structure Kept (exact : Prop) (s : Session β) : Prop where
  durable : ∃ q : Partition, q.Numbered ∧ s.store.table = q.table
  numbered : s.lost = false → s.partition.Numbered
  shown : s.lost = false → ∃ q, Partition.Alike q s.partition ∧ (exact → q = s.partition) ∧
    s.pending.LeadsTo s.store.table q

theorem kept_start : Kept exact (start : Session β) where
  durable := ⟨Partition.empty, Partition.numbered_empty, Partition.table_empty.symm⟩
  numbered _ := Partition.numbered_empty
  shown _ := by
    refine ⟨Partition.empty, Partition.numbered_empty.toSound.alike, fun _ => rfl, ?_⟩
    rw [show (start : Session β).store.table = _ from Partition.table_empty.symm]
    exact Pending.leadsTo_empty _

/-- After a batch was written or the partition was read back, memory and store are one. -/
theorem Kept.of_table {p : Partition} {store : Store} (hp : p.Numbered) {q : Partition}
    (hq : Partition.Alike q p) (hexact : exact → q = p) (ht : store.table = q.table) :
    Kept exact (⟨store, ⟨p, .empty⟩, false⟩ : Session β) where
  durable := ⟨q, hq.numbered hp, ht⟩
  numbered _ := hp
  shown _ := ⟨q, hq, hexact, by rw [show store.table = _ from ht]; exact Pending.leadsTo_empty q⟩

omit [LawfulBatch β] in
theorem Kept.of_lost (h : s.Kept exact) {store : Store} (ht : store.table = s.store.table)
    (p : Partition) : Kept exact (⟨store, ⟨p, .empty⟩, true⟩ : Session β) where
  durable := ht ▸ h.durable
  numbered hl := by cases hl
  shown hl := by cases hl

/-! ## Each call keeps the store -/

omit [LawfulBatch β] in
theorem Kept.staged (h : s.Kept exact) (hlost : s.lost = false) {w : Workspace β}
    (hw : Workspace.Staged s.workspace w) : Kept exact { s with workspace := w } where
  durable := h.durable
  numbered _ := hw.numbered
  shown _ := by
    obtain ⟨q, hq, hexact, hleads⟩ := h.shown hlost
    obtain ⟨change, heq, hchange⟩ := hw.change
    refine ⟨change q, (hchange q hq).1, fun he => ?_, (hchange q hq).2 _ hleads⟩
    rw [hexact he]
    exact heq.symm

theorem Kept.setHeight (h : s.Kept exact) (hlost : s.lost = false) (height : Height) :
    Kept exact (s.perform (.setHeight height)).2 where
  durable := h.durable
  numbered := h.numbered
  shown _ := by
    obtain ⟨q, hq, hexact, hleads⟩ := h.shown hlost
    exact ⟨q, hq, hexact, hleads.stage_height height⟩

omit [LawfulBatch β] in
theorem Kept.finalize (h : s.Kept exact) (hlost : s.lost = false) (hexact : ¬ exact) :
    Kept exact (s.replace s.partition.finalize) where
  durable := h.durable
  numbered _ := (h.numbered hlost).finalize.numbered (h.numbered hlost)
  shown _ := by
    obtain ⟨q, hq, -, hleads⟩ := h.shown hlost
    exact ⟨q, hq.trans (h.numbered hlost).finalize.symm, fun he => absurd he hexact, hleads⟩

theorem Kept.flush (h : s.Kept exact) (hlost : s.lost = false) :
    Kept exact (s.perform (.flush none)).2 := by
  obtain ⟨q, hq, hexact, hleads⟩ := h.shown hlost
  rw [perform_flush_none]
  refine .of_table ((h.numbered hlost).checkpointed _) (hq.checkpointed _) (fun he => ?_) hleads
  rw [hexact he]

theorem Kept.readBack (h : s.Kept exact) {faults : Faults} {p : Partition}
    (hload : Partition.load (s.store.withFaults faults) = .ok p) :
    Kept exact (⟨s.store, ⟨p, .empty⟩, false⟩ : Session β) := by
  obtain ⟨q, hq, ht⟩ := h.durable
  obtain rfl := hq.load_eq (s := s.store.withFaults faults) ht hload
  exact .of_table hq hq.alike (fun _ => rfl) ht

theorem Kept.becomes (h : s.Kept exact) {c : Call} {s' : Session β} (hs' : Becomes s c s')
    (hc : exact → c.isFinalize = false) : Kept exact s' := by
  cases hs' with
  | worked hlost hw => exact h.staged hlost (hw.staged (h.numbered hlost))
  | measured hlost height => exact h.setHeight hlost height
  | finalized hlost hf => exact h.finalize hlost fun he => by rw [hc he] at hf; cases hf
  | written hlost => exact h.flush hlost
  | givenUp ht => exact h.of_lost ht _
  | readBack hload => exact h.readBack hload

theorem Kept.restore (h : s.Kept exact) (faults : Faults) :
    Kept exact (s.perform (.restore faults)).2 :=
  h.becomes (becomes_restore faults) fun _ => rfl

theorem Kept.perform (h : s.Kept exact) {c : Call} (hc : exact → c.isFinalize = false)
    (hlost : s.lost = true → c.isRestore = true) : Kept exact (s.perform c).2 :=
  h.becomes (becomes_perform (fun hl => (h.numbered hl).toSound) hlost) hc

theorem Reachable.kept {usable : Call → Prop} (h : Reachable usable s)
    (husable : ∀ c, usable c → exact → c.isFinalize = false) : s.Kept exact := by
  induction h with
  | start => exact kept_start
  | call _ hc hlost ih => exact ih.perform (husable _ hc) hlost

/-- With nothing pending, the store can be read back. -/
theorem Kept.load (h : s.Kept exact) (hlost : s.lost = false) (hpending : s.pending = .empty) :
    ∃ q, Partition.Alike q s.partition ∧ (exact → q = s.partition) ∧
      Partition.load (s.store.withFaults Faults.none) = .ok q := by
  obtain ⟨q, hq, hexact, hleads⟩ := h.shown hlost
  have ht : (s.store.withFaults Faults.none).table = q.table := by
    rw [hpending] at hleads
    exact (LawfulBatch.applyTo_empty _).symm.trans hleads
  have hload := (hq.numbered (h.numbered hlost)).loadedFrom rfl ht
  exact ⟨q, hq, hexact, Partition.load_eq_ok.mpr hload⟩

/-! ## Without finalizing -/

/-- Every change is mirrored. Unless a batch was just lost, the store overlaid with the current batch has
a value for each variable that the partition gives one, with the height that is staged or else the
one last written, and it has no other entry. After a batch was written, the partition read back from
the store is the one in memory. -/
theorem Reachable.mirrored (h : Reachable (fun c => c.isFinalize = false) s) (hlost : s.lost = false) :
    s.overlay.Shows (s.partition.checkpointed s.pending.checkpoint).value? ∧
    ∀ fault s', s.perform (.flush fault) = (.ok none, s') →
      Partition.empty.restore (s'.store.withFaults Faults.none) = (.ok (), s'.partition) := by
  have hkept : s.Kept True := h.kept fun _ hc _ => hc
  constructor
  · obtain ⟨q, -, hq, hleads⟩ := hkept.shown hlost
    obtain rfl := hq trivial
    rw [overlay, show WriteBatch.applyTo _ _ = _ from hleads]
    exact Partition.shows_table _
  · rintro (_ | reason) s' hs'
    · have hkept' := hkept.flush hlost
      rw [hs'] at hkept'
      rw [perform_flush_none] at hs'
      cases hs'
      obtain ⟨q, -, hq, hload⟩ := hkept'.load rfl rfl
      obtain rfl := hq trivial
      simp only [Partition.restore, hload]
    · rw [perform_flush_some] at hs'
      cases hs'

theorem mirrored_union :
    let s : Session Delta :=
      (start.run [.register ⟨"a"⟩, .register ⟨"b"⟩, .union ⟨"a"⟩ ⟨"b"⟩, .setHeight .genesis]).2
    let s' := (s.perform (.flush none)).2
    Reachable (fun c => c.isFinalize = false) s ∧ s.lost = false ∧
      s.overlay.Shows (s.partition.checkpointed s.pending.checkpoint).value? ∧
      Partition.empty.restore (s'.store.withFaults Faults.none) = (.ok (), s'.partition) := by
  intro s s'
  have hreach : Reachable (fun c => c.isFinalize = false) s :=
    .call (.call (.call (.call .start rfl (fun h => by cases h)) rfl (fun h => by cases h)) rfl
      (fun h => by cases h)) rfl (fun h => by cases h)
  obtain ⟨hshows, hrestore⟩ := hreach.mirrored rfl
  exact ⟨hreach, rfl, hshows, hrestore none s' rfl⟩

end Cospend.Session
