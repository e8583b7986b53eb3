import Cospend.Proofs.Forest.Loops
import Cospend.Proofs.Session.Mirror

/-!
# Sessions over any store

A store may hold anything. Whatever is read back from it is sound, and every call leaves it sound, so that
no walk runs in a circle or out of bounds. Nothing is abandoned but a merge of two roots of the greatest
rank, and the registration of an address for which there is no memory left.
-/

namespace Cospend

/-! ## Ways that were shortened -/

namespace Workspace

variable {β : Type} [WriteBatch β] {w w' w'' : Workspace β} {a b : Address}

/-- What a table holds for the parent of a number once the pending changes are made. -/
def shownParent (w : Workspace β) (t : Table) (i : Nat) : Option Bytes :=
  (WriteBatch.applyTo w.pending.writes t)[(Variable.parent i).key]?

/-- From `w` to `w'` only ways were shortened: each number has the parent that it had, or its root, and
then this is staged. -/
structure Shortened (w w' : Workspace β) : Prop where
  alike : Partition.Alike w'.partition w.partition
  parent (t : Table) (i : Nat) :
    w'.partition.forest.next i = w.partition.forest.next i ∧ w'.shownParent t i = w.shownParent t i ∨
    w'.partition.forest.next i = w.partition.forest.root i ∧
      w'.shownParent t i = some ((Variable.parent i).encode (.ofNat (w'.partition.forest.next i)))

/-- A way that was shortened twice ends at the same root. -/
theorem Shortened.trans (h : Shortened w w') (h' : Shortened w' w'') : Shortened w w'' := by
  refine ⟨h'.alike.trans h.alike, fun t i => ?_⟩
  rcases h'.parent t i with ⟨hnext', hshown'⟩ | ⟨hnext', hshown'⟩
  · rcases h.parent t i with ⟨hnext, hshown⟩ | ⟨hnext, hshown⟩
    · exact .inl ⟨hnext'.trans hnext, hshown'.trans hshown⟩
    · refine .inr ⟨hnext'.trans hnext, ?_⟩
      rw [hshown', hshown, hnext']
  · exact .inr ⟨hnext'.trans (h.alike.forest.root_eq i), hshown'⟩

variable [LawfulBatch β]

theorem shownParent_shorten (w : Workspace β) (c : Forest.Compression) (t : Table) (i : Nat) :
    (w.shorten c).shownParent t i =
      if i ∈ c.moved then some ((Variable.parent i).encode (.ofNat c.root)) else w.shownParent t i := by
  obtain ⟨p, b⟩ := w
  simp only [shownParent, shorten]
  -- all nodes are given the same parent, so it does not matter which one is staged last
  induction c.moved generalizing b with
  | nil => rfl
  | cons j moved ih =>
      rw [List.foldl_cons, ih, Pending.applyTo_stage]
      by_cases hj : i = j
      · subst hj
        simp
      · rw [getElem?_insert_ne fun hk => hj (by cases Variable.key_inj.mp hk; rfl)]
        simp [hj]

theorem shortened_find (hw : w.partition.Sound) (a : Address) : Shortened w (find a w).2 := by
  refine ⟨find_alike hw rfl, fun t i => ?_⟩
  cases hid : w.partition.ids[a]? with
  | none =>
      rw [find_of_none hid]
      exact .inl ⟨rfl, rfl⟩
  | some id =>
      rw [find_of_some hid, shownParent_shorten]
      have hnext : (w.shorten (w.partition.forest.compress id)).partition.forest.next i = _ :=
        Forest.next_reparent _ _ i
      by_cases hmoved : i ∈ (w.partition.forest.compress id).moved
      · obtain ⟨hroot, hne⟩ := hw.forest.compress_moved hmoved
        have hlt : i < w.partition.forest.size :=
          Forest.lt_size_of_root_ne (by rw [hroot]; exact hne.symm)
        rw [if_pos ⟨hmoved, hlt⟩] at hnext
        rw [if_pos hmoved, hnext]
        exact .inr ⟨hroot.symm, rfl⟩
      · rw [if_neg fun h => hmoved h.1] at hnext
        rw [if_neg hmoved]
        exact .inl ⟨hnext, rfl⟩

/-- A merge that is abandoned has shortened the ways from both addresses by then, and done nothing else. -/
theorem shortened_union {e : Abort} (hw : w.partition.Sound)
    (h : union a b w = (.error (.abort e), w')) : Shortened w w' := by
  have hfirst := shortened_find hw a
  rcases hx : find a w with ⟨ex | x, w₁⟩
  · obtain ⟨rfl, -, -⟩ := find_eq_error hx
    rw [union, bind_of_error hx] at h
    cases h
  · rw [hx] at hfirst
    have hw₁ := hfirst.alike.sound hw
    have hsecond := shortened_find hw₁ b
    rw [union, bind_of_ok hx] at h
    rcases hy : find b w₁ with ⟨ey | y, w₂⟩
    · obtain ⟨rfl, -, -⟩ := find_eq_error hy
      rw [bind_of_error hy] at h
      cases h
    · rw [hy] at hsecond
      rw [bind_of_ok hy] at h
      split at h
      · cases h
      · unfold link at h
        split at h <;> cases h
        exact hfirst.trans hsecond

end Workspace

/-! ## Every call keeps a sound partition -/

namespace Session

variable {β : Type} [WriteBatch β] {s s' : Session β} {p p₀ : Partition} {store : Store} {c : Call}

theorem sound_perform (hs : s.partition.Sound) (c : Call) : (s.perform c).2.partition.Sound := by
  have hfinalize : c.isFinalize = true → (s.perform c).2.partition.Sound := by
    intro hc
    rw [perform_finalize hc]
    exact hs.finalize.sound hs
  cases c with
  | register a =>
      simp only [perform, work, Workspace.register]
      split
      · exact hs
      · split
        · exact hs
        · exact hs.add a
  | find a => exact (Workspace.find_alike (w := s.workspace) hs (a := a) rfl).sound hs
  | union a b => exact (Workspace.union_merged hs a b).sound hs
  | setHeight height => exact hs
  | finalize => exact hfinalize rfl
  | exportSheet d path => exact hfinalize rfl
  | exportSink sink workers batchSize schedule state => exact hfinalize rfl
  | flush fault =>
      cases fault with
      | none => exact ⟨hs.forest, hs.ids_lt⟩
      | some reason => exact hs
  | drop => exact hs
  | restore faults =>
      cases hload : Partition.load (s.store.withFaults faults) with
      | error e =>
          rw [perform_restore_of_error hload]
          exact hs
      | ok q =>
          rw [perform_restore_of_ok hload]
          exact (Partition.load_eq_ok.mp hload).sound

theorem sound_run (hs : s.partition.Sound) (cs : List Call) : (s.run cs).2.partition.Sound := by
  induction cs generalizing s with
  | nil => exact hs
  | cons c cs ih => exact ih (sound_perform hs c)

/-- A call that is abandoned is a merge of two roots of the greatest rank, or a registration for which
there is no memory left. -/
theorem perform_abort {e : Abort} (hc : c.isRestore = false)
    (h : s.perform c = (.error (.abort e), s')) :
    (∃ a b, c = .union a b ∧ Workspace.union a b s.workspace = (.error (.abort e), s'.workspace) ∧
      s'.store = s.store) ∨
    ∃ a, c = .register a ∧ e = .exhausted ∧
      Partition.capacityLimit ≤ s.partition.size + 1 ∧ s' = s := by
  cases c with
  | register a =>
      simp only [perform, work, Workspace.register] at h
      split at h
      · cases h
      · split at h <;> cases h
        exact .inr ⟨a, rfl, rfl, ‹_›, rfl⟩
  | find a =>
      rcases hfind : Workspace.find a s.workspace with ⟨e' | x, w⟩
      · obtain ⟨rfl, -, -⟩ := Workspace.find_eq_error hfind
        rw [perform, work, hfind] at h
        cases h
      · rw [perform, work, hfind] at h
        cases h
  | union a b =>
      rcases hunion : Workspace.union a b s.workspace with ⟨e' | x, w⟩ <;>
        rw [perform, work, hunion] at h <;> cases h
      exact .inl ⟨a, b, rfl, hunion, rfl⟩
  | flush fault => cases fault <;> cases h
  | exportSheet d path =>
      rw [perform_finalize rfl] at h
      cases h
  | exportSink sink workers batchSize schedule state =>
      rw [perform_finalize rfl] at h
      cases h
  | setHeight height => cases h
  | finalize => cases h
  | drop => cases h
  | restore faults => cases hc

/-- A merge is abandoned exactly if the addresses are in different clusters and both roots have the
greatest rank. -/
theorem perform_union_aborts_iff {a b : Address} {e : Abort} (hs : s.partition.Sound) :
    (s.perform (.union a b)).1 = .error (.abort e) ↔ e = .addOverflow ∧
      ∃ x y, s.partition.clusterOf a = some x ∧ s.partition.clusterOf b = some y ∧ x ≠ y ∧
        s.partition.forest.rankOf x = Forest.maxRank ∧ s.partition.forest.rankOf y = Forest.maxRank := by
  rw [← (Workspace.union_merged hs a b).aborts_iff, perform, work]
  rcases Workspace.union a b s.workspace with ⟨e' | x, w⟩ <;> simp [Except.map]

variable [LawfulBatch β]

/-- Take any partition that was read back, from whatever store, and any calls after that. There is a rank
for each number, every parent and every number of an address is a number, and there is no cycle. So the
loops that look for a root and shorten the way to it end without a read out of bounds, also where other
ways were shortened just before. A merge is abandoned exactly if both roots have the greatest rank; it
leaves everything as it was, but for parents that became roots of their nodes and are staged. Otherwise
only a registration is abandoned, if there is no memory left for it. -/
theorem run_restored (h : p₀.restore store = (.ok (), p)) {s₀ : Session β} (hs₀ : s₀.partition = p)
    (cs : List Call) :
    let s := (s₀.run cs).2
    let f := s.partition.forest
    (f.rank.size = f.size ∧ (∀ i j : Nat, f.parent[i]? = some j → j < f.size) ∧
      (∀ (a : Address) (i : Nat), s.partition.ids[a]? = some i → i < f.size) ∧ f.cycle? = none) ∧
    (∀ (is : List Nat) (i : Nat), i < f.size →
      let g := is.foldl (fun f i => (f.compress i).forest) f
      g.root i < g.rank.size ∧ Forest.Climbs g.parent i (g.root i) ∧
        Forest.Sweeps (g.root i) g.parent i (g.compress i).moved (g.compress i).forest.parent) ∧
    (∀ a b e, (s.perform (.union a b)).1 = .error (.abort e) ↔ e = .addOverflow ∧
      ∃ x y, s.partition.clusterOf a = some x ∧ s.partition.clusterOf b = some y ∧ x ≠ y ∧
        f.rankOf x = Forest.maxRank ∧ f.rankOf y = Forest.maxRank) ∧
    (∀ a b e s', s.perform (.union a b) = (.error (.abort e), s') →
      s'.partition.height = s.partition.height ∧ s'.partition.ids = s.partition.ids ∧
      s'.partition.size = s.partition.size ∧ s'.partition.forest.rank = f.rank ∧
      ∀ i, s'.partition.forest.next i = f.next i ∨ s'.partition.forest.next i = f.root i ∧
        s'.overlay[(Variable.parent i).key]? =
          some ((Variable.parent i).encode (.ofNat (s'.partition.forest.next i)))) ∧
    ∀ c e s', c.isRestore = false → s.perform c = (.error (.abort e), s') →
      (∃ a b, c = .union a b) ∨ ∃ a, c = .register a ∧ e = .exhausted ∧
        Partition.capacityLimit ≤ s.partition.size + 1 ∧ s' = s := by
  intro s f
  have hs : s.partition.Sound := by
    refine sound_run ?_ cs
    rw [hs₀]
    exact (Partition.load_eq_ok.mp (Partition.restore_eq_ok.mp h)).sound
  obtain ⟨hrank, hnext, hcycle⟩ := Forest.sound_iff.mp hs.forest
  refine ⟨⟨hrank, fun i j hi => ?_, fun a i => hs.ids_lt, hcycle⟩, fun is i hi => ?_,
    fun a b e => perform_union_aborts_iff hs, fun a b e s' habort => ?_, fun c e s' hc habort => ?_⟩
  · have hlt : i < f.size := (Array.getElem?_eq_some_iff.mp hi).1
    rw [Forest.getElem?_parent hlt] at hi
    cases hi
    exact hnext i hlt
  · intro g
    have hg := hs.forest.compressAll is
    have hi' : i < g.size := hg.size_eq ▸ hi
    refine ⟨?_, hg.sound_left.climbs hi', hg.sound_left.sweeps hi'⟩
    rw [hg.sound_left.rank_size]
    exact hg.sound_left.root_lt hi'
  · rcases perform_abort rfl habort with ⟨a, b, hc, hunion, hstore⟩ | ⟨a, hc, -⟩
    · have hshort := Workspace.shortened_union hs hunion
      refine ⟨hshort.alike.height_eq, hshort.alike.ids_eq, hshort.alike.size_eq,
        hshort.alike.forest.rank_eq, fun i => ?_⟩
      exact (hshort.parent s'.store.table i).imp And.left id
    · cases hc
  · rcases perform_abort hc habort with ⟨a, b, hc, -⟩ | hregister
    · exact .inl ⟨a, b, hc⟩
    · exact .inr hregister

/-- Two roots have the greatest rank, and from one of four nodes it is two steps to a root. -/
def fullRanks : Store :=
  ⟨Table.changeAll ∅ ([.set Variable.size.key (Variable.encode .size 4)] ++
    ([(0, 0, Forest.maxRank), (1, 1, Forest.maxRank), (2, 1, 0), (3, 2, 0)].flatMap fun e =>
      [.set (Variable.parent e.1).key (Variable.encode (.parent e.1) (.ofNat e.2.1)),
        .set (Variable.rank e.1).key (Variable.encode (.rank e.1) e.2.2)]) ++
    ([("A", 0), ("B", 1), ("C", 2), ("D", 3)].map fun e =>
      .set (Variable.addressId ⟨e.1⟩).key (Variable.encode (.addressId ⟨e.1⟩) (.ofNat e.2)))), .none, 0⟩

/-- The session over that store after it was read back. -/
def fullSession : Session Delta :=
  ⟨fullRanks, ⟨⟨none, ⟨#[0, 1, 1, 2], #[Forest.maxRank, Forest.maxRank, 0, 0]⟩,
    [("A", 0), ("B", 1), ("C", 2), ("D", 3)].foldl (fun ids e => ids.insert ⟨e.1⟩ e.2)
      (∅ : Std.ExtTreeMap Address Nat)⟩, .empty⟩, false⟩

theorem run_restored_fullRanks :
    let s := (fullSession.run []).2
    let s' := (s.perform (.union ⟨"A"⟩ ⟨"D"⟩)).2
    Partition.empty.restore fullRanks = (.ok (), fullSession.partition) ∧
    (s.perform (.union ⟨"A"⟩ ⟨"D"⟩)).1 = .error (.abort .addOverflow) ∧
    s.partition.forest.parent = #[0, 1, 1, 2] ∧ s'.partition.forest.parent = #[0, 1, 1, 1] ∧
    s'.partition.forest.rank = s.partition.forest.rank ∧
    s'.overlay[(Variable.parent 3).key]? =
      some ((Variable.parent 3).encode (.ofNat (s'.partition.forest.next 3))) := by
  intro s s'
  have hrestore : Partition.empty.restore fullRanks = (.ok (), fullSession.partition) := by rfl
  have habort : (s.perform (.union ⟨"A"⟩ ⟨"D"⟩)).1 = .error (.abort .addOverflow) := by decide +kernel
  have hmoved : s'.partition.forest.next 3 ≠ s.partition.forest.next 3 := by decide +kernel
  obtain ⟨-, -, -, heffect, -⟩ := run_restored hrestore rfl []
  obtain ⟨-, -, -, hrank, hparent⟩ := heffect _ _ _ s' (Prod.ext habort rfl)
  refine ⟨hrestore, habort, by decide +kernel, by decide +kernel, hrank, ?_⟩
  exact ((hparent 3).resolve_left hmoved).2

end Session

end Cospend
