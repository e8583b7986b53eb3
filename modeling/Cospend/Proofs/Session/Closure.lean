import Cospend.Proofs.Forest.Weight
import Cospend.Proofs.Partition.Classes
import Cospend.Proofs.Session.Mirror

/-!
# The clusters of a session

In a session in which no batch is lost, the registered addresses are those whose registration succeeded,
and two of them are in one cluster exactly if they are equivalent in the least equivalence that contains
every pair that was merged with success. So the clusters do not depend on the order of the calls, on
their repetition, or on what else was called.
-/

namespace Cospend

/-! ## What one call does to the clusters -/

namespace Partition

variable {p q : Partition} {a b : Address}
variable {answer : Except (Failure PartitionError) Nat}

theorem contains_congr (h : q.ids = p.ids) (a : Address) : q.contains a = p.contains a := by
  rw [contains, contains, h]

theorem Merged.balanced (hm : p.Merged a b answer q) (hp : p.Sound) (h : p.forest.Balanced) :
    q.forest.Balanced := by
  cases hm with
  | first _ hq | second _ _ hq | same _ _ hq | full _ _ _ _ hq => exact h.of_alike hq.forest
  | linked ha hb hne hl hq =>
      have hfits := (hp.link_fits hl ha hb hne).of_alike hq.forest.symm
      rw [← hq.forest.chooseLink_eq] at hl
      exact (h.of_alike hq.forest).link hq.forest.sound_left hfits hl

/-- In a balanced forest registered addresses can be merged, and the answer is the root of both of them
afterwards. -/
theorem Merged.answers (hm : p.Merged a b answer q) (hp : p.Numbered) (h : p.forest.Balanced)
    (ha : p.contains a = true) (hb : p.contains b = true) :
    ∃ x, answer = .ok x ∧ q.clusterOf a = some x ∧ q.clusterOf b = some x := by
  obtain ⟨x, ha⟩ := exists_clusterOf_iff.mpr ha
  obtain ⟨y, hb⟩ := exists_clusterOf_iff.mpr hb
  cases answer with
  | ok z => exact ⟨z, rfl, hm.clusterOf_of_ok hp.toSound⟩
  | error e =>
      cases hm with
      | first hnone _ =>
          rw [hnone] at ha
          cases ha
      | second _ hnone _ =>
          rw [hnone] at hb
          cases hb
      | full ha' _ _ he _ =>
          obtain ⟨l, hl⟩ := h.exists_link hp.size_lt_uint64 (hp.clusterOf_lt ha')
            (hp.next_clusterOf ha') _
          rw [hl] at he
          cases he

end Partition

namespace Session

variable {β : Type} [WriteBatch β]

/-! ## Sessions that lose nothing -/

/-- A call of a session in which each batch that is written is at once read back. Reading may fail. -/
inductive Turn where
  | register (a : Address)
  | find (a : Address)
  | union (a b : Address)
  | finalize
  | reload (faults : Faults)

def Turn.calls : Turn → List Call
  | .register a => [.register a]
  | .find a => [.find a]
  | .union a b => [.union a b]
  | .finalize => [.finalize]
  | .reload faults => [.flush none, .restore faults]

/-- The call was made and succeeded. -/
def Done (trace : List (Call × Answer)) (c : Call) : Prop := ∃ x, (c, .ok x) ∈ trace

theorem done_nil (c : Call) : ¬ Done [] c := by
  rintro ⟨x, hx⟩
  cases hx

theorem done_concat {trace : List (Call × Answer)} {c d : Call} {r : Answer} :
    Done (trace ++ [(d, r)]) c ↔ Done trace c ∨ c = d ∧ ∃ x, r = .ok x := by
  simp only [Done, List.mem_append, List.mem_singleton, Prod.mk.injEq, exists_or,
    eq_comm (b := r), exists_and_left]

theorem not_done_of_error {c d : Call} {e : Failure PartitionError} :
    ¬ Done [(d, .error e)] c := by
  simp [Done]

theorem not_done_of_ne {c d : Call} {r : Answer} (h : c ≠ d) : ¬ Done [(d, r)] c := by
  simp [Done, h]

theorem run_append (s : Session β) (cs ds : List Call) :
    s.run (cs ++ ds) = ((s.run cs).1 ++ ((s.run cs).2.run ds).1, ((s.run cs).2.run ds).2) := by
  induction cs generalizing s with
  | nil => rfl
  | cons c cs ih => simp only [List.cons_append, run, ih]

variable {s s' : Session β} {trace extra : List (Call × Answer)}

/-- The addresses that are registered and the clusters that they are in are those that the calls so far
call for, and the store with the current batch shows the same partition. -/
structure Grown (trace : List (Call × Answer)) (s : Session β) : Prop where
  kept : Kept False { s with lost := false }
  balanced : s.partition.forest.Balanced
  contains_iff (a : Address) : s.partition.contains a = true ↔ Done trace (.register a)
  classes : s.partition.Classes fun a b => Done trace (.union a b)

theorem Grown.numbered (h : Grown trace s) : s.partition.Numbered := h.kept.numbered rfl

theorem grown_start [LawfulBatch β] : Grown [] (start : Session β) where
  kept := kept_start
  balanced := Forest.balanced_empty
  contains_iff a := by
    simp [start, Partition.contains, Partition.empty, done_nil]
  classes := Partition.classes_empty.of_le (fun _ _ h => h.elim) fun _ _ h => absurd h (done_nil _)

/-- Calls that register and merge nothing leave the registered addresses and their clusters as they
are. -/
theorem Grown.congr (h : Grown trace s) (hkept : Kept False { s' with lost := false })
    (hids : s'.partition.ids = s.partition.ids)
    (hforest : Forest.Alike s'.partition.forest s.partition.forest)
    (hregister : ∀ a, ¬ Done extra (.register a)) (hunion : ∀ a b, ¬ Done extra (.union a b)) :
    Grown (trace ++ extra) s' := by
  have hdone : ∀ c, ¬ Done extra c → (Done (trace ++ extra) c ↔ Done trace c) := by
    intro c hc
    simp only [Done, List.mem_append, exists_or]
    exact or_iff_left hc
  have hcluster : s'.partition.clusterOf = s.partition.clusterOf := by
    funext a
    rw [Partition.clusterOf, Partition.clusterOf, hids, funext hforest.root_eq]
  constructor
  · exact hkept
  · exact h.balanced.of_alike hforest
  · intro a
    rw [Partition.contains_congr hids, hdone _ (hregister a)]
    exact h.contains_iff a
  · exact (h.classes.congr hcluster).of_iff fun a b => hdone _ (hunion a b)

variable [LawfulBatch β]

theorem Grown.register (h : Grown trace s) (a : Address) :
    Grown (trace ++ (s.run [.register a]).1) (s.run [.register a]).2 := by
  have hkept := h.kept.staged rfl (Workspace.staged_register h.numbered a)
  cases hi : s.partition.ids[a]? with
  | some i =>
      have hregister : Workspace.register a s.workspace = (.ok i, s.workspace) :=
        Workspace.register_of_some hi
      have ha := Partition.contains_iff.mpr ⟨i, hi⟩
      simp only [run, perform, work, hregister] at hkept ⊢
      constructor
      · exact hkept
      · exact h.balanced
      · intro b
        rw [done_concat, ← h.contains_iff]
        constructor
        · exact .inl
        · rintro (hb | ⟨hb, -⟩)
          · exact hb
          · cases hb
            exact ha
      · simp only [done_concat, reduceCtorEq, false_and, or_false]
        exact h.classes
  | none =>
      by_cases hroom : s.partition.size + 1 < Partition.capacityLimit
      · have hregister : Workspace.register a s.workspace = (.ok s.partition.size, s.workspace.add a) :=
          Workspace.register_of_none hi hroom
        simp only [run, perform, work, hregister] at hkept ⊢
        constructor
        · exact hkept
        · exact h.balanced.push h.numbered.forest
        · intro b
          rw [done_concat, ← h.contains_iff]
          refine Partition.contains_add.trans (or_congr_right ?_)
          simp [Except.map, eq_comm]
        · simp only [done_concat, reduceCtorEq, false_and, or_false]
          exact h.classes.add h.numbered.toSound hi
      · have hregister :
            Workspace.register a s.workspace = (.error (.abort .exhausted), s.workspace) :=
          Workspace.register_of_full hi hroom
        simp only [run, perform, work, hregister] at hkept ⊢
        exact h.congr hkept rfl h.numbered.forest.alike (fun _ => not_done_of_error)
          fun _ _ => not_done_of_error

theorem Grown.find (h : Grown trace s) (a : Address) :
    Grown (trace ++ (s.run [.find a]).1) (s.run [.find a]).2 := by
  have hkept := h.kept.staged rfl (Workspace.staged_find h.numbered a)
  have halike := Workspace.find_alike (w := s.workspace) h.numbered.toSound (a := a) rfl
  exact h.congr hkept halike.ids_eq halike.forest (fun b => not_done_of_ne (by simp))
    fun b c => not_done_of_ne (by simp)

theorem Grown.union (h : Grown trace s) (a b : Address) :
    Grown (trace ++ (s.run [.union a b]).1) (s.run [.union a b]).2 := by
  have hkept := h.kept.staged rfl (Workspace.staged_union h.numbered a b)
  have hmerged := Workspace.union_merged (w := s.workspace) h.numbered.toSound a b
  rcases hunion : Workspace.union a b s.workspace with ⟨e | x, w⟩
  · simp only [run, perform, work, hunion] at hkept hmerged ⊢
    have halike := hmerged.alike_of_error
    exact h.congr hkept halike.ids_eq halike.forest (fun _ => not_done_of_error)
      fun _ _ => not_done_of_error
  · simp only [run, perform, work, hunion] at hkept hmerged ⊢
    constructor
    · exact hkept
    · exact hmerged.balanced h.numbered.toSound h.balanced
    · intro c
      rw [done_concat, ← h.contains_iff, Partition.contains_congr hmerged.ids_eq]
      simp
    · refine (hmerged.classes h.numbered.toSound h.classes).of_iff fun c d => ?_
      simp [done_concat, Except.map]

omit [LawfulBatch β] in
theorem Grown.finalize (h : Grown trace s) :
    Grown (trace ++ (s.run [.finalize]).1) (s.run [.finalize]).2 := by
  have hkept := h.kept.finalize rfl id
  have halike := h.numbered.finalize
  exact h.congr hkept halike.ids_eq halike.forest (fun b => not_done_of_ne (by simp))
    fun b c => not_done_of_ne (by simp)

theorem Grown.reload (h : Grown trace s) (faults : Faults) :
    Grown (trace ++ (s.run [.flush none, .restore faults]).1)
      (s.run [.flush none, .restore faults]).2 := by
  have hflush : Kept False (s.perform (.flush none)).2 := h.kept.flush rfl
  have hrestore := hflush.restore faults
  -- the store now holds a partition that is alike, so it does not matter whether it can be read back
  obtain ⟨q, hq, -, hload⟩ := hflush.load rfl rfl
  cases hread : Partition.load ((s.perform (.flush none)).2.store.withFaults faults) with
  | error e =>
      simp only [run, perform_restore_of_error hread]
      refine h.congr hflush rfl h.numbered.forest.alike ?_ ?_ <;> simp [Done]
  | ok p =>
      have hp : p = q := by
        have hp := Partition.load_eq_ok.mpr (Partition.load_eq_ok.mp hread).faultless
        exact Except.ok.inj (hp.symm.trans hload)
      subst hp
      rw [perform_restore_of_ok hread] at hrestore
      simp only [run, perform_restore_of_ok hread]
      refine h.congr hrestore hq.ids_eq hq.forest ?_ ?_ <;> simp [Done]

theorem Grown.turn (h : Grown trace s) (t : Turn) :
    Grown (trace ++ (s.run t.calls).1) (s.run t.calls).2 := by
  cases t with
  | register a => exact h.register a
  | find a => exact h.find a
  | union a b => exact h.union a b
  | finalize => exact h.finalize
  | reload faults => exact h.reload faults

theorem Grown.run (h : Grown trace s) (turns : List Turn) :
    Grown (trace ++ (s.run (turns.flatMap Turn.calls)).1) (s.run (turns.flatMap Turn.calls)).2 := by
  -- the trace so far has to stay free, as each turn adds to it
  induction turns generalizing trace s with
  | nil => simpa [Session.run] using h
  | cons t turns ih =>
      rw [List.flatMap_cons, run_append, ← List.append_assoc]
      exact ih (h.turn t)

/-! ## The closure -/

section Answers

variable {a b : Address}

omit [LawfulBatch β]

theorem perform_find (s : Session β) (a : Address) : (s.perform (.find a)).1 =
    (s.partition.clusterOf a).elim (.error (.error (.unregistered a))) fun x => .ok (some x) := by
  rw [perform, work, Workspace.find_fst]
  cases s.partition.clusterOf a <;> rfl

theorem perform_find_eq_iff (ha : s.partition.contains a = true) (hb : s.partition.contains b = true) :
    (s.perform (.find a)).1 = (s.perform (.find b)).1 ↔
      s.partition.clusterOf a = s.partition.clusterOf b := by
  obtain ⟨x, ha⟩ := Partition.exists_clusterOf_iff.mpr ha
  obtain ⟨y, hb⟩ := Partition.exists_clusterOf_iff.mpr hb
  simp [perform_find, ha, hb]

/-- Finding fails without any effect. -/
theorem perform_find_error {e : Failure PartitionError} (h : s.perform (.find a) = (.error e, s')) :
    s' = s := by
  rcases hfind : Workspace.find a s.workspace with ⟨e' | x, w⟩
  · obtain ⟨-, -, rfl⟩ := Workspace.find_eq_error hfind
    rw [perform, work, hfind] at h
    cases h
    rfl
  · rw [perform, work, hfind] at h
    cases h

/-- Merging fails without any effect on the clusters or on the ranks. -/
theorem perform_union_error {e : Failure PartitionError} (hs : s.partition.Sound)
    (h : s.perform (.union a b) = (.error e, s')) : Partition.Alike s'.partition s.partition := by
  have hmerged := Workspace.union_merged hs a b
  rcases hunion : Workspace.union a b s.workspace with ⟨e' | x, w⟩
  · rw [hunion] at hmerged
    rw [perform, work, hunion] at h
    cases h
    exact hmerged.alike_of_error
  · rw [perform, work, hunion] at h
    cases h

theorem Grown.perform_union (h : Grown trace s) (ha : s.partition.contains a = true)
    (hb : s.partition.contains b = true) :
    ∃ x s', s.perform (.union a b) = (.ok (some x), s') ∧ (s'.perform (.find a)).1 = .ok (some x) ∧
      (s'.perform (.find b)).1 = .ok (some x) := by
  have hmerged := Workspace.union_merged (w := s.workspace) h.numbered.toSound a b
  obtain ⟨x, hx, hax, hbx⟩ := hmerged.answers h.numbered h.balanced ha hb
  refine ⟨x, { s with workspace := (Workspace.union a b s.workspace).2 }, ?_, ?_, ?_⟩
  · rw [perform, work, hx]
    rfl
  · rw [perform_find, show Partition.clusterOf _ a = _ from hax]
    rfl
  · rw [perform_find, show Partition.clusterOf _ b = _ from hbx]
    rfl

end Answers

/-- Whatever was called before: exactly the addresses are registered whose registration succeeded; two
of them have one root exactly if they are equivalent in the closure of the pairs that were merged with
success, and merging them succeeds with the root that finding answers afterwards; a call that fails
changes no root and no rank. So calls that succeed in another order, or more often, give the same
clusters. -/
theorem run_closure (turns : List Turn) :
    let out := (start : Session β).run (turns.flatMap Turn.calls)
    (∀ a, out.2.partition.contains a = true ↔ Done out.1 (.register a)) ∧
    (∀ a b, out.2.partition.contains a = true → out.2.partition.contains b = true →
      (∃ x y, (out.2.perform (.find a)).1 = .ok (some x) ∧ (out.2.perform (.find b)).1 = .ok (some y) ∧
        (x = y ↔ Relation.EqvGen (fun c d => Done out.1 (.union c d)) a b)) ∧
      ∃ x s', out.2.perform (.union a b) = (.ok (some x), s') ∧
        (s'.perform (.find a)).1 = .ok (some x) ∧ (s'.perform (.find b)).1 = .ok (some x)) ∧
    (∀ a e s', out.2.perform (.find a) = (.error e, s') → s' = out.2) ∧
    (∀ a b e s', out.2.perform (.union a b) = (.error e, s') →
      Partition.Alike s'.partition out.2.partition) ∧
    ∀ turns' : List Turn,
      let out' := (start : Session β).run (turns'.flatMap Turn.calls)
      (∀ a, Done out'.1 (.register a) ↔ Done out.1 (.register a)) →
      (∀ a b, Done out'.1 (.union a b) ↔ Done out.1 (.union a b)) →
      (∀ a, out'.2.partition.contains a = true ↔ out.2.partition.contains a = true) ∧
      ∀ a b, out.2.partition.contains a = true → out.2.partition.contains b = true →
        ((out'.2.perform (.find a)).1 = (out'.2.perform (.find b)).1 ↔
          (out.2.perform (.find a)).1 = (out.2.perform (.find b)).1) := by
  intro out
  have hgrown : Grown out.1 out.2 := grown_start.run turns
  refine ⟨hgrown.contains_iff, fun a b ha hb => ⟨?_, hgrown.perform_union ha hb⟩,
    fun a e s' h => perform_find_error h, fun a b e s' h => perform_union_error hgrown.numbered.toSound h,
    ?_⟩
  · obtain ⟨x, hx⟩ := Partition.exists_clusterOf_iff.mpr ha
    obtain ⟨y, hy⟩ := Partition.exists_clusterOf_iff.mpr hb
    have hiff := hgrown.classes.clusterOf_eq_iff (b := b) ha
    rw [hx, hy, Option.some_inj] at hiff
    refine ⟨x, y, ?_, ?_, hiff⟩
    · rw [perform_find, hx]
      rfl
    · rw [perform_find, hy]
      rfl
  · intro turns' out' hregister hunion
    -- the clusters of each session are the closure of its own trace, and the traces agree on what was done
    have hgrown' : Grown out'.1 out'.2 := grown_start.run turns'
    have hcontains : ∀ a, out'.2.partition.contains a = true ↔ out.2.partition.contains a = true := by
      intro a
      rw [hgrown'.contains_iff, hgrown.contains_iff, hregister]
    have hclasses' := hgrown'.classes.of_iff fun a b => (hunion a b).symm
    refine ⟨hcontains, fun a b ha hb => ?_⟩
    have ha' := (hcontains a).mpr ha
    rw [perform_find_eq_iff ha' ((hcontains b).mpr hb), perform_find_eq_iff ha hb,
      hclasses'.clusterOf_eq_iff ha', hgrown.classes.clusterOf_eq_iff ha]

theorem run_closure_reordered :
    let turns : List Turn := [.register ⟨"a"⟩, .register ⟨"b"⟩, .register ⟨"c"⟩, .union ⟨"a"⟩ ⟨"b"⟩,
      .finalize, .reload .none, .union ⟨"c"⟩ ⟨"b"⟩]
    let turns' : List Turn := [.register ⟨"c"⟩, .register ⟨"b"⟩, .union ⟨"c"⟩ ⟨"a"⟩, .union ⟨"c"⟩ ⟨"b"⟩,
      .register ⟨"a"⟩, .union ⟨"a"⟩ ⟨"b"⟩, .union ⟨"a"⟩ ⟨"b"⟩]
    let out := (start : Session Delta).run (turns.flatMap Turn.calls)
    let out' := (start : Session Delta).run (turns'.flatMap Turn.calls)
    out.2.partition.contains ⟨"a"⟩ = true ∧ out.2.partition.contains ⟨"c"⟩ = true ∧
      Relation.EqvGen (fun c d => Done out.1 (.union c d)) ⟨"a"⟩ ⟨"c"⟩ ∧
      (out'.2.perform (.find ⟨"a"⟩)).1 = (out'.2.perform (.find ⟨"c"⟩)).1 := by
  intro turns turns' out out'
  have htrace : out.1 = [(.register ⟨"a"⟩, .ok (some 0)), (.register ⟨"b"⟩, .ok (some 1)),
      (.register ⟨"c"⟩, .ok (some 2)), (.union ⟨"a"⟩ ⟨"b"⟩, .ok (some 0)), (.finalize, .ok none),
      (.flush none, .ok none), (.restore .none, .ok none), (.union ⟨"c"⟩ ⟨"b"⟩, .ok (some 0))] := by
    rfl
  have htrace' : out'.1 = [(.register ⟨"c"⟩, .ok (some 0)), (.register ⟨"b"⟩, .ok (some 1)),
      (.union ⟨"c"⟩ ⟨"a"⟩, .error (.error (.unregistered ⟨"a"⟩))), (.union ⟨"c"⟩ ⟨"b"⟩, .ok (some 0)),
      (.register ⟨"a"⟩, .ok (some 2)), (.union ⟨"a"⟩ ⟨"b"⟩, .ok (some 0)),
      (.union ⟨"a"⟩ ⟨"b"⟩, .ok (some 0))] := by
    rfl
  have hregister : ∀ a, Done out'.1 (.register a) ↔ Done out.1 (.register a) := by
    intro a
    simp [Done, htrace, htrace', exists_or]
    tauto
  have hunion : ∀ a b, Done out'.1 (.union a b) ↔ Done out.1 (.union a b) := by
    intro a b
    simp [Done, htrace, htrace', exists_or]
    tauto
  obtain ⟨hcontains, hfind, -, -, hsame⟩ := run_closure (β := Delta) turns
  have ha : out.2.partition.contains ⟨"a"⟩ = true :=
    (hcontains _).mpr (show Done out.1 _ from ⟨some 0, by simp [htrace]⟩)
  have hc : out.2.partition.contains ⟨"c"⟩ = true :=
    (hcontains _).mpr (show Done out.1 _ from ⟨some 2, by simp [htrace]⟩)
  have hanswer : (out.2.perform (.find ⟨"a"⟩)).1 = (out.2.perform (.find ⟨"c"⟩)).1 := by rfl
  obtain ⟨⟨x, y, hx, hy, hxy⟩, -⟩ := hfind _ _ ha hc
  refine ⟨ha, hc, hxy.mp ?_, ((hsame turns' hregister hunion).2 _ _ ha hc).mpr hanswer⟩
  have hanswers := (hx.symm.trans hanswer).trans hy
  cases hanswers
  rfl

end Session

end Cospend
