import Cospend.Proofs.Clusterizer.History

/-!
# What the store holds

Whatever happened before, the store is empty or holds exactly what comes of the blocks up to the height
that it holds.
-/

namespace Cospend

namespace Chain

variable {c : Chain} {p q : Partition} {n m : Nat}

/-- The height tells how many blocks were applied. -/
theorem after_inj (hp : c.after n = some p) (hq : c.after m = some q) (h : p.height = q.height) :
    n = m := by
  cases n with
  | zero =>
      cases m with
      | zero => rfl
      | succ m =>
          cases hp
          obtain ⟨_, height, -, hheight, -⟩ := after_succ.mp hq
          rw [height_after_succ hq, hheight] at h
          cases h
  | succ n =>
      obtain ⟨_, height, -, hheight, -⟩ := after_succ.mp hp
      cases m with
      | zero =>
          cases hq
          rw [height_after_succ hp, hheight] at h
          cases h
      | succ m =>
          rw [height_after_succ hp, height_after_succ hq, hheight] at h
          have hn := ofInt?_eq_some.mp hheight
          have hm := ofInt?_eq_some.mp h.symm
          omega

end Chain

open Clusterizer

variable {β γ : Type} [WriteBatch β] [LawfulBatch β] [WriteBatch γ] [LawfulBatch γ]
variable {chain : Chain}

/-- The store is empty, or it holds a height and exactly the partition that comes of the blocks up to it,
applied in order and without a failure. Whatever else happened, any other store over the same chain
with the same height holds the same. -/
theorem History.checkpoint_durable {s : Scene β} (h : History chain s) :
    (s.table = ∅ ∨ ∃ (n : Nat) (height : Height) (p : Partition), Height.ofInt? n = some height ∧
      chain.after (n + 1) = some p ∧ p.height = some height ∧ s.table.Shows p.value?) ∧
    ∀ s' : Scene γ, History chain s' →
      s'.table[Variable.height.key]? = s.table[Variable.height.key]? → s'.table = s.table := by
  obtain ⟨n, p, hstands⟩ := h.stands
  have hholds := hstands.holds
  constructor
  · cases n with
    | zero =>
        left
        obtain ⟨hafter, htable⟩ := hholds
        cases hafter
        exact htable.trans Partition.table_empty
    | succ n =>
        right
        obtain ⟨_, height, -, hheight, -⟩ := Chain.after_succ.mp hholds.after
        refine ⟨n, height, p, hheight, hholds.after, ?_, hholds.table ▸ p.shows_table⟩
        rw [Chain.height_after_succ hholds.after, hheight]
  · intro s' h' heq
    obtain ⟨m, q, hstands'⟩ := h'.stands
    have hholds' := hstands'.holds
    rw [hholds.table, hholds'.table, p.getElem?_table] at heq
    have hheight : q.height = p.height := Partition.value?_eq_of_table heq
    obtain rfl := Chain.after_inj hholds'.after hholds.after hheight
    have hpq : q = p := Option.some.inj (hholds'.after.symm.trans hholds.after)
    rw [hholds.table, hholds'.table, hpq]

/-! ## Given up in the middle of a block -/

namespace Sample

def paid : Digest := ⟨List.replicate 32 1, by decide⟩
def spending : Digest := ⟨List.replicate 32 2, by decide⟩

/-- Every block spends the outputs of two owners and one of nobody. -/
def sample : Chain where
  block h := ⟨h, spending, [spending]⟩
  transaction id :=
    if id = spending then ⟨[⟨.coinbase⟩, ⟨⟨paid, 0⟩⟩, ⟨⟨paid, 1⟩⟩, ⟨⟨paid, 2⟩⟩], []⟩
    else ⟨[], [⟨1, some ⟨"b"⟩⟩, ⟨1, some ⟨"a"⟩⟩, ⟨1, none⟩]⟩

def env : Environment := .sequential (sample.ledger .genesis) 2

def started (t : Table) : Except (Failure ClusterizerError) Unit × Clusterizer Delta :=
  start (.standard 1) ⟨t, .none, 0⟩

def stepped (c : Clusterizer Delta) : Except (Failure ClusterizerError) Phase × Clusterizer Delta :=
  step env { c with store := c.store.withFaults .none }

def ran (c : Clusterizer Delta) :
    Except (Failure ClusterizerError) (Option Height) × Clusterizer Delta :=
  run env { c with store := c.store.withFaults .none }

theorem history_started {t : Table} (h : History sample (.store t : Scene Delta))
    (hok : (started t).1 = .ok ()) : History sample (.clusterizer (started t).2) :=
  Scene.ofStart_of_ok hok ▸ h.start (.standard 1) .none

theorem history_stepped {c : Clusterizer Delta} (h : History sample (.clusterizer c)) (phase : Phase)
    (hok : (stepped c).1 = .ok phase) : History sample (.clusterizer (stepped c).2) :=
  Scene.ofCall_of_ok hok ▸ h.step .none (sample.tells_ledger .genesis)

theorem history_ran {c : Clusterizer Delta} (h : History sample (.clusterizer c)) (tip : Option Height)
    (hok : (ran c).1 = .ok tip) : History sample (.clusterizer (ran c).2) :=
  Scene.ofCall_of_ok hok ▸ h.run .none (sample.tells_ledger .genesis)

/-- One run over everything. -/
def straight : Clusterizer Delta := (ran (started ∅).2).2

/-- The block is processed and not written. -/
@[irreducible] def interrupted : Clusterizer Delta := (stepped (stepped (started ∅).2).2).2

/-- Another clusterizer runs over everything. -/
def resumed : Clusterizer Delta := (ran (started interrupted.store.table).2).2

theorem history_straight : History sample (.clusterizer straight) :=
  history_ran (history_started .new rfl) (some .genesis) (by decide +kernel)

theorem history_resumed : History sample (.clusterizer resumed) := by
  have hstarted : History sample (.clusterizer (started ∅).2) := history_started .new rfl
  have hinterrupted : History sample (.clusterizer interrupted) := by
    rw [interrupted]
    exact history_stepped (history_stepped hstarted (.processing .genesis) (by decide +kernel))
      (.checkpointing .genesis) (by decide +kernel)
  exact history_ran (history_started hinterrupted.drop (by decide +kernel)) (some .genesis) (by decide +kernel)

end Sample

open Sample in
theorem History.checkpoint_durable_interrupted :
    interrupted.partition.size = 2 ∧ interrupted.store.table.size = 0 ∧ resumed.store.table.size = 8 ∧
      straight.store.table = resumed.store.table ∧
      ∃ (n : Nat) (height : Height) (p : Partition), Height.ofInt? n = some height ∧
        sample.after (n + 1) = some p ∧ p.height = some height ∧
        resumed.store.table.Shows p.value? := by
  obtain ⟨hshows, hsame⟩ := History.checkpoint_durable (γ := Delta) history_resumed
  have hsize : resumed.store.table.size = 8 := by decide +kernel
  have hheight : (Scene.clusterizer straight).table[Variable.height.key]? =
      (Scene.clusterizer resumed).table[Variable.height.key]? := by decide +kernel
  have htable := hsame (.clusterizer straight) history_straight hheight
  simp only [Scene.table] at hshows htable
  refine ⟨by decide +kernel, by decide +kernel, hsize, htable, hshows.resolve_left fun hempty => ?_⟩
  rw [hempty] at hsize
  cases hsize

end Cospend
