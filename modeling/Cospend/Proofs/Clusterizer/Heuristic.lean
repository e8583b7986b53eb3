import Cospend.Proofs.Clusterizer.Durable
import Cospend.Proofs.Partition.Classes

/-!
# What the clusters mean

Two addresses are in one cluster exactly if a chain of transactions leads from the one to the other, each
of which was funded by two neighbours in the chain. The numbers of the addresses follow the order in
which the walk over the blocks meets them.
-/

namespace Cospend

namespace Chain

variable {chain : Chain} {p q : Partition} {n : Nat} {ts : List Transaction}

/-- The transactions of the first `n` blocks, in the order of the heights and of the blocks. -/
def listed (chain : Chain) (n : Nat) : List Transaction :=
  ((List.range n).filterMap fun i => Height.ofInt? i).flatMap fun h =>
    (chain.block h).transactions.map chain.transaction

/-- Both addresses own outputs that one of the transactions spends. -/
def Cospent (chain : Chain) (ts : List Transaction) (a b : Address) : Prop :=
  ∃ t ∈ ts, a ∈ chain.owners t ∧ b ∈ chain.owners t

/-- The clusters and the numbers of the partition are those that the transactions call for. -/
structure Clustered (chain : Chain) (ts : List Transaction) (p : Partition) : Prop where
  classes : p.Classes (chain.Cospent ts)
  ordered : p.Ordered (ts.flatMap chain.funders)

theorem mem_owners {t : Transaction} {a : Address} : a ∈ chain.owners t ↔ ∃ i ∈ t.inputs,
    i.isCoinbase = false ∧ ∃ o, chain.output? i.spends = some o ∧ o.address = some a := by
  simp only [owners, Transaction.spent, List.mem_filterMap, List.mem_map, List.mem_filter,
    Bool.not_eq_true', Option.bind_eq_some_iff]
  constructor
  · rintro ⟨_, ⟨i, ⟨hi, hcoinbase⟩, rfl⟩, o, ho, ha⟩
    exact ⟨i, hi, hcoinbase, o, ho, ha⟩
  · rintro ⟨i, hi, hcoinbase, o, ho, ha⟩
    exact ⟨_, ⟨i, ⟨hi, hcoinbase⟩, rfl⟩, o, ho, ha⟩

theorem listed_succ {h : Height} (hh : Height.ofInt? n = some h) : chain.listed (n + 1) =
    chain.listed n ++ (chain.block h).transactions.map chain.transaction := by
  simp [listed, List.range_succ, hh]

theorem clustered_empty : chain.Clustered [] .empty where
  classes := by
    have hnone : chain.Cospent [] = fun _ _ => False := by
      funext a b
      simp [Cospent]
    rw [hnone]
    exact Partition.classes_empty
  ordered := Partition.ordered_empty

theorem cospent_concat {t : Transaction} : chain.Cospent (ts ++ [t]) =
    fun a b => chain.Cospent ts a b ∨ a ∈ chain.funders t ∧ b ∈ chain.funders t := by
  funext a b
  simp [Cospent, or_and_right, exists_or]

theorem Clustered.applyTransaction {id : Digest} (h : chain.Clustered ts p) (hp : p.Numbered)
    (happly : chain.applyTransaction p id = some q) : chain.Clustered (ts ++ [chain.transaction id]) q := by
  unfold Chain.applyTransaction at happly
  split at happly
  · split at happly
    · rename_i w hw
      cases happly
      obtain ⟨hclasses, hordered⟩ := Workspace.cospend_spec hp h.classes h.ordered hw
      constructor
      · rwa [cospent_concat]
      · rwa [List.flatMap_append, List.flatMap_singleton]
    · cases happly
  · cases happly

theorem Clustered.foldlM {ids : List Digest} (h : chain.Clustered ts p) (hp : p.Numbered)
    (happly : ids.foldlM chain.applyTransaction p = some q) :
    chain.Clustered (ts ++ ids.map chain.transaction) q := by
  induction ids generalizing p ts with
  | nil =>
      cases happly
      rwa [List.map_nil, List.append_nil]
  | cons id ids ih =>
      rw [List.foldlM_cons] at happly
      obtain ⟨p', hp', happly⟩ := Option.bind_eq_some_iff.mp happly
      rw [List.map_cons, List.append_cons]
      exact ih (h.applyTransaction hp hp') (numbered_applyTransaction hp hp') happly

theorem clustered_after (h : chain.after n = some p) : chain.Clustered (chain.listed n) p := by
  induction n generalizing p with
  | zero =>
      cases h
      exact clustered_empty
  | succ n ih =>
      obtain ⟨q, height, hq, hheight, hp⟩ := after_succ.mp h
      obtain ⟨q', hq', rfl⟩ := applyBlock_eq_some.mp hp
      rw [listed_succ hheight]
      have hclustered := (ih hq).foldlM (numbered_after hq) hq'
      exact ⟨hclustered.classes.congr rfl, hclustered.ordered.congr rfl rfl⟩

end Chain

open Clusterizer

variable {β : Type} [WriteBatch β] {chain : Chain}

namespace Clusterizer

variable {c : Clusterizer β} {n : Nat} {p : Partition}

/-- No changes are in memory that are not in the store. -/
def settled (c : Clusterizer β) : Bool :=
  match c.phase with
  | .checkpointing _ => false
  | _ => !c.stale

theorem OnWay.settled (h : OnWay chain n p c) (hc : c.settled = true) : c.partition = p := by
  have hgoes := h.goes
  unfold Clusterizer.settled at hc
  unfold Goes at hgoes
  cases hphase : c.phase with
  | idle =>
      rw [hphase] at hgoes hc
      exact hgoes.2 (by simpa using hc)
  | processing height =>
      rw [hphase] at hgoes
      exact hgoes.2.2.1
  | checkpointing height =>
      rw [hphase] at hc
      cases hc
  | done =>
      rw [hphase] at hgoes
      exact hgoes.2.2

end Clusterizer

/-- After the checkpoint at a height, the store and a settled clusterizer have one and the same partition.
The addresses registered are the owners of the outputs that are spent up to this height. They are in
one cluster exactly if they are equivalent in the least equivalence that holds of owners of outputs
spent by one transaction. Their numbers follow their first appearances in the walk. -/
theorem History.cospent_clusters [LawfulBatch β] {s : Scene β} (h : History chain s) {height : Height}
    (hheight : s.table[Variable.height.key]? = some (Variable.height.encode height)) :
    ∃ p : Partition, s.table.Shows p.value? ∧
      (∀ c, s = .clusterizer c → c.settled = true → c.partition = p) ∧
      let ts := chain.listed (height.toInt.toNat + 1)
      (∀ a, p.contains a = true ↔ ∃ t ∈ ts, ∃ i ∈ t.inputs, i.isCoinbase = false ∧
        ∃ o, chain.output? i.spends = some o ∧ o.address = some a) ∧
      (∀ a b, p.contains a = true → p.contains b = true →
        (p.clusterOf a = p.clusterOf b ↔ Relation.EqvGen (chain.Cospent ts) a b)) ∧
      ∀ (a : Address) (id : Nat),
        p.ids[a]? = some id ↔ (ts.flatMap chain.funders).eraseDups[id]? = some a := by
  obtain ⟨n, p, hstands⟩ := h.stands
  have hholds := hstands.holds
  rw [hholds.table] at hheight
  have hp : p.height = some height := 
    Partition.value?_eq_of_table (v := .height) (x := some height) hheight
  obtain ⟨m, rfl⟩ : ∃ m, n = m + 1 := by
    cases n with
    | zero =>
        cases hholds.after
        cases hp
    | succ m => exact ⟨m, rfl⟩
  rw [Chain.height_after_succ hholds.after, Chain.ofInt?_eq_some] at hp
  rw [show height.toInt.toNat = m by omega]
  obtain ⟨hclasses, hordered⟩ := Chain.clustered_after hholds.after
  refine ⟨p, hholds.table ▸ p.shows_table, ?_, fun a => ?_, fun a b ha _ => ?_, fun a id => ?_⟩
  · rintro c rfl hc
    exact OnWay.settled hstands hc
  · rw [hordered.contains_iff, List.mem_flatMap]
    simp only [Chain.mem_funders, Chain.mem_owners]
  · exact hclasses.clusterOf_eq_iff ha
  · exact hordered.ids_iff

open Sample in
theorem History.cospent_clusters_resumed :
    resumed.partition.contains ⟨"a"⟩ = true ∧ resumed.partition.contains ⟨"b"⟩ = true ∧
      resumed.partition.clusterOf ⟨"a"⟩ = resumed.partition.clusterOf ⟨"b"⟩ ∧
      Relation.EqvGen (sample.Cospent (sample.listed 1)) ⟨"a"⟩ ⟨"b"⟩ := by
  have hheight : resumed.store.table[Variable.height.key]? = some (Variable.height.encode .genesis) := by
    decide +kernel
  obtain ⟨p, -, hsettled, -, hclusters, -⟩ := History.cospent_clusters history_resumed hheight
  have ha : resumed.partition.contains ⟨"a"⟩ = true := by decide +kernel
  have hb : resumed.partition.contains ⟨"b"⟩ = true := by decide +kernel
  have hab : resumed.partition.clusterOf ⟨"a"⟩ = resumed.partition.clusterOf ⟨"b"⟩ := by decide +kernel
  obtain rfl := hsettled resumed rfl (by decide +kernel)
  exact ⟨ha, hb, hab, (hclusters _ _ ha hb).mp hab⟩

end Cospend
