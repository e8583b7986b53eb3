import Cospend.Clusterizer.Block
import Cospend.Proofs.Chain.Address
import Cospend.Proofs.Partition.Cospend
import Mathlib.Data.List.Dedup

/-!
# The chain behind a ledger

A ledger may fail to answer, but whenever it answers it tells of one chain. `Chain.after` is the
partition that comes of the blocks of the chain if they are applied in order to the empty partition and
nothing fails.
-/

namespace Cospend

/-- The outputs that a transaction spends. -/
def Transaction.spent (t : Transaction) : List Outpoint :=
  (t.inputs.filter fun i => !i.isCoinbase).map Input.spends

/-- The block at each height and the transaction with each digest. -/
structure Chain where
  block : Height → Block
  transaction : Digest → Transaction

/-- Whatever the ledger answers is as the chain has it. -/
structure Ledger.Tells (l : Ledger) (c : Chain) : Prop where
  block {h : Height} {b : Block} (hb : l.block h = .ok b) : b = c.block h
  transaction {occasion : Occasion} {id : Digest} {t : Transaction}
    (ht : l.transaction occasion id = .ok t) : t = c.transaction id

namespace Chain

/-- The ledger that answers every question as the chain has it. -/
def ledger (c : Chain) (tip : Height) : Ledger where
  tip _ := .ok tip
  block h := .ok (c.block h)
  transaction _ id := .ok (c.transaction id)

theorem tells_ledger (c : Chain) (tip : Height) : (c.ledger tip).Tells c where
  block hb := (Except.ok.inj hb).symm
  transaction ht := (Except.ok.inj ht).symm

/-- The output that an outpoint names, if its transaction has one at that place. -/
def output? (c : Chain) (o : Outpoint) : Option Output :=
  (c.transaction o.transaction).outputs[o.index.toNat]?

/-- Every output that a transaction spends exists. -/
def resolves (c : Chain) (t : Transaction) : Bool := t.spent.all fun o => (c.output? o).isSome

/-- The owners of the outputs that a transaction spends. -/
def owners (c : Chain) (t : Transaction) : List Address :=
  t.spent.filterMap fun o => (c.output? o).bind Output.address

/-- The owners of the outputs that a transaction spends, each of them once and in order. -/
def funders (c : Chain) (t : Transaction) : List Address := Address.sort (c.owners t).dedup

/-- The partition with a transaction applied. -/
def applyTransaction (c : Chain) (p : Partition) (id : Digest) : Option Partition :=
  if c.resolves (c.transaction id) then
    match Workspace.cospend (c.funders (c.transaction id)) (⟨p, .empty⟩ : Workspace Delta) with
    | (.ok (), w) => some w.partition
    | (.error _, _) => none
  else none

/-- The partition with the block at a height applied. -/
def applyBlock (c : Chain) (p : Partition) (h : Height) : Option Partition := do
  let q ← (c.block h).transactions.foldlM c.applyTransaction p
  return { q with height := some h }

/-- The partition after the first `n` blocks. -/
def after (c : Chain) : (n : Nat) → Option Partition
  | 0 => some .empty
  | n + 1 => do c.applyBlock (← c.after n) (← Height.ofInt? n)

variable {c : Chain} {p q : Partition} {n : Nat}

@[simp] theorem mem_funders {t : Transaction} {a : Address} : a ∈ c.funders t ↔ a ∈ c.owners t := by
  simp [funders]

/-- Any list of the owners without repetition has them in this order once it is sorted. -/
theorem sort_eq_funders {t : Transaction} {as : List Address} (hnodup : as.Nodup)
    (hmem : ∀ a, a ∈ as ↔ a ∈ c.owners t) : Address.sort as = c.funders t := by
  refine Address.sort_eq_of_perm ((List.perm_ext_iff_of_nodup hnodup (List.nodup_dedup _)).mpr ?_)
  simpa using hmem

theorem after_succ : c.after (n + 1) = some p ↔
    ∃ q h, c.after n = some q ∧ Height.ofInt? n = some h ∧ c.applyBlock q h = some p := by
  simp only [after, Option.bind_eq_bind, Option.bind_eq_some_iff]
  constructor
  · rintro ⟨q, hq, h, hh, hp⟩
    exact ⟨q, h, hq, hh, hp⟩
  · rintro ⟨q, h, hq, hh, hp⟩
    exact ⟨q, hq, h, hh, hp⟩

theorem applyBlock_eq_some {h : Height} : c.applyBlock q h = some p ↔
    ∃ q', (c.block h).transactions.foldlM c.applyTransaction q = some q' ∧
      p = q'.checkpointed (some h) := by
  simp only [applyBlock, Option.bind_eq_bind, Option.bind_eq_some_iff, Option.pure_def,
    Option.some.injEq]
  exact exists_congr fun q' => and_congr_right' eq_comm

theorem numbered_applyTransaction {id : Digest} (hp : p.Numbered)
    (h : c.applyTransaction p id = some q) : q.Numbered := by
  unfold applyTransaction at h
  split at h
  · split at h
    · rename_i w hw
      cases h
      have hstaged := Workspace.staged_cospend (w := (⟨p, .empty⟩ : Workspace Delta)) hp
        (c.funders (c.transaction id))
      rw [hw] at hstaged
      exact hstaged.numbered
    · cases h
  · cases h

theorem numbered_foldlM {ids : List Digest} (hp : p.Numbered)
    (h : ids.foldlM c.applyTransaction p = some q) : q.Numbered := by
  induction ids generalizing p with
  | nil =>
      cases h
      exact hp
  | cons id ids ih =>
      rw [List.foldlM_cons] at h
      obtain ⟨p', hp', h⟩ := Option.bind_eq_some_iff.mp h
      exact ih (numbered_applyTransaction hp hp') h

theorem numbered_after (h : c.after n = some p) : p.Numbered := by
  induction n generalizing p with
  | zero =>
      cases h
      exact Partition.numbered_empty
  | succ n ih =>
      obtain ⟨q, height, hq, -, hp⟩ := after_succ.mp h
      obtain ⟨q', hq', rfl⟩ := applyBlock_eq_some.mp hp
      exact (numbered_foldlM (ih hq) hq').checkpointed _

theorem height_after_succ (h : c.after (n + 1) = some p) : p.height = Height.ofInt? n := by
  obtain ⟨q, height, -, hheight, hp⟩ := after_succ.mp h
  obtain ⟨q', -, rfl⟩ := applyBlock_eq_some.mp hp
  exact hheight.symm

theorem ofInt?_eq_some {i : Int} {h : Height} : Height.ofInt? i = some h ↔ h.toInt = i := by
  unfold Height.ofInt?
  constructor
  · intro hi
    split at hi
    · cases hi
      rfl
    · cases hi
  · rintro rfl
    exact dif_pos ⟨h.le_toInt, h.toInt_lt⟩

end Chain

end Cospend
