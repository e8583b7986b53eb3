import Cospend.Proofs.Clusterizer.Decision
import Cospend.Proofs.Clusterizer.Schedule
import Cospend.Proofs.Partition.Room

/-!
# Blocks that are told of

If the ledger answers every question about a block, and all whose outputs it spends are owners that there is
room for, then the block is processed. If the store does not fail either, its checkpoint follows in the step
after, and everything is ready for the next block.
-/

namespace Cospend

open Cospend.Partition (Alike)

variable {owners : List Address} {height : Height} {place : Nat} {id : Digest} {t : Transaction}

/-! ## What the ledger is asked -/

namespace Ledger

/-- The ledger tells of every output that a transaction spends, and it belongs to one of the owners, if to
anybody. -/
def Owns (l : Ledger) (owners : List Address) (height : Height) (place : Nat) (t : Transaction) : Prop :=
  ∀ k o, t.spent[k]? = some o → ∃ u output, l.transaction ⟨height, place, some k⟩ o.transaction = .ok u ∧
    u.outputs[o.index.toNat]? = some output ∧ ∀ a, output.address = some a → a ∈ owners

/-- The ledger tells of the transaction at a place in a block and of all that it spends. -/
def Lists (l : Ledger) (owners : List Address) (height : Height) (place : Nat) (id : Digest) : Prop :=
  ∃ t, l.transaction ⟨height, place, none⟩ id = .ok t ∧ l.Owns owners height place t

/-- The ledger tells of the block at a height and of every transaction in it. -/
def Supplies (l : Ledger) (owners : List Address) (height : Height) : Prop :=
  ∃ block, l.block height = .ok block ∧
    ∀ place id, block.transactions[place]? = some id → l.Lists owners height place id

theorem Owns.resolves {l : Ledger} (h : l.Owns owners height place t) : l.Resolves height place t := by
  intro k o ho
  obtain ⟨u, output, hu, houtput, -⟩ := h k o ho
  obtain ⟨hlt, -⟩ := List.getElem?_eq_some_iff.mp houtput
  exact ⟨u, hu, hlt⟩

end Ledger

/-- The phase of the walk that begins or ends with the event. -/
def Event.phase? : Event → Option Phase
  | .blockStarted height _ _ => some (.processing height)
  | .checkpointed height _ _ => some (.checkpointing height)
  | .caughtUp _ => some .done
  | _ => none

namespace Environment

variable {env : Environment} {occasion : Occasion} {o : Outpoint} {a : Address}

theorem address_of_mem_lookUp {u : Transaction} {output : Output}
    (hu : env.ledger.transaction occasion o.transaction = .ok u)
    (houtput : u.outputs[o.index.toNat]? = some output) (ha : a ∈ (env.lookUp occasion o ∅).2) :
    output.address = some a := by
  unfold lookUp at ha
  simp only [hu, houtput] at ha
  cases haddress : output.address with
  | none => simp [haddress] at ha
  | some b =>
      simp only [haddress, Std.ExtTreeSet.mem_insert, Std.ExtTreeSet.not_mem_empty, or_false] at ha
      rw [Std.LawfulEqCmp.compare_eq_iff_eq.mp ha]

theorem inputAddresses_of_owns (h : env.ledger.Owns owners height place t) (clock : Nat) :
    ∃ as clock', env.inputAddresses height place t clock = (.ok as, clock') ∧ ∀ a ∈ as, a ∈ owners := by
  obtain ⟨as, clock', hfound⟩ := inputAddresses_of_resolves h.resolves clock
  obtain ⟨-, -, hmem⟩ := inputAddresses_eq_ok hfound
  refine ⟨as, clock', hfound, fun a ha => ?_⟩
  obtain ⟨j, hj, ha⟩ := (hmem a).mp ha
  obtain ⟨k, hk, rfl⟩ := List.mem_mapIdx.mp hj
  obtain ⟨u, output, hu, houtput, hall⟩ := h k _ (by
    rw [Transaction.spent, List.getElem?_map, List.getElem?_eq_getElem hk]
    rfl)
  exact hall a (address_of_mem_lookUp hu houtput ha)

end Environment

namespace Clusterizer

variable {β : Type} [WriteBatch β] {c c' d : Clusterizer β} {env : Environment} {p : Partition}

/-! ## Processing -/

omit [WriteBatch β] in
theorem logging_of_ok {α : Type} {what : String} {x : Action β α} {a : α} (h : x c = (.ok a, c')) :
    logging what x c = (.ok a, c') := by
  simp only [logging, h]

theorem processTransaction_ok (hc : c.partition.Roomy owners) (h : env.ledger.Lists owners height place id)
    (b : Pending β) : ∃ b' c', processTransaction env height place id b c = (.ok b', c') ∧
      c'.partition.Roomy owners := by
  obtain ⟨t, ht, howns⟩ := h
  obtain ⟨as, clock, hfound, has⟩ := Environment.inputAddresses_of_owns howns c.clock
  have hfunders : funders env height place t c = (.ok as, { c with clock }) := by
    simp only [funders, hfound]
  have hsorted : ∀ a ∈ Address.sort as, a ∈ owners := fun a ha => has a (Address.mem_sort.mp ha)
  obtain ⟨w, hcospend, hw⟩ := Workspace.cospend_ok (w := ⟨c.partition, b⟩) hc hsorted
  have hwork : work (Workspace.cospend (Address.sort as)) b { c with clock } =
      (.ok w.pending, { c with clock, partition := w.partition }) := by
    simp only [work, hcospend]
  refine ⟨w.pending, { c with clock, partition := w.partition }, ?_, hw⟩
  rw [processTransaction, bind_of_ok (listed_of_ok ht c), bind_of_ok hfunders, hwork]

theorem processTransactions_ok {ids : List Digest} (hc : c.partition.Roomy owners)
    (h : ∀ k id, ids[k]? = some id → env.ledger.Lists owners height (place + k) id) (b : Pending β) :
    ∃ b' c', processTransactions env height place ids b c = (.ok b', c') ∧ c'.partition.Roomy owners := by
  induction ids generalizing place b c with
  | nil => exact ⟨b, c, rfl, hc⟩
  | cons id ids ih =>
      have hlists : env.ledger.Lists owners height place id := h 0 id rfl
      obtain ⟨b₁, c₁, hfirst, hc₁⟩ := processTransaction_ok hc hlists b
      have hrest (k : Nat) (id : Digest) (hid : ids[k]? = some id) :
          env.ledger.Lists owners height (place + 1 + k) id := by
        rw [Nat.add_assoc, Nat.add_comm 1 k]
        exact h (k + 1) id hid
      obtain ⟨b₂, c₂, hprocess, hc₂⟩ := ih hc₁ hrest b₁
      refine ⟨b₂, c₂, ?_, hc₂⟩
      rw [processTransactions, bind_of_ok (logging_of_ok hfirst), hprocess]

theorem processBlock_ok (hc : c.partition.Roomy owners) (h : env.ledger.Supplies owners height) :
    ∃ hash n b partition log clock, processBlock env height c = (.ok (), { c with
        partition, pending := some b, published := c.published ++ [.blockStarted height hash n], log, clock }) ∧
      partition.Roomy owners := by
  obtain ⟨block, hblock, hlists⟩ := h
  let announced : Clusterizer β :=
    { c with published := c.published ++ [.blockStarted height block.hash block.transactions.length] }
  have hall (k : Nat) (id : Digest) (hid : block.transactions[k]? = some id) :
      env.ledger.Lists owners height (0 + k) id := by
    rw [Nat.zero_add]
    exact hlists k id hid
  obtain ⟨b, d, hprocess, hd⟩ := processTransactions_ok (c := announced) hc hall .empty
  have hinner : Inner announced (processTransactions env height 0 block.transactions .empty announced).2 :=
    confined_processTransactions height 0 block.transactions .empty announced
  rw [hprocess] at hinner
  obtain ⟨partition, log, clock, rfl, -⟩ := hinner
  refine ⟨block.hash, block.transactions.length, b, partition, log, clock, ?_, hd⟩
  rw [processBlock, hblock, bind_of_ok (asked_of_ok block),
    bind_of_ok (show publish _ c = (.ok (), announced) from rfl), bind_of_ok hprocess]
  rfl

/-! ## From one checkpoint to the next -/

/-- The store does not fail, it holds `p`, memory goes with it, and there is room for the owners. -/
structure Ready (owners : List Address) (p : Partition) (c : Clusterizer β) : Prop where
  roomy : p.Roomy owners
  table : c.store.table = p.table
  faultless : c.store.faults = .none
  clear : c.stale = false
  alike : Alike c.partition p

theorem step_of_transition {phase : Phase} (h : transition env c.phase c = (.ok phase, d)) :
    step env c = (.ok phase, { d with phase }) := by
  unfold step
  rw [h]

variable [LawfulBatch β]

/-- The block is processed in one step and written in the next, before the decision how to go on. -/
theorem Ready.block (h : Ready owners p c) (hphase : c.phase = .processing height)
    (hsupplies : env.ledger.Supplies owners height) :
    ∃ c' q d es, step env c = (.ok (.checkpointing height), c') ∧
      transition env c'.phase c' = phaseAfter env (some height) d ∧ Ready owners q d ∧
      q.height = some height ∧ d.published = c.published ++ es ∧
      es.filterMap Event.phase? = [.processing height, .checkpointing height] := by
  have hmemory := h.roomy.of_alike h.alike
  obtain ⟨hash, n, b, partition, log, clock, hprocess, hpartition⟩ := processBlock_ok hmemory hsupplies
  obtain ⟨b', hpending, hstaged⟩ := staged_processBlock hmemory.toNumbered hprocess
  cases hpending
  -- the changes made in memory, made to what the store holds, are what is pending
  obtain ⟨change, -, hchange⟩ := hstaged.change
  obtain ⟨halike, hleads⟩ := hchange p h.alike.symm
  have hleads := (hleads p.table (Pending.leadsTo_empty p)).stage_height height
  let processed : Clusterizer β := { c with
    partition, pending := some b, log, clock
    published := c.published ++ [.blockStarted height hash n] }
  have htransition : transition env c.phase c = (.ok (.checkpointing height), processed) := by
    rw [hphase, transition, bind_of_ok hprocess]
    rfl
  have hwrite : c.store.faults.write c.store.writes = none := by
    rw [h.faultless]
    rfl
  let next : Clusterizer β := { processed with phase := .checkpointing height }
  refine ⟨next, (change p).checkpointed (some height), _,
    [.blockStarted height hash n, .checkpointed height partition.size (b.stage .height height).size],
    step_of_transition htransition, bind_of_ok (checkpoint_of_write (c := next) height hwrite), ?_, rfl,
    List.append_assoc _ _ _, rfl⟩
  exact {
    roomy := (hpartition.of_alike halike).checkpointed _
    table := by
      change WriteBatch.applyTo (b.stage .height height).writes c.store.table = _
      rw [h.table]
      exact hleads
    faultless := h.faultless
    clear := h.clear
    alike := (halike.checkpointed (some height)).symm }

end Clusterizer

end Cospend
