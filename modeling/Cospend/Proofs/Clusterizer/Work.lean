import Cospend.Proofs.Clusterizer.Resolution

/-!
# The work on a block

A block that was processed without an error was applied as the chain has it, and everything that it
changed is staged in its batch. The store, the phase, the mark of a stale partition and the height of
the partition are left as they are, whether an error occurs or not.
-/

namespace Cospend.Clusterizer

variable {β α γ : Type} [WriteBatch β] {c c' : Clusterizer β} {env : Environment} {chain : Chain}

/-! ## What an action leaves alone -/

/-- The store is the same, and so is the place of the walk. -/
structure Beside (c c' : Clusterizer β) : Prop where
  store_eq : c'.store = c.store
  phase_eq : c'.phase = c.phase
  stale_eq : c'.stale = c.stale

/-- Nothing but the partition, the log and the clock differs, and the partition has the same height. -/
def Inner (c c' : Clusterizer β) : Prop :=
  ∃ partition log clock, c' = { c with partition, log, clock } ∧
    partition.height = c.partition.height

/-- The action changes nothing else, whether it succeeds or not. -/
def Confined (x : Action β α) : Prop := ∀ c, Inner c (x c).2

section Confined

omit [WriteBatch β]

theorem Inner.refl (c : Clusterizer β) : Inner c c := ⟨_, _, _, rfl, rfl⟩

theorem Inner.trans {c'' : Clusterizer β} (h : Inner c c') (h' : Inner c' c'') : Inner c c'' := by
  obtain ⟨partition, log, clock, rfl, hheight⟩ := h
  obtain ⟨partition', log', clock', rfl, hheight'⟩ := h'
  exact ⟨partition', log', clock', rfl, hheight'.trans hheight⟩

theorem Confined.bind {x : Action β α} {f : α → Action β γ} (hx : Confined x)
    (hf : ∀ a, Confined (f a)) : Confined (x >>= f) := by
  intro c
  have hc := hx c
  refine bind_cases (motive := fun (r : _ × Clusterizer β) => Inner c r.2) ?_ ?_
  · intro e c' h
    rwa [h] at hc
  · intro a c' h
    rw [h] at hc
    exact hc.trans (hf a c')

theorem Confined.logging {x : Action β α} (hx : Confined x) (what : String) :
    Confined (logging what x) := by
  intro c
  refine (hx c).trans ?_
  unfold Clusterizer.logging
  rcases x c with ⟨(_ | _) | _, _⟩ <;> exact ⟨_, _, _, rfl, rfl⟩

theorem asked_eq_ok {what : String} {answer : Except LedgerError α} {a : α}
    (h : asked what answer c = (.ok a, c')) : answer = .ok a ∧ c' = c := by
  unfold asked at h
  cases answer <;> cases h
  exact ⟨rfl, rfl⟩

theorem asked_eq_error {what : String} {answer : Except LedgerError α} {e : Failure ClusterizerError}
    (h : asked what answer c = (.error e, c')) :
    ∃ e' log, e = .error (.ledger e') ∧ c' = { c with log } := by
  unfold asked at h
  cases answer <;> cases h
  exact ⟨_, _, rfl, rfl⟩

theorem confined_listed (height : Height) (place : Nat) (id : Digest) :
    Confined (listed env height place id : Action β Transaction) := by
  intro c
  unfold listed
  cases env.ledger.transaction ⟨height, place, none⟩ id <;> exact .refl c

theorem confined_funders (height : Height) (place : Nat) (t : Transaction) :
    Confined (funders env height place t : Action β (List Address)) := by
  intro c
  unfold funders
  rcases env.inputAddresses height place t c.clock with ⟨_ | _, _⟩ <;> exact ⟨_, _, _, rfl, rfl⟩

theorem confined_work {x : Work β α} (hx : Workspace.Level x) (b : Pending β) :
    Confined (work x b) := by
  intro c
  have hheight := hx ⟨c.partition, b⟩
  unfold work
  rcases hresult : x ⟨c.partition, b⟩ with ⟨_ | _, _⟩ <;> rw [hresult] at hheight <;>
    exact ⟨_, _, _, rfl, hheight⟩

end Confined

theorem confined_processTransactions (height : Height) (place : Nat) (ids : List Digest)
    (b : Pending β) : Confined (processTransactions env height place ids b) := by
  induction ids generalizing place b with
  | nil => exact .refl
  | cons id ids ih =>
      refine .bind (.logging ?_ _) fun b' => ih (place + 1) b'
      exact (confined_listed height place id).bind fun t =>
        (confined_funders height place t).bind fun as => confined_work (Workspace.level_cospend _) b

/-- What the work on a block may change. Nothing is published but its announcement. -/
def Worked (height : Height) (c c' : Clusterizer β) : Prop :=
  ∃ es partition pending log clock,
    c' = { c with partition, pending, published := c.published ++ es, log, clock } ∧
    partition.height = c.partition.height ∧
    (es = [] ∨ ∃ hash transactions, es = [.blockStarted height hash transactions])

theorem worked_processBlock (env : Environment) (height : Height) (c : Clusterizer β) :
    Worked height c (processBlock env height c).2 := by
  refine bind_cases (motive := fun (r : _ × Clusterizer β) => Worked height c r.2) ?_ ?_
  · intro e c' h
    obtain ⟨-, log, -, rfl⟩ := asked_eq_error h
    exact ⟨[], c.partition, c.pending, log, c.clock, by rw [List.append_nil], rfl, .inl rfl⟩
  · intro block c₁ h
    obtain ⟨-, rfl⟩ := asked_eq_ok h
    -- the announcement is out before the first transaction is looked at
    let announced : Clusterizer β :=
      { c₁ with published := c₁.published ++ [.blockStarted height block.hash block.transactions.length] }
    rw [bind_of_ok (show publish _ c₁ = (.ok (), announced) from rfl)]
    obtain ⟨partition, log, clock, hleft, hheight⟩ :
        Inner announced (processTransactions env height 0 block.transactions .empty announced).2 :=
      confined_processTransactions height 0 block.transactions .empty announced
    refine bind_cases (motive := fun (r : _ × Clusterizer β) => Worked height c₁ r.2) ?_ ?_
    · intro e c' h
      rw [h] at hleft
      exact ⟨_, partition, _, log, clock, hleft, hheight, .inr ⟨_, _, rfl⟩⟩
    · intro b c' h
      rw [h] at hleft
      obtain rfl := hleft
      exact ⟨_, partition, _, log, clock, rfl, hheight, .inr ⟨_, _, rfl⟩⟩

theorem beside_processBlock (env : Environment) (height : Height) (c : Clusterizer β) :
    Beside c (processBlock env height c).2 := by
  obtain ⟨es, partition, pending, log, clock, heq, -⟩ := worked_processBlock env height c
  rw [heq]
  exact ⟨rfl, rfl, rfl⟩

theorem height_processBlock (env : Environment) (height : Height) (c : Clusterizer β) :
    (processBlock env height c).2.partition.height = c.partition.height := by
  obtain ⟨es, partition, pending, log, clock, heq, hheight, -⟩ := worked_processBlock env height c
  rw [heq]
  exact hheight

/-! ## What is processed -/

section Processed

omit [WriteBatch β] in
theorem logging_eq_ok {x : Action β α} {what : String} {a : α}
    (h : logging what x c = (.ok a, c')) : x c = (.ok a, c') := by
  unfold logging at h
  rcases hx : x c with ⟨(_ | _) | _, _⟩ <;> rw [hx] at h <;> cases h
  rfl

omit [WriteBatch β] in
theorem listed_eq_ok (htells : env.ledger.Tells chain) {height : Height} {place : Nat} {id : Digest}
    {t : Transaction} (h : listed env height place id c = (.ok t, c')) :
    t = chain.transaction id ∧ c' = c := by
  unfold listed at h
  split at h <;> cases h
  exact ⟨htells.transaction ‹_›, rfl⟩

omit [WriteBatch β] in
theorem funders_eq_ok (htells : env.ledger.Tells chain) {height : Height} {place : Nat}
    {t : Transaction} {as : List Address} (h : funders env height place t c = (.ok as, c')) :
    (chain.resolves t = true ∧ Address.sort as = chain.funders t) ∧ c'.partition = c.partition := by
  unfold funders at h
  split at h <;> cases h
  exact ⟨Environment.inputAddresses_tells htells ‹_›, rfl⟩

omit [WriteBatch β] in
theorem work_eq_ok {x : Work β α} {b b' : Pending β} (h : work x b c = (.ok b', c')) :
    ∃ a, x ⟨c.partition, b⟩ = (.ok a, ⟨c'.partition, b'⟩) := by
  unfold work at h
  split at h <;> cases h
  exact ⟨_, ‹_›⟩

/-- Any batch will do for applying a transaction. -/
theorem applyTransaction_of_cospend {p q : Partition} {id : Digest} {b b' : Pending β} {u : Unit}
    (hresolves : chain.resolves (chain.transaction id) = true)
    (h : Workspace.cospend (chain.funders (chain.transaction id)) ⟨p, b⟩ = (.ok u, ⟨q, b'⟩)) :
    chain.applyTransaction p id = some q := by
  obtain ⟨hanswer, hpartition⟩ := Workspace.uniform_cospend (chain.funders (chain.transaction id))
    (⟨p, .empty⟩ : Workspace Delta) ⟨p, b⟩ rfl
  rw [h] at hanswer hpartition
  rw [Chain.applyTransaction, if_pos hresolves]
  split
  · rename_i w hw
    rw [hw] at hpartition
    exact congrArg some hpartition
  · rename_i e w hw
    rw [hw] at hanswer
    cases hanswer

/-- A transaction that was processed has put the addresses that fund it together. -/
theorem cospend_of_processTransaction (htells : env.ledger.Tells chain) {height : Height} {place : Nat}
    {id : Digest} {b b' : Pending β} (h : processTransaction env height place id b c = (.ok b', c')) :
    chain.resolves (chain.transaction id) = true ∧
      ∃ u, Workspace.cospend (chain.funders (chain.transaction id)) ⟨c.partition, b⟩ =
        (.ok u, ⟨c'.partition, b'⟩) := by
  obtain ⟨t, c₁, hlisted, hrest⟩ := bind_ok_cases h
  obtain ⟨as, c₂, hfunders, hwork⟩ := bind_ok_cases hrest
  obtain ⟨rfl, rfl⟩ := listed_eq_ok htells hlisted
  obtain ⟨⟨hresolves, hsort⟩, hp⟩ := funders_eq_ok htells hfunders
  obtain ⟨u, hcospend⟩ := work_eq_ok hwork
  rw [hsort, hp] at hcospend
  exact ⟨hresolves, u, hcospend⟩

/-- A transaction that was processed was applied as the chain has it. -/
theorem processTransaction_eq_ok (htells : env.ledger.Tells chain) {height : Height} {place : Nat}
    {id : Digest} {b b' : Pending β} (h : processTransaction env height place id b c = (.ok b', c')) :
    chain.applyTransaction c.partition id = some c'.partition := by
  obtain ⟨hresolves, u, hcospend⟩ := cospend_of_processTransaction htells h
  exact applyTransaction_of_cospend hresolves hcospend

theorem processTransactions_eq_ok (htells : env.ledger.Tells chain) {height : Height} {place : Nat}
    {ids : List Digest} {b b' : Pending β}
    (h : processTransactions env height place ids b c = (.ok b', c')) :
    ids.foldlM chain.applyTransaction c.partition = some c'.partition := by
  induction ids generalizing place b c with
  | nil =>
      cases h
      rfl
  | cons id ids ih =>
      obtain ⟨b₁, c₁, hfirst, h⟩ := bind_ok_cases h
      rw [List.foldlM_cons, processTransaction_eq_ok htells (logging_eq_ok hfirst)]
      exact ih h

/-- A block that was processed was taken from the ledger and its transactions were processed. -/
theorem processBlock_cases {height : Height} (h : processBlock env height c = (.ok (), c')) :
    ∃ block b c₁ c₂, env.ledger.block height = .ok block ∧ c₁.partition = c.partition ∧
      processTransactions env height 0 block.transactions .empty c₁ = (.ok b, c₂) ∧
      c'.partition = c₂.partition ∧ c'.pending = some b := by
  obtain ⟨block, c₀, hblock, hrest⟩ := bind_ok_cases h
  obtain ⟨_, c₁, hpublish, hrest⟩ := bind_ok_cases hrest
  obtain ⟨b, c₂, hprocess, hend⟩ := bind_ok_cases hrest
  obtain ⟨hanswer, rfl⟩ := asked_eq_ok hblock
  cases hend
  refine ⟨block, b, c₁, c₂, hanswer, ?_, hprocess, rfl, rfl⟩
  cases hpublish
  rfl

theorem processBlock_eq_ok (htells : env.ledger.Tells chain) {height : Height}
    (h : processBlock env height c = (.ok (), c')) :
    (chain.block height).transactions.foldlM chain.applyTransaction c.partition =
      some c'.partition := by
  obtain ⟨block, b, c₁, c₂, hblock, hbefore, hprocess, hafter, -⟩ := processBlock_cases h
  obtain rfl := htells.block hblock
  rw [← hbefore, hafter]
  exact processTransactions_eq_ok htells hprocess

/-- What a transaction that was processed changed came about by elementary changes, whatever the ledger told
of it. -/
theorem edits_processTransaction {height : Height} {place : Nat} {id : Digest} {b b' : Pending β}
    (hc : c.partition.Sound) (h : processTransaction env height place id b c = (.ok b', c')) :
    Workspace.Edits ⟨c.partition, b⟩ ⟨c'.partition, b'⟩ := by
  obtain ⟨t, c₁, hlisted, hrest⟩ := bind_ok_cases h
  obtain ⟨as, c₂, hfunders, hwork⟩ := bind_ok_cases hrest
  have hp : c₂.partition = c.partition := by
    unfold listed at hlisted
    unfold funders at hfunders
    split at hlisted <;> cases hlisted
    split at hfunders <;> cases hfunders
    rfl
  obtain ⟨u, hcospend⟩ := work_eq_ok hwork
  have hedits := Workspace.edits_cospend (w := ⟨c.partition, b⟩) hc (Address.sort as)
  rw [hp] at hcospend
  rwa [hcospend] at hedits

theorem edits_processTransactions {height : Height} {place : Nat} {ids : List Digest} {b b' : Pending β}
    (hc : c.partition.Sound) (h : processTransactions env height place ids b c = (.ok b', c')) :
    Workspace.Edits ⟨c.partition, b⟩ ⟨c'.partition, b'⟩ := by
  induction ids generalizing place b c with
  | nil =>
      cases h
      exact .refl
  | cons id ids ih =>
      obtain ⟨b₁, c₁, hfirst, h⟩ := bind_ok_cases h
      have hedits := edits_processTransaction hc (logging_eq_ok hfirst)
      exact hedits.trans (ih (hedits.sound hc) h)

theorem edits_processBlock {height : Height} (hc : c.partition.Sound)
    (h : processBlock env height c = (.ok (), c')) :
    ∃ b, c'.pending = some b ∧ Workspace.Edits ⟨c.partition, .empty⟩ ⟨c'.partition, b⟩ := by
  obtain ⟨block, b, c₁, c₂, -, hbefore, hprocess, hafter, hpending⟩ := processBlock_cases h
  rw [← hbefore] at hc ⊢
  rw [hafter]
  exact ⟨b, hpending, edits_processTransactions hc hprocess⟩

theorem staged_processBlock [LawfulBatch β] {height : Height} (hc : c.partition.Numbered)
    (h : processBlock env height c = (.ok (), c')) :
    ∃ b, c'.pending = some b ∧ Workspace.Staged ⟨c.partition, .empty⟩ ⟨c'.partition, b⟩ := by
  obtain ⟨b, hpending, hedits⟩ := edits_processBlock hc.toSound h
  exact ⟨b, hpending, hedits.staged hc⟩

end Processed

end Cospend.Clusterizer
