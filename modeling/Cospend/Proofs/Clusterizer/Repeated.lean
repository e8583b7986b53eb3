import Cospend.Proofs.Clusterizer.Schedule
import Cospend.Proofs.Partition.Together
import Cospend.Proofs.Session.Safety

/-!
# Transactions processed again

A transaction puts the addresses that fund it together, and they stay together whatever is registered,
looked for, merged or finalized later. So to process it again changes nothing but the ways to the roots.
-/

namespace Cospend

/-! ## Later calls -/

namespace Session

variable {β : Type} [WriteBatch β] {s : Session β}

/-- As long as nothing is read back, no cluster is divided. -/
theorem refines_perform (hs : s.partition.Sound) {c : Call} (hc : c.isRestore = false) :
    s.partition.Refines (s.perform c).2.partition := by
  have hfinalize : c.isFinalize = true → s.partition.Refines (s.perform c).2.partition := by
    intro hc
    rw [perform_finalize hc]
    exact hs.finalize.refines
  cases c with
  | register a => exact (Workspace.edits_register s.workspace a).refines hs
  | find a => exact (Workspace.edits_find s.workspace a).refines hs
  | union a b => exact (Workspace.edits_union (w := s.workspace) hs a b).refines hs
  | finalize => exact hfinalize rfl
  | exportSheet d path => exact hfinalize rfl
  | exportSink sink workers batchSize schedule state => exact hfinalize rfl
  | flush fault => cases fault <;> exact .of_eq rfl
  | setHeight height => exact .of_eq rfl
  | drop => exact .of_eq rfl
  | restore faults => cases hc

theorem refines_run (hs : s.partition.Sound) {cs : List Call} (hcs : ∀ c ∈ cs, c.isRestore = false) :
    s.partition.Refines (s.run cs).2.partition := by
  induction cs generalizing s with
  | nil => exact .of_eq rfl
  | cons c cs ih =>
      obtain ⟨hc, hcs⟩ := List.forall_mem_cons.mp hcs
      exact (refines_perform hs hc).trans (ih (sound_perform hs c) hcs)

end Session

/-! ## Visits of transactions -/

/-- A transaction with the place at which it is listed and the circumstances in which it is processed. -/
structure Visit where
  env : Environment
  height : Height
  place : Nat
  id : Digest

namespace Visit

variable {β : Type} [WriteBatch β] {chain : Chain} {v : Visit} {vs : List Visit} {b b' : Pending β}
variable {c c' : Clusterizer β}

def funders (chain : Chain) (v : Visit) : List Address := chain.funders (chain.transaction v.id)

/-- The ledger tells of the transaction and of every output that it spends. -/
def Resolved (v : Visit) : Prop :=
  ∃ t, v.env.ledger.transaction ⟨v.height, v.place, none⟩ v.id = .ok t ∧
    v.env.ledger.Resolves v.height v.place t

def process (v : Visit) (b : Pending β) : Action β (Pending β) :=
  Clusterizer.processTransaction v.env v.height v.place v.id b

/-- Processes transactions in order, with one batch. -/
def processAll : List Visit → Pending β → Action β (Pending β)
  | [], b => return b
  | v :: vs, b => do processAll vs (← v.process b)

/-- Once they were processed, the addresses that fund one transaction are together. -/
theorem together_of_processAll (htells : ∀ v ∈ vs, v.env.ledger.Tells chain) (hc : c.partition.Sound)
    (h : processAll vs b c = (.ok b', c')) :
    c'.partition.Sound ∧ c.partition.Refines c'.partition ∧
      ∀ v ∈ vs, c'.partition.Together (v.funders chain) := by
  induction vs generalizing b c with
  | nil =>
      cases h
      exact ⟨hc, .of_eq rfl, by simp⟩
  | cons v vs ih =>
      obtain ⟨hv, hvs⟩ := List.forall_mem_cons.mp htells
      obtain ⟨b₁, c₁, hfirst, hrest⟩ := bind_ok_cases h
      have hedits := Clusterizer.edits_processTransaction hc hfirst
      obtain ⟨-, u, hcospend⟩ := Clusterizer.cospend_of_processTransaction hv hfirst
      have htogether := Workspace.together_of_cospend hc hcospend
      -- the transactions after `v` divide no cluster, so its funders stay together
      obtain ⟨hsound, hrefines, hall⟩ := ih hvs (hedits.sound hc) hrest
      exact ⟨hsound, (hedits.refines hc).trans hrefines,
        List.forall_mem_cons.mpr ⟨htogether.mono hrefines, hall⟩⟩

omit [WriteBatch β] in
theorem funders_of_resolved (htells : v.env.ledger.Tells chain) (h : v.Resolved) (c : Clusterizer β) :
    ∃ as clock, Address.sort as = v.funders chain ∧
      Clusterizer.listed v.env v.height v.place v.id c = (.ok (chain.transaction v.id), c) ∧
      Clusterizer.funders v.env v.height v.place (chain.transaction v.id) c = (.ok as, { c with clock }) := by
  obtain ⟨t, ht, hresolves⟩ := h
  obtain rfl := htells.transaction ht
  obtain ⟨as, clock, hfound⟩ := Environment.inputAddresses_of_resolves hresolves c.clock
  refine ⟨as, clock, (Environment.inputAddresses_tells htells hfound).2, Clusterizer.listed_of_ok ht c, ?_⟩
  simp only [Clusterizer.funders, hfound]

/-- A transaction whose funders are together is processed, and nothing but ways gets shorter. -/
theorem process_of_together (htells : v.env.ledger.Tells chain) (hv : v.Resolved)
    (hc : c.partition.Sound) (h : c.partition.Together (v.funders chain)) (b : Pending β) :
    ∃ b' c', v.process b c = (.ok b', c') ∧
      Workspace.Tidied ⟨c.partition, b⟩ ⟨c'.partition, b'⟩ := by
  obtain ⟨as, clock, hsort, hlisted, hfunders⟩ := funders_of_resolved htells hv c
  rw [← hsort] at h
  obtain ⟨w', hcospend, htidied⟩ := Workspace.cospend_of_together (w := ⟨c.partition, b⟩) hc h
  refine ⟨w'.pending, { c with clock, partition := w'.partition }, ?_, htidied⟩
  rw [process, Clusterizer.processTransaction, bind_of_ok hlisted, bind_of_ok hfunders]
  simp only [Clusterizer.work, hcospend]

theorem processAll_of_together (hvs : ∀ v ∈ vs, v.env.ledger.Tells chain ∧ v.Resolved)
    (hc : c.partition.Sound) (h : ∀ v ∈ vs, c.partition.Together (v.funders chain)) (b : Pending β) :
    ∃ b' c', processAll vs b c = (.ok b', c') ∧
      Workspace.Tidied ⟨c.partition, b⟩ ⟨c'.partition, b'⟩ := by
  induction vs generalizing b c with
  | nil => exact ⟨b, c, rfl, .refl hc⟩
  | cons v vs ih =>
      obtain ⟨⟨htells, hv⟩, hvs⟩ := List.forall_mem_cons.mp hvs
      obtain ⟨htogether, h⟩ := List.forall_mem_cons.mp h
      obtain ⟨b₁, c₁, hfirst, htidied⟩ := process_of_together htells hv hc htogether b
      have halike : Partition.Alike c₁.partition c.partition := htidied.alike
      obtain ⟨b₂, c₂, hrest, htidied'⟩ :=
        ih hvs (halike.sound hc) (fun v hv => (h v hv).mono halike.refines) b₁
      refine ⟨b₂, c₂, ?_, htidied.trans htidied'⟩
      rw [processAll, bind_of_ok hfirst]
      exact hrest

/-- Let transactions be processed once, from any sound partition, and let any addresses be registered,
looked for, merged and finalized after that. Then any of these transactions are processed again, in any
order, as often as one likes and with any schedules, without an error. No number, no size, no rank, no root
and no cluster changes, and nothing is staged but roots as the parents of their nodes. -/
theorem processAll_again {first again : List Visit} {b₀ b₁ : Pending β} {c₀ c₁ c₂ : Clusterizer β}
    {s : Session β} {calls : List Call}
    (hsound : c₀.partition.Sound) (htells : ∀ v ∈ first, v.env.ledger.Tells chain)
    (hfirst : processAll first b₀ c₀ = (.ok b₁, c₁)) (hs : s.partition = c₁.partition)
    (hcalls : ∀ c ∈ calls, c.isRestore = false) (hlater : c₂.partition = (s.run calls).2.partition)
    (hagain : ∀ v ∈ again, v.env.ledger.Tells chain ∧ v.Resolved ∧ ∃ u ∈ first, u.id = v.id)
    (b₂ : Pending β) :
    ∃ b c moved, processAll again b₂ c₂ = (.ok b, c) ∧
      b = b₂.stageRoots c₂.partition.forest moved ∧ (∀ i ∈ moved, i < c₂.partition.size) ∧
      c.partition.ids = c₂.partition.ids ∧ c.partition.size = c₂.partition.size ∧
      (∀ i, c.partition.rank? i = c₂.partition.rank? i) ∧
      (∀ i, c.partition.forest.root i = c₂.partition.forest.root i) ∧
      (∀ a, c.partition.clusterOf a = c₂.partition.clusterOf a) ∧
      c.partition.clusters = c₂.partition.clusters := by
  obtain ⟨hc₁, -, htogether⟩ := together_of_processAll htells hsound hfirst
  rw [← hs] at hc₁ htogether
  have hc₂ : c₂.partition.Sound := hlater ▸ Session.sound_run hc₁ calls
  have hrefines : s.partition.Refines c₂.partition := hlater ▸ Session.refines_run hc₁ hcalls
  have hfunders : ∀ v ∈ again, c₂.partition.Together (v.funders chain) := by
    intro v hv
    obtain ⟨-, -, u, hu, hid⟩ := hagain v hv
    have hsame : u.funders chain = v.funders chain := by rw [funders, funders, hid]
    exact hsame ▸ (htogether u hu).mono hrefines
  obtain ⟨b, c, hok, halike, moved, hlt, hpending⟩ :=
    processAll_of_together (fun v hv => ⟨(hagain v hv).1, (hagain v hv).2.1⟩) hc₂ hfunders b₂
  refine ⟨b, c, moved, hok, hpending, hlt, halike.ids_eq, halike.size_eq, fun i => ?_,
    halike.forest.root_eq, halike.clusterOf_eq, halike.clusters_eq⟩
  rw [Partition.rank?, Partition.rank?, halike.forest.rank_eq]

section Sample

open Sample

/-- The transaction of the sample chain that spends the outputs of two owners. -/
def once : Visit := ⟨Sample.env, .genesis, 0, spending⟩

/-- It is listed elsewhere, and five workers take other turns. -/
def revisit : Visit :=
  ⟨⟨Sample.env.ledger, 5, fun n => 7 * n, List.reverse, List.reverse_perm⟩, .genesis, 3, spending⟩

def processed : Clusterizer Delta := (processAll [once] .empty (started ∅).2).2

/-- Calls after which the cluster of the two owners has another root, two steps away from one of them. -/
def calls : List Call :=
  [.register ⟨"x"⟩, .register ⟨"y"⟩, .union ⟨"x"⟩ ⟨"y"⟩, .finalize, .union ⟨"x"⟩ ⟨"a"⟩, .find ⟨"a"⟩]

def unmerged : Session Delta := ⟨.empty, ⟨processed.partition, .empty⟩, false⟩

def merged : Session Delta := (unmerged.run calls).2

def later : Clusterizer Delta := { processed with partition := merged.partition }

theorem processAll_again_merged :
    later.partition.forest = ⟨#[2, 0, 2, 2], #[1, 0, 2, 0]⟩ ∧
      ∃ b c moved, processAll [revisit, revisit] .empty later = (.ok b, c) ∧
        b = (Pending.empty : Pending Delta).stageRoots later.partition.forest moved ∧
        c.partition.ids = later.partition.ids ∧ (∀ i, c.partition.rank? i = later.partition.rank? i) ∧
        c.partition.clusterOf ⟨"b"⟩ = some 2 := by
  have htells : Sample.env.ledger.Tells sample := sample.tells_ledger .genesis
  have honce : ∀ v ∈ [once], v.env.ledger.Tells sample := by
    intro v hv
    rw [List.mem_singleton.mp hv]
    exact htells
  have hagain : ∀ v ∈ [revisit, revisit], v.env.ledger.Tells sample ∧ v.Resolved ∧
      ∃ u ∈ [once], u.id = v.id := by
    intro v hv
    obtain rfl : v = revisit := by simpa using hv
    refine ⟨htells, ⟨sample.transaction spending, rfl, ?_⟩, once, List.mem_singleton_self _, rfl⟩
    exact Environment.resolves_iff.mpr (by decide +kernel)
  have hsound : (started ∅).2.partition.Sound := by
    have hempty : (started ∅).2.partition = .empty := by rfl
    rw [hempty]
    exact Partition.numbered_empty.toSound
  rcases hfirst : processAll [once] .empty (started ∅).2 with ⟨e | b₁, c₁⟩
  · have hok : (processAll [once] .empty (started ∅).2).1.isOk = true := by decide +kernel
    rw [hfirst] at hok
    cases hok
  · obtain rfl : processed = c₁ := congrArg Prod.snd hfirst
    have hunmerged : unmerged.partition = processed.partition := by rw [unmerged]
    have hlater : later.partition = (unmerged.run calls).2.partition := by rw [later, merged]
    obtain ⟨b, c, moved, hok, hstaged, -, hids, -, hrank, -, hclusterOf, -⟩ :=
      processAll_again hsound honce hfirst hunmerged (by simp [calls, Call.isRestore]) hlater hagain .empty
    refine ⟨by decide +kernel, b, c, moved, hok, hstaged, hids, hrank, ?_⟩
    rw [hclusterOf]
    decide +kernel

end Sample

end Visit

end Cospend
