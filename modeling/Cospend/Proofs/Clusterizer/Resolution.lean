import Cospend.Proofs.Clusterizer.Chain
import Cospend.Proofs.Pool.Groups

/-!
# Resolved inputs

A look-up ends the same way and finds the same owner whatever was found before it, so that the order in
which the workers make the look-ups of a transaction does not matter. If all of them succeed then the
addresses found are the owners that the chain tells of.
-/

namespace Cospend

/-! ## Jobs that only add -/

/-- The job puts the same addresses into every set, and ends the same way. -/
structure Job.Additive (j : Job AddressSet LedgerError) : Prop where
  end_eq (found : AddressSet) : (j found).1 = (j ∅).1
  mem_iff {found : AddressSet} {a : Address} : a ∈ (j found).2 ↔ a ∈ found ∨ a ∈ (j ∅).2

/-- What additive jobs found, one after the other, is what they find each for itself. -/
theorem Pool.Ran.mem_iff {ran : List (Task AddressSet LedgerError × JobEnd LedgerError)}
    {found : AddressSet} (h : Ran ∅ ran found) (hjobs : ∀ e ∈ ran, e.1.job.Additive) {a : Address} :
    a ∈ found ↔ ∃ e ∈ ran, a ∈ (e.1.job ∅).2 := by
  induction h with
  | none => simp
  | more h t ih =>
      have ht := hjobs _ (List.mem_append_right _ (List.mem_singleton_self _))
      rw [Job.Additive.mem_iff ht, ih fun e he => hjobs e (List.mem_append_left _ he)]
      simp only [List.mem_append, List.mem_singleton]
      constructor
      · rintro (⟨e, he, hmem⟩ | hmem)
        · exact ⟨e, .inl he, hmem⟩
        · exact ⟨_, .inr rfl, hmem⟩
      · rintro ⟨e, he | rfl, hmem⟩
        · exact .inl ⟨e, he, hmem⟩
        · exact .inr hmem

theorem Pool.Ran.end_eq {ran : List (Task AddressSet LedgerError × JobEnd LedgerError)}
    {found : AddressSet} (h : Ran ∅ ran found) (hjobs : ∀ e ∈ ran, e.1.job.Additive) :
    ∀ e ∈ ran, e.2 = (e.1.job ∅).1 := by
  induction h with
  | none => exact fun e he => by cases he
  | more h t ih =>
      intro e he
      rcases List.mem_append.mp he with he | he
      · exact ih (fun e he => hjobs e (List.mem_append_left _ he)) e he
      · obtain rfl := List.mem_singleton.mp he
        exact (hjobs _ (List.mem_append_right _ (List.mem_singleton_self _))).end_eq _

/-! ## Look-ups -/

namespace Environment

variable {env : Environment} {chain : Chain} {occasion : Occasion} {o : Outpoint}

theorem lookUp_additive (env : Environment) (occasion : Occasion) (o : Outpoint) :
    (env.lookUp occasion o).Additive := by
  unfold lookUp
  cases env.ledger.transaction occasion o.transaction with
  | error e => cases e <;> exact ⟨fun _ => rfl, by simp⟩
  | ok t =>
      cases ho : t.outputs[o.index.toNat]? with
      | none => exact ⟨fun _ => by simp only [ho], by simp [ho]⟩
      | some output =>
          cases ha : output.address with
          | none => exact ⟨fun _ => by simp only [ho, ha], by simp [ho, ha]⟩
          | some a =>
              refine ⟨fun _ => by simp only [ho, ha], fun {found b} => ?_⟩
              simp [ho, ha, or_comm]

/-- A look-up that succeeds finds the owner that the chain tells of. -/
theorem lookUp_done (htells : env.ledger.Tells chain)
    (h : (env.lookUp occasion o ∅).1 = .done) :
    ∃ output, chain.output? o = some output ∧
      ∀ a, a ∈ (env.lookUp occasion o ∅).2 ↔ output.address = some a := by
  unfold lookUp at h ⊢
  cases ht : env.ledger.transaction occasion o.transaction with
  | error e => cases e <;> simp [ht] at h
  | ok t =>
      obtain rfl := htells.transaction ht
      cases ho : (chain.transaction o.transaction).outputs[o.index.toNat]? with
      | none => simp [ht, ho] at h
      | some output =>
          refine ⟨output, ho, fun a => ?_⟩
          cases ha : output.address with
          | none => simp [ho, ha]
          | some b => simp [ho, ha]

theorem lookUp_mild (env : Environment) (occasion : Occasion) (o : Outpoint) :
    (env.lookUp occasion o).Mild := by
  intro found
  unfold lookUp
  split
  · nofun
  · nofun
  · split
    · nofun
    · split <;> nofun

theorem mem_lookUps {height : Height} {place : Nat} {t : Transaction}
    {j : Job AddressSet LedgerError} (hj : j ∈ env.lookUps height place t) :
    ∃ occasion, ∃ o ∈ t.spent, j = env.lookUp occasion o := by
  obtain ⟨k, hk, rfl⟩ := List.mem_mapIdx.mp hj
  exact ⟨_, _, List.mem_map_of_mem (List.getElem_mem hk), rfl⟩

theorem exists_lookUps (env : Environment) (height : Height) (place : Nat) {t : Transaction}
    (ho : o ∈ t.spent) :
    ∃ occasion, env.lookUp occasion o ∈ env.lookUps height place t := by
  obtain ⟨i, hi, rfl⟩ := List.mem_map.mp ho
  obtain ⟨k, hk, rfl⟩ := List.mem_iff_getElem.mp hi
  exact ⟨_, List.mem_mapIdx.mpr ⟨k, hk, rfl⟩⟩

/-- What a group of look-ups gives. The addresses found are those that the look-ups find each for itself,
and there is no error exactly if each for itself succeeds. -/
theorem executeAll_lookUps (env : Environment) (height : Height) (place : Nat) (t : Transaction)
    (clock : Nat) :
    let out := (Pool.start env.workers ∅ clock).executeAll env.schedule (env.lookUps height place t)
    (∀ a, a ∈ out.2.shared ↔ ∃ j ∈ env.lookUps height place t, a ∈ (j ∅).2) ∧
      (out.1 = none ↔ ∀ j ∈ env.lookUps height place t, (j ∅).1 = .done) ∧
      ∀ e, out.1 = some e → ∃ j ∈ env.lookUps height place t, (j ∅).1.error? = some e := by
  intro out
  have hmild : ∀ j ∈ env.lookUps height place t, j.Mild := by
    intro j hj
    obtain ⟨occasion, o, -, rfl⟩ := mem_lookUps hj
    exact env.lookUp_mild occasion o
  obtain ⟨ran, hran, hjobs, hinbox, herror⟩ := Pool.executeAll_start env.schedule env.workers ∅ clock hmild
  have hadditive : ∀ e ∈ ran, e.1.job.Additive := by
    intro e he
    obtain ⟨occasion, o, -, hj⟩ := mem_lookUps (hjobs.mem_iff.mp (List.mem_map_of_mem he))
    rw [hj]
    exact env.lookUp_additive occasion o
  have hmem : ∀ {P : Job AddressSet LedgerError → Prop},
      (∃ e ∈ ran, P e.1.job) ↔ ∃ j ∈ env.lookUps height place t, P j := by
    intro P
    simp only [← hjobs.mem_iff, List.mem_map, exists_exists_and_eq_and]
  have hends : ∀ {P : JobEnd LedgerError → Prop},
      (∃ r ∈ out.2.inbox, P r) ↔ ∃ j ∈ env.lookUps height place t, P (j ∅).1 := by
    intro P
    rw [← hmem (P := fun j => P (j ∅).1)]
    have hinbox : (ran.map Prod.snd).Perm out.2.inbox := hinbox
    simp only [← hinbox.mem_iff, List.mem_map, exists_exists_and_eq_and]
    exact exists_congr fun e => and_congr_right fun he => by rw [hran.end_eq hadditive e he]
  refine ⟨fun a => ?_, ?_, fun e he => ?_⟩
  · rw [hran.mem_iff hadditive]
    exact hmem (P := fun j => a ∈ (j ∅).2)
  · rw [show out.1 = _ from herror, Pool.firstError?_eq_none_iff]
    simpa [not_exists, not_and, not_not] using not_congr (hends (P := fun r => r ≠ .done))
  · rw [show out.1 = _ from herror] at he
    exact hends.mp (List.exists_of_findSome?_eq_some he)

theorem inputAddresses_eq_ok {height : Height} {place : Nat} {t : Transaction} {clock clock' : Nat}
    {as : List Address} (h : env.inputAddresses height place t clock = (.ok as, clock')) :
    (∀ j ∈ env.lookUps height place t, (j ∅).1 = .done) ∧ as.Nodup ∧
      ∀ a, a ∈ as ↔ ∃ j ∈ env.lookUps height place t, a ∈ (j ∅).2 := by
  obtain ⟨hfound, hdone, -⟩ := env.executeAll_lookUps height place t clock
  unfold inputAddresses at h
  simp only at h
  split at h
  · rename_i pool hpool
    cases h
    rw [hpool] at hfound hdone
    refine ⟨hdone.mp rfl, ?_, fun a => ?_⟩
    · refine (env.arrange_perm _).nodup_iff.mpr (Std.ExtTreeSet.distinct_toList.imp fun hne heq => ?_)
      exact hne (Std.LawfulEqCmp.compare_eq_iff_eq.mpr heq)
    · rw [(env.arrange_perm _).mem_iff, Std.ExtTreeSet.mem_toList, hfound]
  · cases h

/-- If the inputs of a transaction are resolved, they are resolved as the chain tells. -/
theorem inputAddresses_tells (htells : env.ledger.Tells chain) {height : Height} {place : Nat}
    {t : Transaction} {clock clock' : Nat} {as : List Address}
    (h : env.inputAddresses height place t clock = (.ok as, clock')) :
    chain.resolves t = true ∧ Address.sort as = chain.funders t := by
  obtain ⟨hdone, hnodup, hmem⟩ := inputAddresses_eq_ok h
  constructor
  · refine List.all_eq_true.mpr fun o ho => ?_
    obtain ⟨occasion, hj⟩ := exists_lookUps env height place ho
    obtain ⟨output, houtput, -⟩ := lookUp_done htells (hdone _ hj)
    rw [houtput]
    rfl
  · refine Chain.sort_eq_funders hnodup fun a => ?_
    rw [hmem, Chain.owners, List.mem_filterMap]
    constructor
    · rintro ⟨j, hj, ha⟩
      obtain ⟨occasion, o, ho, rfl⟩ := mem_lookUps hj
      obtain ⟨output, houtput, hfound⟩ := lookUp_done htells (hdone _ hj)
      exact ⟨o, ho, by rw [houtput]; exact (hfound a).mp ha⟩
    · rintro ⟨o, ho, ha⟩
      obtain ⟨occasion, hj⟩ := exists_lookUps env height place ho
      obtain ⟨output, houtput, hfound⟩ := lookUp_done htells (hdone _ hj)
      rw [houtput] at ha
      exact ⟨_, hj, (hfound a).mpr ha⟩

end Environment

end Cospend
