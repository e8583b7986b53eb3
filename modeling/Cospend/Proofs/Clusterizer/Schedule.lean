import Cospend.Proofs.Clusterizer.Durable
import Cospend.Proofs.Clusterizer.Work

/-!
# Schedules do not matter

The addresses that fund a transaction are found in any order, by any number of workers, and are put in
order before anything is done with them. So what a transaction does is decided by the ledger: either all of
its inputs are resolved, and then the partition and the batch become the same under every schedule, or one
is not, and then every schedule ends in an error before anything was done.
-/

namespace Cospend

/-- The ledger tells of every output that a transaction spends, when it is asked for it. -/
def Ledger.Resolves (l : Ledger) (height : Height) (place : Nat) (t : Transaction) : Prop :=
  ∀ k o, t.spent[k]? = some o → ∃ u, l.transaction ⟨height, place, some k⟩ o.transaction = .ok u ∧
    o.index.toNat < u.outputs.length

namespace Environment

variable {env env' : Environment} {height : Height} {place : Nat} {t : Transaction}

theorem lookUps_congr (h : env'.ledger = env.ledger) (height : Height) (place : Nat) (t : Transaction) :
    env'.lookUps height place t = env.lookUps height place t := by
  have hlookUp : env'.lookUp = env.lookUp := by
    funext occasion o found
    simp only [lookUp, h]
  simp only [lookUps, hlookUp]

theorem lookUp_done_iff {occasion : Occasion} {o : Outpoint} :
    (env.lookUp occasion o ∅).1 = .done ↔ ∃ u, env.ledger.transaction occasion o.transaction = .ok u ∧
      o.index.toNat < u.outputs.length := by
  unfold lookUp
  cases env.ledger.transaction occasion o.transaction with
  | error e => cases e <;> simp
  | ok u =>
      cases ho : u.outputs[o.index.toNat]? with
      | none => simpa [ho] using List.getElem?_eq_none_iff.mp ho
      | some output =>
          obtain ⟨hlt, -⟩ := List.getElem?_eq_some_iff.mp ho
          refine iff_of_true ?_ ⟨u, rfl, hlt⟩
          simp only [ho]
          cases output.address <;> rfl

theorem resolves_iff : env.ledger.Resolves height place t ↔
    ∀ j ∈ env.lookUps height place t, (j ∅).1 = .done := by
  constructor
  · intro h j hj
    obtain ⟨k, hk, rfl⟩ := List.mem_mapIdx.mp hj
    refine lookUp_done_iff.mpr (h k _ ?_)
    rw [Transaction.spent, List.getElem?_map, List.getElem?_eq_getElem hk]
    rfl
  · intro h k o ho
    obtain ⟨i, hi, rfl⟩ := Option.map_eq_some_iff.mp ((List.getElem?_map ..).symm.trans ho)
    obtain ⟨hk, rfl⟩ := List.getElem?_eq_some_iff.mp hi
    exact lookUp_done_iff.mp (h _ (List.mem_mapIdx.mpr ⟨k, hk, rfl⟩))

theorem inputAddresses_of_resolves (h : env.ledger.Resolves height place t) (clock : Nat) :
    ∃ as clock', env.inputAddresses height place t clock = (.ok as, clock') := by
  obtain ⟨-, hdone, -⟩ := env.executeAll_lookUps height place t clock
  have hnone := hdone.mpr (resolves_iff.mp h)
  unfold inputAddresses
  simp only
  split
  · exact ⟨_, _, rfl⟩
  · rename_i he
    rw [he] at hnone
    cases hnone

theorem inputAddresses_of_not_resolves (h : ¬ env.ledger.Resolves height place t) (clock : Nat) :
    ∃ e clock', env.inputAddresses height place t clock = (.error e, clock') ∧
      ∃ j ∈ env.lookUps height place t, (j ∅).1.error? = some e := by
  obtain ⟨-, hdone, herror⟩ := env.executeAll_lookUps height place t clock
  unfold inputAddresses
  simp only
  split
  · rename_i hnone
    refine absurd (resolves_iff.mpr (hdone.mp ?_)) h
    rw [hnone]
  · rename_i e pool he
    refine ⟨e, pool.clock, rfl, herror e ?_⟩
    rw [he]

end Environment

namespace Clusterizer

variable {β α γ : Type} [WriteBatch β] {env env' : Environment} {height : Height} {place : Nat}
variable {id : Digest} {t : Transaction}

/-! ## One transaction -/

omit [WriteBatch β] in
theorem listed_of_ok (ht : env.ledger.transaction ⟨height, place, none⟩ id = .ok t)
    (c : Clusterizer β) : listed env height place id c = (.ok t, c) := by
  unfold listed
  rw [ht]

omit [WriteBatch β] in
theorem work_clock {α : Type} (x : Work β α) (b : Pending β) (c : Clusterizer β) (clock : Nat) :
    work x b { c with clock } = ((work x b c).1, { (work x b c).2 with clock }) := by
  unfold work
  simp only
  rcases x ⟨c.partition, b⟩ with ⟨_ | _, _⟩ <;> rfl

omit [WriteBatch β] in
theorem work_ne_worker {α : Type} (x : Work β α) (b : Pending β) (c : Clusterizer β)
    (e : WorkerError LedgerError) : (work x b c).1 ≠ .error (.error (.worker e)) := by
  unfold work
  rcases x ⟨c.partition, b⟩ with ⟨(_ | _) | _, _⟩ <;> simp [Failure.map]

/-- Under every schedule the same addresses are put into one cluster. -/
theorem processTransaction_of_resolves {l : Ledger}
    (ht : l.transaction ⟨height, place, none⟩ id = .ok t) (h : l.Resolves height place t) :
    ∃ as, ∀ env : Environment, env.ledger = l → ∀ (b : Pending β) (c : Clusterizer β), ∃ clock,
      processTransaction env height place id b c = work (Workspace.cospend as) b { c with clock } := by
  have hsequential : (Environment.sequential l 1).ledger.Resolves height place t := h
  obtain ⟨as₀, clock₀, h₀⟩ := Environment.inputAddresses_of_resolves hsequential 0
  obtain ⟨-, hnodup₀, hmem₀⟩ := Environment.inputAddresses_eq_ok h₀
  refine ⟨Address.sort as₀, fun env hl b c => ?_⟩
  subst hl
  obtain ⟨as, clock, hfound⟩ := Environment.inputAddresses_of_resolves h c.clock
  obtain ⟨-, hnodup, hmem⟩ := Environment.inputAddresses_eq_ok hfound
  have hsort : Address.sort as = Address.sort as₀ := by
    have hsame : (Environment.sequential env.ledger 1).lookUps height place t =
        env.lookUps height place t := Environment.lookUps_congr rfl height place t
    refine Address.sort_eq_of_perm ((List.perm_ext_iff_of_nodup hnodup hnodup₀).mpr fun a => ?_)
    rw [hmem, hmem₀, hsame]
  have hfunders : funders env height place t c = (.ok as, { c with clock }) := by
    simp only [funders, hfound]
  refine ⟨clock, ?_⟩
  rw [processTransaction, bind_of_ok (listed_of_ok ht c), bind_of_ok hfunders, hsort]

/-- Under every schedule the work is not begun. -/
theorem processTransaction_of_not_resolves
    (ht : env.ledger.transaction ⟨height, place, none⟩ id = .ok t)
    (h : ¬ env.ledger.Resolves height place t) (c : Clusterizer β) :
    ∃ e clock, (∃ j ∈ env.lookUps height place t, (j ∅).1.error? = some e) ∧
      ∀ b, processTransaction env height place id b c = (.error (.error (.worker e)), { c with clock }) := by
  obtain ⟨e, clock, hfound, herror⟩ := Environment.inputAddresses_of_not_resolves h c.clock
  have hfunders : funders env height place t c = (.error (.error (.worker e)), { c with clock }) := by
    simp only [funders, hfound]
  refine ⟨e, clock, herror, fun b => ?_⟩
  rw [processTransaction, bind_of_ok (listed_of_ok ht c), bind_of_error hfunders]

/-! ## Whole blocks -/

/-- The clusterizers differ at most in what was logged and in how often workers moved. -/
def Tied (c d : Clusterizer β) : Prop := ∃ log clock, d = { c with log, clock }

/-- The answers are the same, or both are errors of inputs. -/
inductive Agree : Except (Failure ClusterizerError) α → Except (Failure ClusterizerError) α → Prop
  | same (r : Except (Failure ClusterizerError) α) : Agree r r
  | inputs (e e' : WorkerError LedgerError) :
      Agree (.error (.error (.worker e))) (.error (.error (.worker e')))

/-- The actions agree wherever they start from the same, and lead to the same. -/
def Independent (x y : Action β α) : Prop :=
  ∀ c d, Tied c d → Agree (x c).1 (y d).1 ∧ Tied (x c).2 (y d).2

section Independent

omit [WriteBatch β]

theorem Tied.clock {c d : Clusterizer β} (h : Tied c d) (m n : Nat) :
    Tied { c with clock := m } { d with clock := n } := by
  obtain ⟨log, clock, rfl⟩ := h
  exact ⟨log, n, rfl⟩

theorem Independent.bind {x y : Action β α} {f g : α → Action β γ} (h : Independent x y)
    (hf : ∀ a, Independent (f a) (g a)) : Independent (x >>= f) (y >>= g) := by
  intro c d hcd
  obtain ⟨hagree, htied⟩ := h c d hcd
  rcases hx : x c with ⟨r, c'⟩
  rcases hy : y d with ⟨r', d'⟩
  rw [hx, hy] at hagree htied
  cases hagree with
  | inputs e e' =>
      rw [bind_of_error hx, bind_of_error hy]
      exact ⟨.inputs e e', htied⟩
  | same =>
      cases r with
      | error e =>
          rw [bind_of_error hx, bind_of_error hy]
          exact ⟨.same _, htied⟩
      | ok a =>
          rw [bind_of_ok hx, bind_of_ok hy]
          exact hf a c' d' htied

theorem Independent.logging {x y : Action β α} (h : Independent x y) (what : String) :
    Independent (logging what x) (logging what y) := by
  intro c d hcd
  obtain ⟨hagree, htied⟩ := h c d hcd
  unfold Clusterizer.logging
  rcases hx : x c with ⟨r, c'⟩
  rcases hy : y d with ⟨r', d'⟩
  rw [hx, hy] at hagree htied
  obtain ⟨log, clock, rfl⟩ := htied
  cases hagree with
  | inputs e e' => exact ⟨.inputs e e', _, clock, rfl⟩
  | same => rcases r with (_ | _) | _ <;> exact ⟨.same _, _, clock, rfl⟩

theorem independent_pure (a : α) : Independent (pure a : Action β α) (pure a) :=
  fun _ _ h => ⟨.same _, h⟩

theorem independent_asked (what : String) (answer : Except LedgerError α) :
    Independent (asked what answer : Action β α) (asked what answer) := by
  rintro c _ ⟨log, clock, rfl⟩
  cases answer <;> exact ⟨.same _, _, clock, rfl⟩

theorem independent_publish (e : Event) :
    Independent (publish e : Action β Unit) (publish e) := by
  rintro c _ ⟨log, clock, rfl⟩
  exact ⟨.same _, log, clock, rfl⟩

theorem independent_work (x : Work β α) (b : Pending β) : Independent (work x b) (work x b) := by
  rintro c _ ⟨log, clock, rfl⟩
  unfold work
  simp only
  rcases x ⟨c.partition, b⟩ with ⟨_ | _, _⟩ <;> exact ⟨.same _, log, clock, rfl⟩

end Independent

theorem independent_processTransaction (hledger : env'.ledger = env.ledger) (height : Height)
    (place : Nat) (id : Digest) (b : Pending β) :
    Independent (processTransaction env height place id b)
      (processTransaction env' height place id b) := by
  intro c d hcd
  cases ht : env.ledger.transaction ⟨height, place, none⟩ id with
  | error e =>
      have hlisted : ∀ {env : Environment} (c : Clusterizer β),
          env.ledger.transaction ⟨height, place, none⟩ id = .error e →
            listed env height place id c = (.error (e.map .ledger), c) := by
        intro env c ht
        simp only [listed, ht]
      rw [processTransaction, processTransaction, bind_of_error (hlisted c ht),
        bind_of_error (hlisted d (hledger ▸ ht))]
      exact ⟨.same _, hcd⟩
  | ok t =>
      by_cases hres : env.ledger.Resolves height place t
      · obtain ⟨as, hwork⟩ := processTransaction_of_resolves (β := β) ht hres
        obtain ⟨m, hm⟩ := hwork env rfl b c
        obtain ⟨n, hn⟩ := hwork env' hledger b d
        rw [hm, hn]
        exact independent_work _ b _ _ (hcd.clock m n)
      · obtain ⟨e, m, -, hm⟩ := processTransaction_of_not_resolves ht hres c
        rw [← hledger] at ht hres
        obtain ⟨e', n, -, hn⟩ := processTransaction_of_not_resolves ht hres d
        rw [hm, hn]
        exact ⟨.inputs e e', hcd.clock m n⟩

theorem independent_processTransactions (hledger : env'.ledger = env.ledger) (height : Height)
    (place : Nat) (ids : List Digest) (b : Pending β) :
    Independent (processTransactions env height place ids b)
      (processTransactions env' height place ids b) := by
  induction ids generalizing place b with
  | nil => exact independent_pure b
  | cons id ids ih =>
      exact ((independent_processTransaction hledger height place id b).logging _).bind fun b' =>
        ih (place + 1) b'

theorem independent_processBlock (hledger : env'.ledger = env.ledger) (height : Height) :
    Independent (processBlock env height : Action β Unit) (processBlock env' height) := by
  unfold processBlock
  rw [hledger]
  refine (independent_asked _ _).bind fun block => (independent_publish _).bind fun _ =>
    (independent_processTransactions hledger height 0 _ _).bind fun b => ?_
  rintro c _ ⟨log, clock, rfl⟩
  exact ⟨.same _, log, clock, rfl⟩

/-- Take any two ways in which workers and sets may behave over the same ledger. If all inputs of a
transaction are resolved then both leave the same partition and answer the same batch; otherwise each ends
in the error of some input, with the partition as it was and before anything was staged, whatever the batch
was. So a block is processed in both with the same answer, unless both end in errors of inputs, and leaves
the same partition, the same batch and the same events. -/
theorem processBlock_scheduled (hledger : env'.ledger = env.ledger) (height : Height)
    (c : Clusterizer β) :
    (∀ place id t, env.ledger.transaction ⟨height, place, none⟩ id = .ok t →
      (env.ledger.Resolves height place t → ∀ b,
        let out := processTransaction env height place id b c
        let out' := processTransaction env' height place id b c
        (∀ e, out.1 ≠ .error (.error (.worker e))) ∧ out'.1 = out.1 ∧
          ∃ clock, out'.2 = { out.2 with clock }) ∧
      (¬ env.ledger.Resolves height place t → ∃ e clock,
        (∃ j ∈ env.lookUps height place t, (j ∅).1.error? = some e) ∧
        ∀ b, processTransaction env height place id b c =
          (.error (.error (.worker e)), { c with clock }))) ∧
    Agree (processBlock env height c).1 (processBlock env' height c).1 ∧
      Tied (processBlock env height c).2 (processBlock env' height c).2 := by
  refine ⟨fun place id t ht => ⟨fun hres b => ?_, fun hres => ?_⟩, ?_⟩
  · intro out out'
    obtain ⟨as, hwork⟩ := processTransaction_of_resolves (β := β) ht hres
    obtain ⟨m, hm⟩ := hwork env rfl b c
    obtain ⟨n, hn⟩ := hwork env' hledger b c
    rw [work_clock] at hm hn
    simp only [out, out', hm, hn, true_and]
    exact ⟨fun e => work_ne_worker _ b c e, n, rfl⟩
  · exact processTransaction_of_not_resolves ht hres c
  · exact independent_processBlock hledger height c c ⟨c.log, c.clock, rfl⟩

open Sample in
/-- Five workers in other turns, and sets that come out the other way round. -/
theorem processBlock_scheduled_reversed :
    let env' : Environment := ⟨Sample.env.ledger, 5, fun n => 7 * n, List.reverse, List.reverse_perm⟩
    let c := (started ∅).2
    let out := processTransaction Sample.env .genesis 0 spending .empty c
    let out' := processTransaction env' .genesis 0 spending .empty c
    Sample.env.ledger.Resolves .genesis 0 (sample.transaction spending) ∧
      Sample.env.inputAddresses .genesis 0 (sample.transaction spending) 0 ≠
        env'.inputAddresses .genesis 0 (sample.transaction spending) 0 ∧
      out'.1 = out.1 ∧ out'.2.partition = out.2.partition ∧
      Agree (processBlock Sample.env .genesis c).1 (processBlock env' .genesis c).1 := by
  intro env' c out out'
  have hres : Sample.env.ledger.Resolves .genesis 0 (sample.transaction spending) :=
    Environment.resolves_iff.mpr (by decide +kernel)
  have hledger : env'.ledger = Sample.env.ledger := rfl
  obtain ⟨htransaction, hagree, -⟩ := processBlock_scheduled hledger .genesis c
  obtain ⟨hresolved, -⟩ := htransaction 0 spending (sample.transaction spending) rfl
  obtain ⟨-, hanswer, clock, hleft⟩ := hresolved hres .empty
  exact ⟨hres, by decide +kernel, hanswer, by rw [hleft], hagree⟩

end Clusterizer

end Cospend
