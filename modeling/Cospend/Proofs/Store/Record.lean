import Cospend.Partition.Pending
import Cospend.Proofs.Store.Changes
import Cospend.Proofs.Store.Reading

/-!
# The store as a record

Variables that are given values and written together read afterwards as the last value each of them
was given, and all others as before. The scan of addresses finds each address once, with the last
number it was given.
-/

namespace Cospend

/-- A variable and a value that it is given. -/
abbrev Setting := (v : Variable) × v.Value

namespace Setting

def change (e : Setting) : Change := .set e.1.key (e.1.encode e.2)

/-- The last value that a variable is given, if it is given any. -/
def last (v : Variable) : List Setting → Option v.Value
  | [] => none
  | ⟨w, x⟩ :: es => (last v es).or (if h : w = v then some (h ▸ x) else none)

theorem last_eq_none_iff {v : Variable} {es : List Setting} :
    last v es = none ↔ ∀ e ∈ es, e.1 ≠ v := by
  induction es with
  | nil => simp [last]
  | cons e es ih =>
      rw [last, Option.or_eq_none_iff, ih, List.forall_mem_cons, and_comm]
      by_cases h : e.1 = v <;> simp [h]

end Setting

/-- The batch with variables given values, one after the other. -/
def Pending.stageAll {β : Type} [WriteBatch β] (es : List Setting) (b : Pending β) : Pending β :=
  es.foldl (fun b e => b.stage e.1 e.2) b

theorem Pending.writes_stageAll {β : Type} [WriteBatch β] (es : List Setting) :
    (stageAll es (empty : Pending β)).writes = WriteBatch.ofChanges (es.map Setting.change) := by
  induction es using List.reverseRecOn with
  | nil => rfl
  | append_singleton es e ih =>
      rw [List.map_append, List.map_singleton, WriteBatch.ofChanges_concat, ← ih, stageAll,
        List.foldl_append]
      rfl

namespace Table

variable {t : Table} {es : List Setting}

/-- The table after variables were given values. -/
def give (t : Table) (es : List Setting) : Table := t.changeAll (es.map Setting.change)

theorem getElem?_give (v : Variable) :
    (t.give es)[v.key]? = ((Setting.last v es).map v.encode).or t[v.key]? := by
  induction es generalizing t with
  | nil => rfl
  | cons e es ih =>
      obtain ⟨w, x⟩ := e
      refine (ih (t := t.insert w.key (w.encode x))).trans ?_
      cases hlast : Setting.last v es with
      | some y => simp only [Setting.last, hlast, Option.some_or, Option.map_some]
      | none =>
          simp only [Setting.last, hlast, Option.none_or, Option.map_none]
          by_cases h : w = v
          · subst h
            simp only [↓reduceDIte, Option.map_some, Option.some_or]
            exact getElem?_insert_eq
          · simp only [h, ↓reduceDIte, Option.map_none, Option.none_or]
            exact getElem?_insert_ne (mt Variable.key_inj.mp h)

theorem getElem?_give_of_not_mem {k : Bytes} (h : ∀ e ∈ es, e.1.key ≠ k) :
    (t.give es)[k]? = t[k]? := by
  refine getElem?_changeAll_of_not_mem fun c hc => ?_
  obtain ⟨e, he, rfl⟩ := List.mem_map.mp hc
  exact h e he

theorem look_give (v : Variable) :
    (t.give es).look v = match Setting.last v es with
      | some x => .ok (some x)
      | none => t.look v := by
  unfold look
  rw [getElem?_give]
  cases Setting.last v es with
  | none => simp only [Option.map_none, Option.none_or]
  | some x =>
      simp only [Option.map_some, Option.some_or, Variable.decode_encode]
      rfl

end Table

namespace Store

variable {t : Table} {n : Nat} {es : List Setting}

theorem expect_give (t : Table) (es : List Setting) (n n' : Nat) (v : Variable) :
    (⟨t.give es, .none, n'⟩ : Store).expect v = match Setting.last v es with
      | some x => .ok x
      | none => (⟨t, .none, n⟩ : Store).expect v := by
  rw [expect, show (⟨t.give es, .none, n'⟩ : Store).read v = _ from Table.look_give v]
  cases Setting.last v es with
  | none => rfl
  | some x => rfl

theorem nodup_addresses {s : Store} {as : List (Address × AddressId)} (h : s.addresses = .ok as) :
    (as.map Prod.fst).Nodup := by
  have hkeys : (s.table.scan Variable.addressLead).map Prod.fst =
      (as.map Prod.fst).map fun a => (Variable.addressId a).key := by
    rw [List.map_map]
    refine map_eq_of_mapM_eq_ok (addresses_eq_ok.mp h).2 fun e he p hp => ?_
    exact ((addressEntry_eq_ok (mem_scan_addressLead.mp he).2).mp hp).1
  have hsorted : Table.Sorted (s.table.scan Variable.addressLead) := by
    rw [Table.scan_eq_filter]
    exact s.table.sorted_toList.filter _
  have hnodup : ((s.table.scan Variable.addressLead).map Prod.fst).Nodup :=
    List.pairwise_map.mpr (hsorted.imp fun hlt he => by simp [he] at hlt)
  rw [hkeys] at hnodup
  exact hnodup.of_map _

/-- The scan still succeeds, because the addresses that were given numbers can be read. -/
theorem exists_addresses_give {old : List (Address × AddressId)}
    (h : (⟨t, .none, n⟩ : Store).addresses = .ok old) (es : List Setting) (n' : Nat) :
    ∃ as, (⟨t.give es, .none, n'⟩ : Store).addresses = .ok as := by
  have hentry : ∀ e ∈ (t.give es).scan Variable.addressLead, ∃ p, addressEntry e = .ok p := by
    intro e he
    obtain ⟨hk, hlead⟩ := mem_scan_addressLead.mp he
    by_cases hgiven : ∃ g ∈ es, g.1.key = e.1
    · obtain ⟨⟨v, x⟩, hg, hkey⟩ := hgiven
      obtain ⟨a, rfl⟩ := Variable.addressLead_isPrefixOf_key (hkey ▸ hlead)
      cases hlast : Setting.last (.addressId a) es with
      | none => exact absurd rfl (Setting.last_eq_none_iff.mp hlast _ hg)
      | some id =>
          rw [← hkey, Table.getElem?_give, hlast] at hk
          have hdecode : (Variable.addressId a).decode e.2 = .ok id :=
            Option.some.inj hk ▸ Variable.decode_encode (.addressId a) id
          exact ⟨(a, id), (addressEntry_eq_ok hlead).mpr ⟨hkey.symm, hdecode⟩⟩
    · rw [Table.getElem?_give_of_not_mem fun g hg he => hgiven ⟨g, hg, he⟩] at hk
      exact exists_of_mapM_eq_ok (addresses_eq_ok.mp h).2 (mem_scan_addressLead.mpr ⟨hk, hlead⟩)
  obtain ⟨as, has⟩ := exists_mapM_eq_ok hentry
  exact ⟨as, addresses_eq_ok.mpr ⟨rfl, has⟩⟩

theorem mem_addresses_give {n' : Nat} {old as : List (Address × AddressId)}
    (hold : (⟨t, .none, n⟩ : Store).addresses = .ok old)
    (h : (⟨t.give es, .none, n'⟩ : Store).addresses = .ok as) (a : Address) (id : AddressId) :
    (a, id) ∈ as ↔ match Setting.last (.addressId a) es with
      | some x => id = x
      | none => (a, id) ∈ old := by
  rw [mem_addresses h, mem_addresses hold, Table.look_give]
  cases Setting.last (.addressId a) es with
  | none => exact Iff.rfl
  | some x => exact ⟨fun h => (Option.some.inj (Except.ok.inj h)).symm, fun h => h ▸ rfl⟩

/-- Variables given values and written together read as the last value each of them was given, and
all others as before. -/
theorem write_settings {β : Type} [WriteBatch β] [LawfulBatch β] (t : Table) (n : Nat)
    (es : List Setting) :
    let s : Store := ⟨t, .none, n⟩
    ∃ s', s.write (Pending.stageAll es (.empty : Pending β)).writes = (.ok (), s') ∧
      (∀ v, s'.read v = match Setting.last v es with
        | some x => .ok (some x)
        | none => s.read v) ∧
      (∀ v, s'.expect v = match Setting.last v es with
        | some x => .ok x
        | none => s.expect v) ∧
      (∀ old, s.addresses = .ok old → ∃ as, s'.addresses = .ok as ∧ (as.map Prod.fst).Nodup ∧
        ∀ a id, (a, id) ∈ as ↔ match Setting.last (.addressId a) es with
          | some x => id = x
          | none => (a, id) ∈ old) ∧
      ∀ v w : Variable, v.key = w.key → v = w := by
  intro s
  have hwrite : s.write (Pending.stageAll es (.empty : Pending β)).writes =
      (.ok (), ⟨t.give es, .none, n + 1⟩) := by
    rw [Pending.writes_stageAll]
    exact write_of_lawful t n _
  refine ⟨⟨t.give es, .none, n + 1⟩, hwrite, Table.look_give, expect_give t es n (n + 1),
    fun old hold => ?_, fun v w => Variable.key_inj.mp⟩
  obtain ⟨as, has⟩ := exists_addresses_give hold es (n + 1)
  exact ⟨as, has, nodup_addresses has, mem_addresses_give hold has⟩

/-- The empty address is given two numbers, and the store holds a parent that cannot be read. -/
theorem write_settings_empty_address :
    let s : Store := ⟨Table.changeAll ∅ [.set (Variable.parent 9).key [0]], .none, 0⟩
    let es : List Setting :=
      [⟨.addressId ⟨""⟩, .ofNat 1⟩, ⟨.height, { toInt := -1 }⟩,
        ⟨.addressId ⟨"addr"⟩, .ofNat 0xFFFFFFFFFFFFFFFF⟩, ⟨.parent 1, .ofNat 7⟩,
        ⟨.addressId ⟨""⟩, .ofNat 2⟩, ⟨.parent 11, .ofNat 8⟩, ⟨.parent 1, .ofNat 9⟩]
    s.addresses = .ok [] ∧
      ∃ s', s.write (Pending.stageAll es (.empty : Pending Journal)).writes = (.ok (), s') ∧
        s'.read .height = .ok (some { toInt := -1 }) ∧ s'.expect (.parent 1) = .ok (.ofNat 9) ∧
        s'.expect (.rank 1) = .error (.missing (.rank 1)) ∧
        s'.read (.parent 9) = s.read (.parent 9) ∧
        ∃ as, s'.addresses = .ok as ∧ (as.map Prod.fst).Nodup ∧
          ((⟨""⟩, .ofNat 2) ∈ as ∧ (⟨""⟩, .ofNat 1) ∉ as) ∧ ∀ id, (⟨"a"⟩, id) ∉ as := by
  intro s es
  have hnone : s.addresses = .ok [] := by rfl
  obtain ⟨s', hwrite, hread, hexpect, haddresses, -⟩ := write_settings (β := Journal) s.table 0 es
  obtain ⟨as, has, hnodup, hmem⟩ := haddresses [] hnone
  refine ⟨hnone, s', hwrite, hread _, hexpect _, hexpect _, hread _, as, has, hnodup, ?_, ?_⟩
  · have hlast : AddressId.ofNat 1 ≠ .ofNat 2 := by decide
    exact ⟨(hmem _ _).mpr rfl, fun h => hlast ((hmem _ _).mp h)⟩
  · exact fun id h => absurd ((hmem _ _).mp h) List.not_mem_nil

end Store

end Cospend
