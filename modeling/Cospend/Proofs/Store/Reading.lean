import Cospend.Proofs.Failure
import Cospend.Proofs.Store.Scan
import Cospend.Proofs.Store.Variable
import Cospend.Store.Typed

/-!
# What is read from a store

Reading succeeds if the store does not fail and the table holds octets of a value. `Table.look` is
what a table alone says of a variable.
-/

namespace Cospend

/-- What a table holds for a variable. -/
def Table.look (t : Table) (v : Variable) : Except ReadError (Option v.Value) :=
  match t[v.key]? with
  | none => return none
  | some bs => return some (← v.decode bs)

theorem Table.look_eq_none_iff {t : Table} {v : Variable} :
    t.look v = .ok none ↔ t[v.key]? = none := by
  unfold look
  cases t[v.key]? with
  | none => simp only [pure_eq_ok]
  | some bs => simp only [bind_eq_ok, pure_eq_ok, reduceCtorEq, and_false, exists_false]

theorem Table.look_eq_some_iff {t : Table} {v : Variable} {a : v.Value} :
    t.look v = .ok (some a) ↔ ∃ bs, t[v.key]? = some bs ∧ v.decode bs = .ok a := by
  unfold look
  cases t[v.key]? with
  | none => simp only [pure_eq_ok, reduceCtorEq, false_and, exists_false]
  | some bs =>
      simp only [bind_eq_ok, pure_eq_ok, Option.some.injEq, exists_eq_right, exists_eq_left']

namespace Store

variable {s : Store} {v : Variable}

theorem reading_eq_ok {α : Type} {x : Except StoreError α} {a : α} :
    reading x = .ok a ↔ x = .ok a := by
  cases x with
  | error e => constructor <;> intro h <;> cases h
  | ok b => exact ⟨fun h => by cases h; rfl, fun h => by cases h; rfl⟩

theorem guard_eq_ok {failure : Option String} {u : Unit} : guard failure = .ok u ↔ failure = none := by
  cases failure with
  | none => simp [guard]
  | some reason => simp [guard]

theorem get_eq_ok {k : Bytes} {x : Option Bytes} :
    s.get k = .ok x ↔ s.faults.get k = none ∧ s.table[k]? = x := by
  rw [get, bind_eq_ok]
  simp only [guard_eq_ok, pure_eq_ok]
  exact ⟨fun ⟨_, h, hx⟩ => ⟨h, hx⟩, fun ⟨h, hx⟩ => ⟨(), h, hx⟩⟩

theorem scan_eq_ok {lead : Bytes} {es : List (Bytes × Bytes)} :
    s.scan lead = .ok es ↔ s.faults.scan lead = none ∧ s.table.scan lead = es := by
  rw [scan, bind_eq_ok]
  simp only [guard_eq_ok, pure_eq_ok]
  exact ⟨fun ⟨_, h, hx⟩ => ⟨h, hx⟩, fun ⟨h, hx⟩ => ⟨(), h, hx⟩⟩

theorem read_eq_ok {x : Option v.Value} :
    s.read v = .ok x ↔ s.faults.get v.key = none ∧ s.table.look v = .ok x := by
  simp only [read, bind_eq_ok, reading_eq_ok, get_eq_ok]
  constructor
  · rintro ⟨_, ⟨hf, rfl⟩, h⟩
    exact ⟨hf, h⟩
  · rintro ⟨hf, h⟩
    exact ⟨_, ⟨hf, rfl⟩, h⟩

theorem expect_eq_ok {a : v.Value} : s.expect v = .ok a ↔ s.read v = .ok (some a) := by
  rw [expect, bind_eq_ok]
  constructor
  · rintro ⟨x, hx, h⟩
    cases x with
    | none => cases h
    | some b => cases h; exact hx
  · exact fun h => ⟨some a, h, rfl⟩

/-! ## Addresses -/

theorem addressEntry_eq_ok {e : Bytes × Bytes} (he : Variable.addressLead.isPrefixOf e.1 = true)
    {a : Address} {id : AddressId} :
    addressEntry e = .ok (a, id) ↔
      e.1 = (Variable.addressId a).key ∧ (Variable.addressId a).decode e.2 = .ok id := by
  obtain ⟨k, bs⟩ := e
  obtain ⟨rest, rfl⟩ := List.isPrefixOf_iff_prefix.mp he
  simp only [addressEntry, List.drop_left, Variable.key_addressId, List.append_cancel_left_eq]
  constructor
  · intro h
    split at h
    · cases h
    · rename_i text htext
      obtain ⟨id', hid, h⟩ := bind_eq_ok.mp h
      cases h
      exact ⟨(Utf8.decode_eq_ok_iff.mp htext).symm, hid⟩
  · rintro ⟨rfl, hid⟩
    rw [Utf8.decode_eq_ok_iff.mpr rfl]
    exact bind_eq_ok.mpr ⟨id, hid, rfl⟩

theorem addresses_eq_ok {as : List (Address × AddressId)} :
    s.addresses = .ok as ↔ s.faults.scan Variable.addressLead = none ∧
      (s.table.scan Variable.addressLead).mapM addressEntry = .ok as := by
  simp only [addresses, bind_eq_ok, reading_eq_ok, scan_eq_ok]
  exact ⟨fun ⟨_, ⟨hf, he⟩, h⟩ => ⟨hf, he ▸ h⟩, fun ⟨hf, h⟩ => ⟨_, ⟨hf, rfl⟩, h⟩⟩

theorem mem_scan_addressLead {t : Table} {e : Bytes × Bytes} :
    e ∈ t.scan Variable.addressLead ↔
      t[e.1]? = some e.2 ∧ Variable.addressLead.isPrefixOf e.1 = true := by
  rw [Table.mem_scan, List.isPrefixOf_iff_prefix]

/-- The addresses read are those that the table holds a number for. -/
theorem mem_addresses {as : List (Address × AddressId)} (h : s.addresses = .ok as) {a : Address}
    {id : AddressId} : (a, id) ∈ as ↔ s.table.look (.addressId a) = .ok (some id) := by
  rw [mem_of_mapM_eq_ok (addresses_eq_ok.mp h).2, Table.look_eq_some_iff]
  constructor
  · rintro ⟨⟨k, bs⟩, hmem, he⟩
    obtain ⟨hk, hlead⟩ := mem_scan_addressLead.mp hmem
    obtain ⟨rfl, hid⟩ := (addressEntry_eq_ok hlead).mp he
    exact ⟨bs, hk, hid⟩
  · rintro ⟨bs, hk, hid⟩
    have hlead := Variable.isPrefixOf_key_addressId a
    exact ⟨(_, bs), mem_scan_addressLead.mpr ⟨hk, hlead⟩, (addressEntry_eq_ok hlead).mpr ⟨rfl, hid⟩⟩

end Store

end Cospend
