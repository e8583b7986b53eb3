import Cospend.Proofs.Partition.Loading
import Cospend.Proofs.Partition.Table

/-!
# Partitions are read back

A store that holds the table of a partition is accepted, and loading answers that partition. Conversely
nothing else can be loaded from such a store, whichever of its calls fail: a size too large for its
octets would leave an address whose number is out of range.
-/

namespace Cospend.Partition

variable {s : Store} {p q : Partition}

theorem toNat_ofNat {i : Nat} (hi : i < UInt64.size) : (AddressId.ofNat i).toNat = i := by
  rw [AddressId.toNat, AddressId.ofNat, UInt64.toNat_ofNat']
  exact Nat.mod_eq_of_lt hi

theorem look_table (p : Partition) (v : Variable) : p.table.look v = .ok (p.value? v) := by
  cases hv : p.value? v with
  | none => rw [Table.look_eq_none_iff, getElem?_table, hv, Option.map_none]
  | some a =>
      rw [Table.look_eq_some_iff, getElem?_table, hv, Option.map_some]
      exact ⟨_, rfl, v.decode_encode a⟩

theorem read_table (hf : s.faults = Faults.none) (ht : s.table = q.table) (v : Variable) :
    s.read v = .ok (q.value? v) := by
  rw [Store.read_eq_ok, hf, ht, look_table]
  exact ⟨rfl, rfl⟩

theorem addresses_table (hf : s.faults = Faults.none) (ht : s.table = q.table) :
    ∃ as, s.addresses = .ok as := by
  simp only [Store.addresses_eq_ok, hf, ht, Faults.none, true_and]
  refine exists_mapM_eq_ok fun e he => ?_
  obtain ⟨hk, hlead⟩ := Store.mem_scan_addressLead.mp he
  by_cases hv : ∃ v : Variable, v.key = e.1
  · obtain ⟨v, hv⟩ := hv
    obtain ⟨a, rfl⟩ := Variable.addressLead_isPrefixOf_key (hv ▸ hlead)
    rw [← hv, getElem?_table] at hk
    obtain ⟨id, -, hid⟩ := Option.map_eq_some_iff.mp hk
    refine ⟨(a, id), (Store.addressEntry_eq_ok hlead).mpr ⟨hv.symm, ?_⟩⟩
    rw [← hid]
    exact Variable.decode_encode _ id
  · rw [q.shows_table.elsewhere fun v h => hv ⟨v, h⟩] at hk
    cases hk

theorem Numbered.size_lt_uint64 (hq : q.Numbered) : q.size < UInt64.size :=
  Nat.lt_trans hq.size_lt (by decide)

theorem idsFrom_table (ht : s.table = q.table) (hq : q.Numbered) : IdsFrom s q.ids := by
  intro a i
  have hsize := hq.size_lt_uint64
  simp only [ht, look_table, value?, Except.ok.injEq, Option.map_eq_some_iff]
  constructor
  · intro hi
    exact ⟨_, ⟨i, hi, rfl⟩, toNat_ofNat (Nat.lt_trans (hq.ids_lt hi) hsize)⟩
  · rintro ⟨_, ⟨j, hj, rfl⟩, rfl⟩
    rwa [toNat_ofNat (Nat.lt_trans (hq.ids_lt hj) hsize)]

/-- The octets of the size have room for it. -/
theorem Numbered.toNat_size (hq : q.Numbered) :
    ((q.value? .size : Option UInt64).getD 0).toNat = q.size := by
  by_cases h : q.size = 0
  · simp [value?, h]
  · simp [value?, h, Nat.mod_eq_of_lt hq.size_lt_uint64]

theorem Numbered.loadedFrom (hq : q.Numbered) (hf : s.faults = Faults.none)
    (ht : s.table = q.table) : LoadedFrom q s where
  height := read_table hf ht .height
  size := ⟨_, read_table hf ht .size, hq.toNat_size⟩
  size_lt := hq.size_lt
  sound := hq.toSound
  node i hi := by
    have hsize := hq.size_lt_uint64
    constructor
    · refine ⟨AddressId.ofNat (q.forest.next i), ?_,
        toNat_ofNat (Nat.lt_trans (hq.forest.next_lt hi) hsize)⟩
      rw [Store.expect_eq_ok, read_table hf ht, value?, parent?, Forest.getElem?_parent hi,
        Option.map_some]
    · rw [Store.expect_eq_ok, read_table hf ht, value?, rank?,
        Forest.getElem?_rank (hq.forest.rank_size ▸ hi)]
  addresses := addresses_table hf ht
  ids := idsFrom_table ht hq
  ids_size := hq.ids_size

/-- What was loaded while some calls failed is also loaded while none does. -/
theorem LoadedFrom.faultless (h : LoadedFrom p s) : LoadedFrom p (s.withFaults Faults.none) := by
  have hread : ∀ {v : Variable} {x : Option v.Value}, s.read v = .ok x →
      (s.withFaults Faults.none).read v = .ok x :=
    fun hx => Store.read_eq_ok.mpr ⟨rfl, (Store.read_eq_ok.mp hx).2⟩
  have hexpect : ∀ {v : Variable} {a : v.Value}, s.expect v = .ok a →
      (s.withFaults Faults.none).expect v = .ok a :=
    fun ha => Store.expect_eq_ok.mpr (hread (Store.expect_eq_ok.mp ha))
  obtain ⟨n, hn, hsize⟩ := h.size
  obtain ⟨as, has⟩ := h.addresses
  exact {
    height := hread h.height
    size := ⟨n, hread hn, hsize⟩
    size_lt := h.size_lt
    sound := h.sound
    node := fun i hi =>
      have ⟨id, hid, hnext⟩ := (h.node i hi).parent
      ⟨⟨id, hexpect hid, hnext⟩, hexpect (h.node i hi).rank⟩
    addresses := ⟨as, Store.addresses_eq_ok.mpr ⟨rfl, (Store.addresses_eq_ok.mp has).2⟩⟩
    ids := h.ids
    ids_size := h.ids_size }

theorem LoadedFrom.eq_of_table (h : LoadedFrom p s) (ht : s.table = q.table) (hq : q.Numbered) :
    p = q := by
  have hp := load_eq_ok.mpr h.faultless
  have hq' : load (s.withFaults Faults.none) = .ok q :=
    load_eq_ok.mpr (hq.loadedFrom rfl ht)
  rw [hp] at hq'
  exact Except.ok.inj hq'

theorem Numbered.load_eq (hq : q.Numbered) (ht : s.table = q.table) (hp : load s = .ok p) : p = q :=
  (load_eq_ok.mp hp).eq_of_table ht hq

theorem Numbered.table_inj (hp : p.Numbered) (hq : q.Numbered) (ht : p.table = q.table) : p = q :=
  hq.load_eq (s := ⟨p.table, .none, 0⟩) ht (load_eq_ok.mpr (hp.loadedFrom rfl rfl))

end Cospend.Partition
