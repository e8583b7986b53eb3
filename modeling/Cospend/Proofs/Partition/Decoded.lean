import Cospend.Proofs.Partition.Stored
import Cospend.Proofs.Store.Numbers

/-!
# Partitions read off a table

A store holds a partition if the partition has the values that the table says, every value that is read
is readable, and the partition is sound and has as many addresses as numbers. The conditions on the table
are about single entries, so that an entry can be put into it without a look at the others.
-/

namespace Cospend

/-- No read that loading makes fails. -/
structure Store.Answers (s : Store) : Prop where
  height : s.faults.get Variable.height.key = none
  size : s.faults.get Variable.size.key = none
  parent : ∀ i < s.table.count, s.faults.get (Variable.parent i).key = none
  rank : ∀ i < s.table.count, s.faults.get (Variable.rank i).key = none
  addresses : s.faults.scan Variable.addressLead = none

/-- The height and the size are readable if there are any, and every key that begins as those of addresses
do is the key of an address that has a readable number. -/
structure Table.Readable (t : Table) : Prop where
  height : ∀ bs, t[Variable.height.key]? = some bs → ∃ h, bs.height? = some h
  size : ∀ bs, t[Variable.size.key]? = some bs → ∃ n, bs.number? = some n
  address : ∀ k bs, t[k]? = some bs → Variable.addressLead.isPrefixOf k = true →
    ∃ a, k = (Variable.addressId a).key ∧ ∃ n, bs.number? = some n

/-- The partition has the values that the table holds. -/
structure Table.Decoded (t : Table) (p : Partition) : Prop where
  height : t.height? = p.height
  size : t.count = p.size
  parent : ∀ i < t.count, t.number? (.parent i) = p.parent? i
  rank : ∀ i < t.count, t.number? (.rank i) = (p.rank? i).map UInt64.toNat
  rank_size : p.forest.rank.size = t.count
  ids : ∀ a, t.number? (.addressId a) = p.ids[a]?

/-- The partition is sound and has as many addresses as numbers, and arrays have room for them. -/
structure Partition.Counted (p : Partition) : Prop extends Sound p where
  size_lt : p.size < capacityLimit
  ids_size : p.ids.size = p.size

namespace Partition

variable {s : Store} {p q : Partition} {t : Table}

theorem expect_iff {v : Variable} {a : v.Value} {i : Nat}
    (hlook : s.table.look v = .ok (some a) ↔ s.table.number? v = some i) :
    s.expect v = .ok a ↔ s.faults.get v.key = none ∧ s.table.number? v = some i := by
  rw [Store.expect_eq_ok, Store.read_eq_ok, hlook]

theorem nodeFrom_iff {f : Forest} {i : Nat} : NodeFrom s f i ↔
    (s.faults.get (Variable.parent i).key = none ∧ s.faults.get (Variable.rank i).key = none) ∧
      s.table.number? (.parent i) = some (f.next i) ∧
      s.table.number? (.rank i) = some (f.rankOf i).toNat := by
  have hrank := expect_iff (s := s) (Table.look_rank_eq_some (i := i) (n := f.rankOf i))
  have hparent : ∀ id : AddressId, s.expect (.parent i) = .ok id ↔ s.faults.get (Variable.parent i).key = none ∧
      s.table.number? (.parent i) = some id.toNat := fun id => expect_iff Table.look_parent_eq_some
  constructor
  · rintro ⟨⟨id, hid, hnext⟩, h⟩
    obtain ⟨hfault, hid⟩ := (hparent id).mp hid
    obtain ⟨hfault', h⟩ := hrank.mp h
    exact ⟨⟨hfault, hfault'⟩, hnext ▸ hid, h⟩
  · rintro ⟨⟨hfault, hfault'⟩, hnext, h⟩
    have hid := toNat_ofNat (Table.number?_lt hnext)
    exact ⟨⟨.ofNat (f.next i), (hparent _).mpr ⟨hfault, hid.symm ▸ hnext⟩, hid⟩, hrank.mpr ⟨hfault', h⟩⟩

theorem idsFrom_iff {ids : Std.ExtTreeMap Address Nat} :
    IdsFrom s ids ↔ ∀ a : Address, s.table.number? (.addressId a) = ids[a]? := by
  have hnumber : ∀ (a : Address) (i : Nat), (∃ id : AddressId, s.table.look (.addressId a) = .ok (some id) ∧
      id.toNat = i) ↔ s.table.number? (.addressId a) = some i := by
    intro a i
    constructor
    · rintro ⟨id, hid, rfl⟩
      exact Table.look_addressId_eq_some.mp hid
    · intro hi
      have hid := toNat_ofNat (Table.number?_lt hi)
      exact ⟨.ofNat i, Table.look_addressId_eq_some.mpr (hid.symm ▸ hi), hid⟩
  simp only [IdsFrom, hnumber]
  constructor
  · exact fun h a => Option.ext fun i => (h a i).symm
  · exact fun h a i => by rw [h a]

theorem exists_addresses_iff : (∃ as, s.addresses = .ok as) ↔ s.faults.scan Variable.addressLead = none ∧
    ∀ k bs, s.table[k]? = some bs → Variable.addressLead.isPrefixOf k = true →
      ∃ a, k = (Variable.addressId a).key ∧ ∃ n, bs.number? = some n := by
  constructor
  · rintro ⟨as, has⟩
    obtain ⟨hfault, hall⟩ := Store.addresses_eq_ok.mp has
    refine ⟨hfault, fun k bs hk hlead => ?_⟩
    obtain ⟨⟨a, id⟩, he⟩ := exists_of_mapM_eq_ok hall (Store.mem_scan_addressLead (e := (k, bs)).mpr ⟨hk, hlead⟩)
    obtain ⟨hkey, hid⟩ := (Store.addressEntry_eq_ok hlead).mp he
    exact ⟨a, hkey, id.toNat, Variable.take_addressId_eq_ok.mp hid⟩
  · rintro ⟨hfault, hall⟩
    have hentries : ∀ e ∈ s.table.scan Variable.addressLead, ∃ c, Store.addressEntry e = .ok c := by
      intro e he
      obtain ⟨hk, hlead⟩ := Store.mem_scan_addressLead.mp he
      obtain ⟨a, hkey, n, hn⟩ := hall e.1 e.2 hk hlead
      have hid := toNat_ofNat (Bytes.number?_lt hn)
      exact ⟨(a, .ofNat n), (Store.addressEntry_eq_ok hlead).mpr
        ⟨hkey, Variable.take_addressId_eq_ok.mpr (hid.symm ▸ hn)⟩⟩
    obtain ⟨as, has⟩ := exists_mapM_eq_ok hentries
    exact ⟨as, Store.addresses_eq_ok.mpr ⟨hfault, has⟩⟩

/-- A partition is loaded exactly if no read fails, everything that is read is readable, and the partition
is what the table says and does not contradict itself. -/
theorem loadedFrom_iff : LoadedFrom p s ↔
    s.Answers ∧ s.table.Readable ∧ s.table.Decoded p ∧ p.Counted := by
  constructor
  · intro h
    obtain ⟨hfaultHeight, hheight⟩ := Store.read_eq_ok.mp h.height
    obtain ⟨hheight, heq⟩ := Table.look_height_eq_ok.mp hheight
    obtain ⟨n, hn, hsize⟩ := h.size
    obtain ⟨hfaultSize, hn⟩ := Store.read_eq_ok.mp hn
    obtain ⟨hreadable, hcount⟩ := Table.look_size_eq_ok.mp ⟨n, hn, hsize⟩
    obtain ⟨hfaultScan, haddress⟩ := exists_addresses_iff.mp h.addresses
    have hnode : ∀ i < s.table.count, _ := fun i hi => nodeFrom_iff.mp (h.node i (hcount ▸ hi))
    have hlt : ∀ i < s.table.count, i < p.forest.size := fun i hi => Nat.lt_of_lt_of_eq hi hcount
    have hrank := h.sound.forest.rank_size
    refine ⟨⟨hfaultHeight, hfaultSize, fun i hi => (hnode i hi).1.1, fun i hi => (hnode i hi).1.2,
      hfaultScan⟩, ⟨hheight, hreadable, haddress⟩, ⟨heq, hcount, fun i hi => ?_, fun i hi => ?_,
      hrank.trans hcount.symm, idsFrom_iff.mp h.ids⟩, h.sound, h.size_lt, h.ids_size⟩
    · rw [parent?, Forest.getElem?_parent (hlt i hi), (hnode i hi).2.1]
    · rw [rank?, Forest.getElem?_rank (hrank.symm ▸ hlt i hi), (hnode i hi).2.2]
      rfl
  · rintro ⟨hanswers, hreadable, hdecoded, hcounted⟩
    have hsize : ∃ n : Option UInt64, s.table.look .size = .ok n ∧ (n.getD 0).toNat = p.size :=
      Table.look_size_eq_ok.mpr ⟨hreadable.size, hdecoded.size⟩
    obtain ⟨n, hn, hsize⟩ := hsize
    have hrank := hcounted.forest.rank_size
    exact {
      height := Store.read_eq_ok.mpr
        ⟨hanswers.height, Table.look_height_eq_ok.mpr ⟨hreadable.height, hdecoded.height⟩⟩
      size := ⟨n, Store.read_eq_ok.mpr ⟨hanswers.size, hn⟩, hsize⟩
      size_lt := hcounted.size_lt
      sound := hcounted.toSound
      node := fun i hi => by
        have hi' : i < s.table.count := hdecoded.size ▸ hi
        refine nodeFrom_iff.mpr ⟨⟨hanswers.parent i hi', hanswers.rank i hi'⟩, ?_, ?_⟩
        · rw [hdecoded.parent i hi', parent?, Forest.getElem?_parent hi]
        · rw [hdecoded.rank i hi', rank?, Forest.getElem?_rank (hrank.symm ▸ hi)]
          rfl
      addresses := exists_addresses_iff.mpr ⟨hanswers.addresses, hreadable.address⟩
      ids := idsFrom_iff.mpr hdecoded.ids
      ids_size := hcounted.ids_size }

end Partition

end Cospend
