import Cospend.Proofs.Partition.Decoded
import Cospend.Proofs.Partition.Oversize

/-!
# Stores that can be read back

A table is consistent if what it says of the addresses, one variable after the other, makes a partition.
Reading back succeeds from these tables and from no others, as long as no read fails; whenever it does not
succeed, it changes nothing.
-/

namespace Cospend

namespace Table

/-- The parent that a table holds for a number. A number without a parent stands for itself. -/
def parentOf (t : Table) (i : Nat) : Nat := (t.number? (.parent i)).getD i

/-- Every number below the size has a parent below the size and a rank, following parents from it comes
to a number that is its own parent, the numbers of addresses are below the size, and there are as many
addresses as the size says. -/
structure Consistent (t : Table) : Prop extends Readable t where
  parent : ∀ i < t.count, ∃ j < t.count, t.number? (.parent i) = some j
  rank : ∀ i < t.count, ∃ n, t.number? (.rank i) = some n
  root : ∀ i < t.count, ∃ n, t.parentOf (t.parentOf^[n] i) = t.parentOf^[n] i
  address_lt : ∀ a i, t.number? (.addressId a) = some i → i < t.count
  addresses : (t.keys.filter fun k => Variable.addressLead.isPrefixOf k).length = t.count

variable {t : Table} {p q : Partition}

theorem Decoded.unique (hp : t.Decoded p) (hq : t.Decoded q) : p = q := by
  have hparent : p.forest.parent = q.forest.parent := by
    refine Array.ext (hp.size.symm.trans hq.size) fun i hi hi' => Option.some.inj ?_
    have hi'' : i < t.count := Nat.lt_of_lt_of_eq hi hp.size.symm
    rw [← Array.getElem?_eq_getElem hi, ← Array.getElem?_eq_getElem hi']
    exact (hp.parent i hi'').symm.trans (hq.parent i hi'')
  have hrank : p.forest.rank = q.forest.rank := by
    refine Array.ext (hp.rank_size.trans hq.rank_size.symm) fun i hi hi' => ?_
    have hi'' : i < t.count := Nat.lt_of_lt_of_eq hi hp.rank_size
    have hsame := (hp.rank i hi'').symm.trans (hq.rank i hi'')
    rw [Partition.rank?, Partition.rank?, Array.getElem?_eq_getElem hi, Array.getElem?_eq_getElem hi'] at hsame
    exact UInt64.toNat_inj.mp (Option.some.inj hsame)
  have hids : p.ids = q.ids := Std.ExtTreeMap.ext_getElem? fun a => (hp.ids a).symm.trans (hq.ids a)
  obtain ⟨_, ⟨_, _⟩, _⟩ := p
  obtain ⟨_, ⟨_, _⟩, _⟩ := q
  cases hparent
  cases hrank
  cases hids
  cases hp.height.symm.trans hq.height
  rfl

theorem Decoded.parentOf_eq (h : t.Decoded p) {i : Nat} (hi : i < t.count) :
    t.parentOf i = p.forest.next i := by
  rw [parentOf, h.parent i hi, Partition.parent?, Forest.getElem?_parent (Nat.lt_of_lt_of_eq hi h.size)]
  rfl

/-- As long as parents are below the size, it does not matter whether they are followed in the table or in
the forest. -/
theorem Decoded.iterate_eq (h : t.Decoded p) (hlt : ∀ i < t.count, p.forest.next i < t.count) {i : Nat}
    (hi : i < t.count) (n : Nat) :
    t.parentOf^[n] i = p.forest.next^[n] i ∧ p.forest.next^[n] i < t.count := by
  induction n with
  | zero => exact ⟨rfl, hi⟩
  | succ n ih =>
      obtain ⟨heq, hn⟩ := ih
      rw [Function.iterate_succ_apply', Function.iterate_succ_apply', heq, h.parentOf_eq hn]
      exact ⟨rfl, hlt _ hn⟩

theorem Decoded.exists_root_iff (h : t.Decoded p) (hlt : ∀ i < t.count, p.forest.next i < t.count) {i : Nat}
    (hi : i < t.count) :
    (∃ n, t.parentOf (t.parentOf^[n] i) = t.parentOf^[n] i) ↔ ∃ r, p.forest.Leads i r := by
  rw [Forest.exists_leads_iff]
  refine exists_congr fun n => ?_
  obtain ⟨heq, hn⟩ := h.iterate_eq hlt hi n
  rw [heq, h.parentOf_eq hn]

/-- The keys that begin as those of addresses do are those of the addresses, each of them once. -/
theorem Readable.length_keys (hr : t.Readable) (h : t.Decoded p) :
    (t.keys.filter fun k => Variable.addressLead.isPrefixOf k).length = p.ids.size := by
  have hperm : (t.keys.filter fun k => Variable.addressLead.isPrefixOf k).Perm
      (p.ids.keys.map fun a => (Variable.addressId a).key) := by
    have hinj : Function.Injective fun a => (Variable.addressId a).key := by
      intro a b hab
      cases Variable.key_inj.mp hab
      rfl
    refine (List.perm_ext_iff_of_nodup (t.nodup_keys.filter _) (p.ids.nodup_keys.map hinj)).mpr fun k => ?_
    rw [List.mem_filter, List.mem_map, Std.ExtTreeMap.mem_keys]
    constructor
    · rintro ⟨hk, hlead⟩
      obtain ⟨bs, hbs⟩ := Option.isSome_iff_exists.mp (Std.ExtTreeMap.mem_iff_isSome_getElem?.mp hk)
      obtain ⟨a, rfl, n, hn⟩ := hr.address k bs hbs hlead
      refine ⟨a, Std.ExtTreeMap.mem_keys.mpr (Std.ExtTreeMap.mem_iff_isSome_getElem?.mpr ?_), rfl⟩
      rw [← h.ids a, number?_eq_some.mpr ⟨bs, hbs, hn⟩]
      rfl
    · rintro ⟨a, ha, rfl⟩
      have ha := Std.ExtTreeMap.mem_iff_isSome_getElem?.mp (Std.ExtTreeMap.mem_keys.mp ha)
      rw [← h.ids a] at ha
      obtain ⟨n, hn⟩ := Option.isSome_iff_exists.mp ha
      obtain ⟨bs, hbs, -⟩ := number?_eq_some.mp hn
      refine ⟨Std.ExtTreeMap.mem_iff_isSome_getElem?.mpr ?_, Variable.isPrefixOf_key_addressId a⟩
      rw [hbs]
      rfl
  rw [hperm.length_eq, List.length_map, Std.ExtTreeMap.length_keys]

theorem Decoded.consistent (h : t.Decoded p) (hr : t.Readable) (hp : p.Counted) : t.Consistent where
  toReadable := hr
  parent i hi := by
    have hi' : i < p.forest.size := Nat.lt_of_lt_of_eq hi h.size
    refine ⟨p.forest.next i, ?_, ?_⟩
    · rw [h.size]
      exact hp.forest.next_lt hi'
    · rw [h.parent i hi, Partition.parent?, Forest.getElem?_parent hi']
  rank i hi := by
    have hi' : i < p.forest.rank.size := Nat.lt_of_lt_of_eq hi h.rank_size.symm
    refine ⟨(p.forest.rankOf i).toNat, ?_⟩
    rw [h.rank i hi, Partition.rank?, Forest.getElem?_rank hi']
    rfl
  root i hi := by
    refine (h.exists_root_iff (fun j hj => ?_) hi).mpr (hp.forest.leads i)
    rw [h.size] at hj ⊢
    exact hp.forest.next_lt hj
  address_lt a i hi := by
    rw [h.ids a] at hi
    rw [h.size]
    exact hp.ids_lt hi
  addresses := by rw [hr.length_keys h, hp.ids_size, h.size]

theorem Consistent.sound (h : t.Consistent) (hp : t.Decoded p) : p.Sound := by
  have hlt : ∀ i < t.count, p.forest.next i < t.count := by
    intro i hi
    obtain ⟨j, hj, hparent⟩ := h.parent i hi
    rwa [← hp.parentOf_eq hi, parentOf, hparent]
  refine ⟨⟨hp.rank_size.trans hp.size, fun {i} hi => ?_, fun i => ?_⟩, fun {a i} ha => ?_⟩
  · exact Nat.lt_of_lt_of_eq (hlt i (Nat.lt_of_lt_of_eq hi hp.size.symm)) hp.size
  · rcases Nat.lt_or_ge i p.forest.size with hi | hi
    · have hi' : i < t.count := Nat.lt_of_lt_of_eq hi hp.size.symm
      exact (hp.exists_root_iff hlt hi').mp (h.root i hi')
    · exact ⟨i, .of_root (Forest.next_of_size_le hi)⟩
  · rw [← hp.ids a] at ha
    exact Nat.lt_of_lt_of_eq (h.address_lt a i ha) hp.size

theorem Consistent.counted (h : t.Consistent) (hp : t.Decoded p) (hlt : t.count < Partition.capacityLimit) :
    p.Counted where
  toSound := h.sound hp
  size_lt := hp.size ▸ hlt
  ids_size := by rw [← h.toReadable.length_keys hp, h.addresses, hp.size]

/-- A consistent table holds a partition. -/
theorem Consistent.exists_decoded (h : t.Consistent) : ∃ p, t.Decoded p := by
  obtain ⟨as, has⟩ := Partition.exists_addresses_iff (s := ⟨t, .none, 0⟩).mpr ⟨rfl, h.address⟩
  have hids := Partition.idsFrom_iff.mp (Partition.idsFrom_putAll has)
  refine ⟨⟨t.height?, ⟨(Array.range t.count).map t.parentOf,
    (Array.range t.count).map fun i => UInt64.ofNat ((t.number? (.rank i)).getD 0)⟩, _⟩,
    rfl, ?_, fun i hi => ?_, fun i hi => ?_, ?_, hids⟩
  · simp [Partition.size, Forest.size]
  · obtain ⟨j, -, hparent⟩ := h.parent i hi
    simp [Partition.parent?, parentOf, hi, hparent]
  · obtain ⟨n, hrank⟩ := h.rank i hi
    simp [Partition.rank?, hi, hrank, Nat.mod_eq_of_lt (number?_lt hrank)]
  · simp

end Table

namespace Partition

variable {s : Store} {p q : Partition}

theorem load_eq_ok_iff (hlt : s.table.count < capacityLimit) :
    load s = .ok q ↔ s.Answers ∧ s.table.Consistent ∧ s.table.Decoded q := by
  rw [load_eq_ok, loadedFrom_iff]
  constructor
  · rintro ⟨hanswers, hreadable, hdecoded, hcounted⟩
    exact ⟨hanswers, hdecoded.consistent hreadable hcounted, hdecoded⟩
  · rintro ⟨hanswers, hconsistent, hdecoded⟩
    exact ⟨hanswers, hconsistent.toReadable, hdecoded, hconsistent.counted hdecoded hlt⟩

/-- With a size that arrays have room for, reading back succeeds exactly if no read of it fails and the
variables of the table are consistent, and the partition is then the one that they say. Otherwise it
ends with an error and the partition is what it was. -/
theorem restore_exact (p : Partition) (s : Store) (hlt : s.table.count < capacityLimit) :
    (∀ q, p.restore s = (.ok (), q) ↔ s.Answers ∧ s.table.Consistent ∧ s.table.Decoded q) ∧
    ((∃ q, p.restore s = (.ok (), q)) ↔ s.Answers ∧ s.table.Consistent) ∧
    (¬ (s.Answers ∧ s.table.Consistent) → ∃ e, p.restore s = (.error (.error e), p)) := by
  have hok : ∀ q, p.restore s = (.ok (), q) ↔ s.Answers ∧ s.table.Consistent ∧ s.table.Decoded q :=
    fun q => restore_eq_ok.trans (load_eq_ok_iff hlt)
  refine ⟨hok, ?_, fun hnot => ?_⟩
  · constructor
    · rintro ⟨q, hq⟩
      obtain ⟨hanswers, hconsistent, -⟩ := (hok q).mp hq
      exact ⟨hanswers, hconsistent⟩
    · rintro ⟨hanswers, hconsistent⟩
      obtain ⟨q, hq⟩ := hconsistent.exists_decoded
      exact ⟨q, (hok q).mpr ⟨hanswers, hconsistent, hq⟩⟩
  · obtain ⟨e, he⟩ := restore_of_ne_ok (p := p) fun q hq => by
      obtain ⟨hanswers, hconsistent, -⟩ := (load_eq_ok_iff hlt).mp hq
      exact hnot ⟨hanswers, hconsistent⟩
    cases e with
    | error e => exact ⟨e, he⟩
    | abort a =>
        -- only a size that arrays have no room for is not refused with an error
        obtain ⟨-, hover⟩ := restore_eq_abort.mp (congrArg Prod.fst he)
        exact absurd hover.le_count (Nat.not_le_of_lt hlt)

/-- The first of two addresses is below the second one. Octets follow a parent, and an entry is of no
variable. -/
def trailing : Table := Table.changeAll ∅ [
  .set Variable.size.key (Variable.encode .size 2),
  .set (Variable.parent 0).key (Variable.encode (.parent 0) (.ofNat 1) ++ [7, 7]),
  .set (Variable.rank 0).key (Variable.encode (.rank 0) 0),
  .set (Variable.parent 1).key (Variable.encode (.parent 1) (.ofNat 1)),
  .set (Variable.rank 1).key (Variable.encode (.rank 1) 0xFFFFFFFFFFFFFFFF),
  .set (Variable.addressId ⟨"A"⟩).key (Variable.encode (.addressId ⟨"A"⟩) (.ofNat 0)),
  .set (Variable.addressId ⟨"B"⟩).key (Variable.encode (.addressId ⟨"B"⟩) (.ofNat 1)),
  .set [1] [2, 3]]

def trailingPartition : Partition :=
  ⟨none, ⟨#[1, 1], #[0, 0xFFFFFFFFFFFFFFFF]⟩,
    ((∅ : Std.ExtTreeMap Address Nat).insert ⟨"A"⟩ 0).insert ⟨"B"⟩ 1⟩

/-- The rank of the second number cannot be read. -/
def rankless : Store :=
  ⟨trailing, { get := fun k => if k = (Variable.rank 1).key then some "broken" else none }, 0⟩

theorem restore_exact_trailing :
    trailing.Consistent ∧ trailing.Decoded trailingPartition ∧
      ∃ e, trailingPartition.restore rankless = (.error (.error e), trailingPartition) := by
  have hlt : trailing.count < capacityLimit := by decide +kernel
  have hrestore : empty.restore ⟨trailing, .none, 0⟩ = (.ok (), trailingPartition) := by rfl
  obtain ⟨-, hconsistent, hdecoded⟩ := ((restore_exact empty ⟨trailing, .none, 0⟩ hlt).1 _).mp hrestore
  refine ⟨hconsistent, hdecoded, (restore_exact trailingPartition rankless hlt).2.2 ?_⟩
  rintro ⟨hanswers, -⟩
  have hfault := hanswers.rank 1 (by decide +kernel)
  cases hfault

end Partition

end Cospend
