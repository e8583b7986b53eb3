import Cospend.Proofs.Partition.Stored

/-!
# Numbers that are read back

Loading checks that every number of an address is a node and that there are as many addresses as nodes.
It does not check that the numbers are different. What is loaded from a store is therefore numbered
exactly if no number is left over, as it is in a store that holds a numbered partition; a store in which
two addresses have one number is accepted if it has an address too few.
-/

namespace Cospend.Partition

variable {s : Store} {p q : Partition}

theorem toNat_inj {i j : AddressId} : i.toNat = j.toNat ↔ i = j := by
  cases i
  cases j
  simp [AddressId.toNat, UInt64.toNat_inj]

/-- The loaded numbers are nodes, as many as there are addresses. The partition is numbered exactly if no
node is left without an address, that is, if the store has different numbers for different addresses; it
is if the store holds a numbered partition and nothing else. -/
theorem restore_numbers (h : q.restore s = (.ok (), p)) :
    p.ids.size = p.size ∧ (∀ (a : Address) (i : Nat), p.ids[a]? = some i → i < p.size) ∧
    (p.Numbered ↔ ∀ i < p.size, ∃ a : Address, p.ids[a]? = some i) ∧
    (p.Numbered ↔ ∀ (a b : Address) (id : AddressId), s.table.look (.addressId a) = .ok (some id) →
      s.table.look (.addressId b) = .ok (some id) → a = b) ∧
    ∀ q : Partition, q.Numbered → s.table = q.table → p.Numbered := by
  have hload := restore_eq_ok.mp h
  have hp := load_eq_ok.mp hload
  -- loading checks everything but that the numbers are different
  have hinj : p.Numbered ↔
      ∀ (a b : Address) (i : Nat), p.ids[a]? = some i → p.ids[b]? = some i → a = b :=
    ⟨fun hp _ _ _ => hp.ids_inj, fun hinj => ⟨hp.sound, hp.size_lt, hinj _ _ _, hp.ids_size⟩⟩
  refine ⟨hp.ids_size, fun a i => hp.sound.ids_lt, ?_, ?_, fun q hq ht => hq.load_eq ht hload ▸ hq⟩
  · rw [hinj]
    exact hp.sound.shares_no_number_iff hp.ids_size
  · rw [hinj]
    constructor
    · intro hinj a b id ha hb
      exact hinj a b id.toNat ((hp.ids a _).mpr ⟨id, ha, rfl⟩) ((hp.ids b _).mpr ⟨id, hb, rfl⟩)
    · intro hlook a b i hai hbi
      obtain ⟨id, ha, rfl⟩ := (hp.ids a i).mp hai
      obtain ⟨id', hb, hid⟩ := (hp.ids b _).mp hbi
      exact hlook a b id ha (toNat_inj.mp hid ▸ hb)

/-- Two addresses have the first of two numbers, and the second one is left over. -/
def sharedNumber : Store :=
  ⟨Table.changeAll ∅ [.set Variable.size.key (Variable.encode .size 2),
    .set (Variable.parent 0).key (Variable.encode (.parent 0) (.ofNat 0)),
    .set (Variable.rank 0).key (Variable.encode (.rank 0) 0),
    .set (Variable.parent 1).key (Variable.encode (.parent 1) (.ofNat 1)),
    .set (Variable.rank 1).key (Variable.encode (.rank 1) 0),
    .set (Variable.addressId ⟨"A"⟩).key (Variable.encode (.addressId ⟨"A"⟩) (.ofNat 0)),
    .set (Variable.addressId ⟨"B"⟩).key (Variable.encode (.addressId ⟨"B"⟩) (.ofNat 0))], .none, 0⟩

def sharedPartition : Partition :=
  ⟨none, ⟨#[0, 1], #[0, 0]⟩, ((∅ : Std.ExtTreeMap Address Nat).insert ⟨"A"⟩ 0).insert ⟨"B"⟩ 0⟩

theorem restore_sharedNumber : empty.restore sharedNumber = (.ok (), sharedPartition) := by rfl

theorem ids_sharedPartition (a : Address) : sharedPartition.ids[a]? ≠ some 1 := by
  simp only [sharedPartition, Std.ExtTreeMap.getElem?_insert]
  split
  · simp
  · split <;> simp

theorem restore_numbers_shared : empty.restore sharedNumber = (.ok (), sharedPartition) ∧
    sharedPartition.ids.size = sharedPartition.size ∧ ¬ sharedPartition.Numbered := by
  obtain ⟨hsize, -, hleft, -⟩ := restore_numbers restore_sharedNumber
  refine ⟨restore_sharedNumber, hsize, fun hp => ?_⟩
  obtain ⟨a, ha⟩ := hleft.mp hp 1 (by decide)
  exact ids_sharedPartition a ha

/-- Two addresses may be in one cluster for no other reason than that the store gives them one number. -/
theorem restore_accepts_shared_number : ∃ (s : Store) (p : Partition),
    empty.restore s = (.ok (), p) ∧
    (∃ a b : Address, a ≠ b ∧ p.ids[a]? = some 0 ∧ p.ids[b]? = some 0 ∧
      p.clusterOf a = p.clusterOf b) ∧
    1 < p.size ∧ ∀ a : Address, p.ids[a]? ≠ some 1 :=
  ⟨sharedNumber, sharedPartition, restore_sharedNumber,
    ⟨⟨"A"⟩, ⟨"B"⟩, by decide, by rfl, by rfl, by rfl⟩, by decide, ids_sharedPartition⟩

end Cospend.Partition
