import Cospend.Partition.Restore
import Cospend.Proofs.Forest.Change
import Cospend.Proofs.Forest.Cycle
import Cospend.Proofs.Partition.Sound
import Cospend.Proofs.Store.Entries
import Cospend.Proofs.Store.Reading

/-!
# What is loaded

`LoadedFrom` says when a store holds a partition: every variable that the partition needs can be read
and has the value that the partition gives it, and the values do not contradict each other. Loading
answers that partition, and no other store is accepted.
-/

namespace Cospend.Partition

variable {s : Store} {p q : Partition}

/-! ## Steps of loading -/

theorem reading_eq_ok {α : Type} {x : Except ReadError α} {a : α} :
    reading x = .ok a ↔ x = .ok a := by
  cases x with
  | error e => constructor <;> intro h <;> cases h
  | ok b => exact ⟨fun h => by cases h; rfl, fun h => by cases h; rfl⟩

theorem refuse_ne_ok {α : Type} {i : Inconsistency} {a : α} : refuse i ≠ .ok a := by
  intro h
  cases h

/-- The parent and the rank of a node are those that the store holds. -/
structure NodeFrom (s : Store) (f : Forest) (i : Nat) : Prop where
  parent : ∃ id : AddressId, s.expect (.parent i) = .ok id ∧ id.toNat = f.next i
  rank : s.expect (.rank i) = .ok (f.rankOf i)

/-- The forest `g` continues `f` by nodes that the store holds. -/
structure Continues (s : Store) (size : Nat) (f g : Forest) : Prop where
  size_le : f.size ≤ g.size
  rank_size : g.rank.size = g.size
  parent_eq : ∀ i < f.size, g.parent[i]? = f.parent[i]?
  rank_eq : ∀ i < f.size, g.rank[i]? = f.rank[i]?
  node : ∀ i, f.size ≤ i → i < g.size → NodeFrom s g i ∧ g.next i < size

theorem Continues.refl {size : Nat} {f : Forest} (hf : f.rank.size = f.size) :
    Continues s size f f where
  size_le := Nat.le_refl _
  rank_size := hf
  parent_eq _ _ := rfl
  rank_eq _ _ := rfl
  node _ hle hlt := absurd hlt (Nat.not_lt_of_le hle)

theorem Continues.eq {size : Nat} {f g : Forest} (h : Continues s size f g)
    (hf : f.rank.size = f.size) (hsize : g.size = f.size) : g = f := by
  have hparent : g.parent = f.parent := by
    refine Array.ext hsize fun i hi hi' => Option.some.inj ?_
    rw [← Array.getElem?_eq_getElem hi, ← Array.getElem?_eq_getElem hi', h.parent_eq i hi']
  have hrank : g.rank = f.rank := by
    refine Array.ext (by rw [h.rank_size, hsize, hf]) fun i hi hi' => Option.some.inj ?_
    rw [← Array.getElem?_eq_getElem hi, ← Array.getElem?_eq_getElem hi', h.rank_eq i (hf ▸ hi')]
  cases f
  cases g
  cases hparent
  cases hrank
  rfl

section Push

variable {size i : Nat} {f g : Forest} {parent : Nat} {rank : UInt64}

theorem parent_push_of_lt (hi : i < f.size) : (f.push parent rank).parent[i]? = f.parent[i]? := by
  have hne : i ≠ f.parent.size := Nat.ne_of_lt hi
  simp [Forest.push, Array.getElem?_push, hne]

theorem rank_push_of_lt (hf : f.rank.size = f.size) (hi : i < f.size) :
    (f.push parent rank).rank[i]? = f.rank[i]? := by
  have hne : i ≠ f.rank.size := Nat.ne_of_lt (hf ▸ hi)
  simp [Forest.push, Array.getElem?_push, hne]

theorem parent_push_size : (f.push parent rank).parent[f.size]? = some parent := by
  simp [Forest.push, Forest.size]

theorem rank_push_size (hf : f.rank.size = f.size) :
    (f.push parent rank).rank[f.size]? = some rank := by
  simp [Forest.push, ← hf]

theorem lt_size_push : i < (f.push parent rank).size ↔ i < f.size ∨ i = f.size := by
  rw [Forest.size_push]
  exact Nat.lt_succ_iff_lt_or_eq

theorem Continues.at_size (h : Continues s size (f.push parent rank) g) (hf : f.rank.size = f.size) :
    g.next f.size = parent ∧ g.rankOf f.size = rank := by
  have hlt : f.size < (f.push parent rank).size := lt_size_push.mpr (.inr rfl)
  constructor
  · rw [Forest.next, Array.getD_eq_getD_getElem?, h.parent_eq _ hlt, parent_push_size, Option.getD_some]
  · rw [Forest.rankOf, Array.getD_eq_getD_getElem?, h.rank_eq _ hlt, rank_push_size hf,
      Option.getD_some]

theorem continues_push (hf : f.rank.size = f.size) (hlt : f.size < g.size) :
    Continues s size f g ↔ (NodeFrom s g f.size ∧ g.next f.size < size) ∧
      Continues s size (f.push (g.next f.size) (g.rankOf f.size)) g := by
  constructor
  · intro h
    refine ⟨h.node _ (Nat.le_refl _) hlt, ?_, h.rank_size, fun i hi => ?_, fun i hi => ?_, ?_⟩
    · rwa [Forest.size_push]
    · rcases lt_size_push.mp hi with hi | rfl
      · rw [h.parent_eq i hi, parent_push_of_lt hi]
      · rw [Forest.getElem?_parent hlt, parent_push_size]
    · rcases lt_size_push.mp hi with hi | rfl
      · rw [h.rank_eq i hi, rank_push_of_lt hf hi]
      · rw [Forest.getElem?_rank (h.rank_size ▸ hlt), rank_push_size hf]
    · intro i hle hi
      rw [Forest.size_push] at hle
      exact h.node i (Nat.le_of_succ_le hle) hi
  · rintro ⟨hnode, h⟩
    refine ⟨Nat.le_of_lt hlt, h.rank_size, fun i hi => ?_, fun i hi => ?_, fun i hle hi => ?_⟩
    · rw [h.parent_eq i (lt_size_push.mpr (.inl hi)), parent_push_of_lt hi]
    · rw [h.rank_eq i (lt_size_push.mpr (.inl hi)), rank_push_of_lt hf hi]
    · rcases Nat.lt_or_eq_of_le hle with hle | rfl
      · exact h.node i (by rw [Forest.size_push]; exact hle) hi
      · exact hnode

end Push

theorem loadNodes_eq_ok {size left : Nat} {f g : Forest} (hf : f.rank.size = f.size) :
    loadNodes s size left f = .ok g ↔ g.size = f.size + left ∧ Continues s size f g := by
  induction left generalizing f with
  | zero =>
      rw [loadNodes, pure_eq_ok]
      constructor
      · rintro rfl
        exact ⟨rfl, .refl hf⟩
      · rintro ⟨hsize, h⟩
        exact (h.eq hf hsize).symm
  | succ left ih =>
      have hpush : ∀ parent rank, (f.push parent rank).rank.size = (f.push parent rank).size := by
        intro parent rank
        simp [Forest.push, Forest.size, hf]
      simp only [loadNodes, bind_eq_ok, reading_eq_ok]
      constructor
      · rintro ⟨id, hid, h⟩
        split at h
        · exact absurd h refuse_ne_ok
        · rename_i hlt
          obtain ⟨rank, hrank, h⟩ := bind_eq_ok.mp h
          obtain ⟨hsize, h⟩ := (ih (hpush _ _)).mp h
          rw [Forest.size_push] at hsize
          obtain ⟨hnext, hrankOf⟩ := h.at_size hf
          refine ⟨by omega, (continues_push hf (by omega)).mpr ⟨⟨⟨⟨id, hid, hnext.symm⟩, ?_⟩, ?_⟩, ?_⟩⟩
          · rw [hrankOf]
            exact reading_eq_ok.mp hrank
          · rw [hnext]
            exact Nat.lt_of_not_le hlt
          · rw [hnext, hrankOf]
            exact h
      · rintro ⟨hsize, h⟩
        obtain ⟨⟨hnode, hlt⟩, h⟩ := (continues_push hf (by omega)).mp h
        obtain ⟨id, hid, hnext⟩ := hnode.parent
        refine ⟨id, hid, ?_⟩
        rw [hnext, if_neg (Nat.not_le_of_lt hlt)]
        refine bind_eq_ok.mpr ⟨g.rankOf f.size, reading_eq_ok.mpr hnode.rank, ?_⟩
        exact (ih (hpush _ _)).mpr ⟨by rw [Forest.size_push]; omega, h⟩

theorem loadForest_eq_ok {size : Nat} {f : Forest} :
    loadForest s size = .ok f ↔ f.size = size ∧ f.Sound ∧ ∀ i < size, NodeFrom s f i := by
  simp only [loadForest, bind_eq_ok, loadNodes_eq_ok (f := Forest.empty) rfl]
  constructor
  · rintro ⟨g, ⟨hsize, hg⟩, h⟩
    split at h
    · exact absurd h refuse_ne_ok
    · rename_i hcycle
      cases h
      obtain rfl : f.size = size := hsize.trans (Nat.zero_add _)
      have hnode : ∀ i < f.size, NodeFrom s f i ∧ f.next i < f.size :=
        fun i hi => hg.node i (Nat.zero_le i) hi
      exact ⟨rfl, Forest.sound_iff.mpr ⟨hg.rank_size, fun i hi => (hnode i hi).2, hcycle⟩,
        fun i hi => (hnode i hi).1⟩
  · rintro ⟨rfl, hf, hnode⟩
    refine ⟨f, ⟨(Nat.zero_add _).symm, ?_⟩, ?_⟩
    · exact {
        size_le := Nat.zero_le _
        rank_size := hf.rank_size
        parent_eq := fun i hi => absurd hi (Nat.not_lt_zero i)
        rank_eq := fun i hi => absurd hi (Nat.not_lt_zero i)
        node := fun i _ hi => ⟨hnode i hi, hf.next_lt hi⟩ }
    · rw [(Forest.sound_iff.mp hf).2.2]
      rfl

/-- The numbers are those that the store holds for addresses. -/
def IdsFrom (s : Store) (ids : Std.ExtTreeMap Address Nat) : Prop :=
  ∀ a i, ids[a]? = some i ↔ ∃ id : AddressId, s.table.look (.addressId a) = .ok (some id) ∧ id.toNat = i

theorem IdsFrom.unique {ids ids' : Std.ExtTreeMap Address Nat} (h : IdsFrom s ids)
    (h' : IdsFrom s ids') : ids = ids' := by
  refine Std.ExtTreeMap.ext_getElem? fun a => Option.ext fun i => ?_
  rw [h a i, h' a i]

theorem idsFrom_putAll {as : List (Address × AddressId)} (has : s.addresses = .ok as) :
    IdsFrom s (putAll ∅ (as.map fun e => (e.1, e.2.toNat))) := by
  intro a i
  have hentry : ∀ j, (a, j) ∈ as.map (fun e => (e.1, e.2.toNat)) ↔
      ∃ id : AddressId, s.table.look (.addressId a) = .ok (some id) ∧ id.toNat = j := by
    intro j
    simp only [List.mem_map, Prod.mk.injEq, Prod.exists, ← Store.mem_addresses has]
    constructor
    · rintro ⟨_, id, hmem, rfl, hid⟩
      exact ⟨id, hmem, hid⟩
    · rintro ⟨id, hmem, hid⟩
      exact ⟨a, id, hmem, rfl, hid⟩
  rw [← hentry]
  refine getElem?_putAll_eq_some_iff fun j j' hj hj' => ?_
  obtain ⟨id, hlook, rfl⟩ := (hentry j).mp hj
  obtain ⟨id', hlook', rfl⟩ := (hentry j').mp hj'
  rw [hlook] at hlook'
  cases hlook'
  rfl

theorem loadIds_eq_ok {size : Nat} {ids : Std.ExtTreeMap Address Nat} :
    loadIds s size = .ok ids ↔ (∃ as, s.addresses = .ok as) ∧ IdsFrom s ids ∧
      (∀ (a : Address) (i : Nat), ids[a]? = some i → i < size) ∧ ids.size = size := by
  simp only [loadIds, bind_eq_ok, reading_eq_ok]
  -- The entries out of range are those whose numbers are.
  have hrange : ∀ {as} {ids : Std.ExtTreeMap Address Nat}, s.addresses = .ok as → IdsFrom s ids →
      ((as.find? fun e => decide (size ≤ e.2.toNat)) = none ↔
        ∀ (a : Address) (i : Nat), ids[a]? = some i → i < size) := by
    intro as ids has hids
    simp only [List.find?_eq_none, decide_eq_true_eq, Nat.not_le, Prod.forall]
    constructor
    · intro h a i hi
      obtain ⟨id, hlook, rfl⟩ := (hids a i).mp hi
      exact h a id ((Store.mem_addresses has).mpr hlook)
    · intro h a id hmem
      exact h a _ ((hids a _).mpr ⟨id, (Store.mem_addresses has).mp hmem, rfl⟩)
  constructor
  · rintro ⟨as, has, h⟩
    have hids := idsFrom_putAll has
    split at h
    · exact absurd h refuse_ne_ok
    · rename_i hnone
      simp only [putAll, List.foldl_map] at hids
      split at h
      · rename_i hcount
        cases h
        exact ⟨⟨as, has⟩, hids, (hrange has hids).mp hnone, hcount⟩
      · exact absurd h refuse_ne_ok
  · rintro ⟨⟨as, has⟩, hids, hlt, hcount⟩
    refine ⟨as, has, ?_⟩
    have hput := idsFrom_putAll has
    simp only [putAll, List.foldl_map] at hput
    rw [(hrange has hids).mpr hlt]
    simp only [hput.unique hids, hcount, if_true]
    rfl

/-! ## Loading as a whole -/

/-- The store holds the partition. -/
structure LoadedFrom (p : Partition) (s : Store) : Prop where
  height : s.read .height = .ok p.height
  size : ∃ n, s.read .size = .ok n ∧ (n.getD 0).toNat = p.size
  size_lt : p.size < capacityLimit
  sound : p.Sound
  node : ∀ i < p.size, NodeFrom s p.forest i
  addresses : ∃ as, s.addresses = .ok as
  ids : IdsFrom s p.ids
  ids_size : p.ids.size = p.size

theorem load_eq_ok : load s = .ok p ↔ LoadedFrom p s := by
  simp only [load, bind_eq_ok, reading_eq_ok]
  constructor
  · rintro ⟨height, hheight, n, hn, h⟩
    split at h
    · cases h
    · rename_i hlt
      obtain ⟨forest, hforest, h⟩ := bind_eq_ok.mp h
      obtain ⟨ids, hids, h⟩ := bind_eq_ok.mp h
      cases h
      obtain ⟨hsize, hsound, hnode⟩ := loadForest_eq_ok.mp hforest
      obtain ⟨has, hids, hidslt, hcount⟩ := loadIds_eq_ok.mp hids
      exact {
        height := hheight
        size := ⟨n, hn, hsize.symm⟩
        size_lt := by rw [Partition.size, hsize]; exact Nat.lt_of_not_le hlt
        sound := ⟨hsound, fun {a i} hi => by rw [Partition.size, hsize]; exact hidslt a i hi⟩
        node := by rw [Partition.size, hsize]; exact hnode
        addresses := has
        ids := hids
        ids_size := hcount.trans hsize.symm }
  · intro h
    obtain ⟨n, hn, hsize⟩ := h.size
    refine ⟨p.height, h.height, n, hn, ?_⟩
    rw [hsize, if_neg (Nat.not_le_of_lt h.size_lt)]
    refine bind_eq_ok.mpr ⟨p.forest, loadForest_eq_ok.mpr ⟨rfl, h.sound.forest, h.node⟩, ?_⟩
    refine bind_eq_ok.mpr ⟨p.ids, loadIds_eq_ok.mpr ⟨h.addresses, h.ids, ?_, h.ids_size⟩, rfl⟩
    exact fun a i hi => h.sound.ids_lt hi

theorem restore_eq_ok : p.restore s = (.ok (), q) ↔ load s = .ok q := by
  unfold restore
  cases load s with
  | error e => simp
  | ok q' => simp

end Cospend.Partition
