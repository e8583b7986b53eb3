import Cospend.Partition.Basic
import Cospend.Proofs.Forest.Change

/-!
# Sound partitions

In a sound partition the numbers of addresses are nodes of a sound forest. A partition is numbered if
moreover every node is the number of exactly one address, as it is in every partition that grew by
registering and merging. Two partitions are alike if they differ in the ways to the roots alone.
-/

namespace Cospend.Partition

variable {p q r : Partition}

/-- The forest is sound and every number of an address is a node. -/
structure Sound (p : Partition) : Prop where
  forest : p.forest.Sound
  ids_lt {a : Address} {i : Nat} (h : p.ids[a]? = some i) : i < p.size

/-- The addresses and the nodes correspond one to one, and arrays have room for them. -/
structure Numbered (p : Partition) : Prop extends Sound p where
  size_lt : p.size < capacityLimit
  ids_inj {a b : Address} {i : Nat} (ha : p.ids[a]? = some i) (hb : p.ids[b]? = some i) : a = b
  ids_size : p.ids.size = p.size

/-- The same checkpoint, the same numbers and the same trees. -/
structure Alike (p q : Partition) : Prop where
  height_eq : p.height = q.height
  ids_eq : p.ids = q.ids
  forest : Forest.Alike p.forest q.forest

namespace Alike

theorem size_eq (h : Alike p q) : p.size = q.size := h.forest.size_eq

theorem symm (h : Alike p q) : Alike q p := ⟨h.height_eq.symm, h.ids_eq.symm, h.forest.symm⟩

theorem trans (h : Alike p q) (h' : Alike q r) : Alike p r :=
  ⟨h.height_eq.trans h'.height_eq, h.ids_eq.trans h'.ids_eq, h.forest.trans h'.forest⟩

theorem clusterOf_eq (h : Alike p q) (a : Address) : p.clusterOf a = q.clusterOf a := by
  rw [clusterOf, clusterOf, h.ids_eq, show p.forest.root = q.forest.root from funext h.forest.root_eq]

theorem clusters_eq (h : Alike p q) : p.clusters = q.clusters := by
  have hgroup : p.group = q.group := by
    funext groups e
    rw [group, group, h.forest.root_eq]
  rw [clusters, clusters, hgroup, h.ids_eq]

theorem sound (h : Alike p q) (hq : q.Sound) : p.Sound where
  forest := h.forest.sound_left
  ids_lt ha := by rw [h.size_eq]; exact hq.ids_lt (h.ids_eq ▸ ha)

theorem numbered (h : Alike p q) (hq : q.Numbered) : p.Numbered where
  toSound := h.sound hq.toSound
  size_lt := h.size_eq ▸ hq.size_lt
  ids_inj ha hb := hq.ids_inj (h.ids_eq ▸ ha) (h.ids_eq ▸ hb)
  ids_size := by rw [h.ids_eq, h.size_eq, hq.ids_size]

end Alike

theorem Sound.alike (hp : p.Sound) : Alike p p := ⟨rfl, rfl, hp.forest.alike⟩

theorem alike_of_forest {f : Forest} (h : Forest.Alike f p.forest) :
    Alike { p with forest := f } p :=
  ⟨rfl, rfl, h⟩

theorem Sound.finalize (hp : p.Sound) : Alike p.finalize p := alike_of_forest hp.forest.flatten

theorem numbered_empty : empty.Numbered where
  forest := Forest.sound_empty
  ids_lt h := by simp [empty] at h
  size_lt := by decide
  ids_inj h := by simp [empty] at h
  ids_size := by simp [empty, size, Forest.empty, Forest.size]

/-! ## Numbers of addresses -/

theorem contains_iff {a : Address} : p.contains a = true ↔ ∃ i, p.ids[a]? = some i := by
  rw [contains, Std.ExtTreeMap.contains_eq_isSome_getElem?, Option.isSome_iff_exists]

/-- The numbers of the addresses, once for each address. -/
def numbers (p : Partition) : List Nat := p.ids.toList.map Prod.snd

theorem mem_numbers {i : Nat} : i ∈ p.numbers ↔ ∃ a : Address, p.ids[a]? = some i := by
  simp [numbers, Std.ExtTreeMap.mem_toList_iff_getElem?_eq_some]

theorem length_numbers (p : Partition) : p.numbers.length = p.ids.size := by
  rw [numbers, List.length_map, Std.ExtTreeMap.length_toList]

theorem nodup_numbers_iff : p.numbers.Nodup ↔
    ∀ (a b : Address) (i : Nat), p.ids[a]? = some i → p.ids[b]? = some i → a = b := by
  have hmem : ∀ {a : Address} {j : Nat}, (a, j) ∈ p.ids.toList ↔ p.ids[a]? = some j :=
    Std.ExtTreeMap.mem_toList_iff_getElem?_eq_some
  constructor
  · intro hnodup a b i ha hb
    exact congrArg Prod.fst (List.inj_on_of_nodup_map hnodup (hmem.mpr ha) (hmem.mpr hb) rfl)
  · intro hinj
    refine List.Nodup.map_on ?_ ?_
    · rintro ⟨a, j⟩ ha ⟨b, k⟩ hb rfl
      rw [hinj a b j (hmem.mp ha) (hmem.mp hb)]
    · exact p.ids.distinct_keys_toList.imp fun h he => by simp [he] at h

/-- If there are as many addresses as nodes, no number is shared exactly if none is left over. -/
theorem Sound.shares_no_number_iff (hp : p.Sound) (hsize : p.ids.size = p.size) :
    (∀ (a b : Address) (i : Nat), p.ids[a]? = some i → p.ids[b]? = some i → a = b) ↔
      ∀ i < p.size, ∃ a : Address, p.ids[a]? = some i := by
  have hlength : p.numbers.length = (List.range p.size).length := by
    rw [length_numbers, hsize, List.length_range]
  have hsub : p.numbers ⊆ List.range p.size := by
    intro i hi
    obtain ⟨a, ha⟩ := mem_numbers.mp hi
    exact List.mem_range.mpr (hp.ids_lt ha)
  rw [← nodup_numbers_iff]
  constructor
  · intro hnodup i hi
    have hperm := (hnodup.subperm hsub).perm_of_length_le (Nat.le_of_eq hlength.symm)
    exact mem_numbers.mp (hperm.mem_iff.mpr (List.mem_range.mpr hi))
  · intro hall
    have hsub' : List.range p.size ⊆ p.numbers :=
      fun i hi => mem_numbers.mpr (hall i (List.mem_range.mp hi))
    have hperm := (List.nodup_range.subperm hsub').perm_of_length_le (Nat.le_of_eq hlength)
    exact hperm.nodup_iff.mp List.nodup_range

/-! ## A new address -/

/-- The partition with an address that was not registered before. -/
def add (p : Partition) (a : Address) : Partition :=
  { p with forest := p.forest.push p.size 0, ids := p.ids.insert a p.size }

@[simp] theorem size_add (p : Partition) (a : Address) : (p.add a).size = p.size + 1 :=
  Forest.size_push _ _

theorem ids_add (p : Partition) (a b : Address) :
    (p.add a).ids[b]? = if a = b then some p.size else p.ids[b]? := by
  simp [add, Std.ExtTreeMap.getElem?_insert]

theorem ids_size_add {a : Address} (ha : p.ids[a]? = none) : (p.add a).ids.size = p.ids.size + 1 := by
  have hnot : ¬ p.ids.contains a = true := by
    rw [Std.ExtTreeMap.contains_eq_isSome_getElem?, ha]
    simp
  simp [add, Std.ExtTreeMap.size_insert, hnot]

theorem contains_add {a b : Address} :
    (p.add a).contains b = true ↔ p.contains b = true ∨ a = b := by
  simp only [contains_iff, ids_add]
  by_cases hab : a = b <;> simp [hab]

theorem Sound.add (hp : p.Sound) (a : Address) : (p.add a).Sound where
  forest := hp.forest.push 0
  ids_lt {b i} h := by
    rw [ids_add] at h
    rw [size_add]
    split at h
    · cases h; exact Nat.lt_succ_self _
    · exact Nat.lt_succ_of_lt (hp.ids_lt h)

theorem Numbered.add (hp : p.Numbered) {a : Address} (ha : p.ids[a]? = none)
    (hroom : p.size + 1 < capacityLimit) : (p.add a).Numbered where
  toSound := hp.toSound.add a
  size_lt := by rwa [size_add]
  ids_inj {b c i} hb hc := by
    rw [ids_add] at hb hc
    -- The new number is no node yet, so no other address can have it.
    split at hb <;> split at hc
    · rw [← ‹a = b›, ← ‹a = c›]
    · cases hb; exact absurd (hp.ids_lt hc) (Nat.lt_irrefl _)
    · cases hc; exact absurd (hp.ids_lt hb) (Nat.lt_irrefl _)
    · exact hp.ids_inj hb hc
  ids_size := by rw [ids_size_add ha, size_add, hp.ids_size]

theorem Alike.add (h : Alike p q) (a : Address) : Alike (p.add a) (q.add a) where
  height_eq := h.height_eq
  ids_eq := by simp only [Partition.add, h.ids_eq, h.size_eq]
  forest := h.forest.push 0

/-! ## Linked trees -/

theorem Sound.link (hp : p.Sound) {l : Forest.Link} (hl : l.Fits p.forest) :
    ({ p with forest := p.forest.link l } : Partition).Sound where
  forest := hp.forest.link hl
  ids_lt h := by
    have hlt := hp.ids_lt h
    simpa [size] using hlt

theorem Numbered.link (hp : p.Numbered) {l : Forest.Link} (hl : l.Fits p.forest) :
    ({ p with forest := p.forest.link l } : Partition).Numbered where
  toSound := hp.toSound.link hl
  size_lt := by simpa [size] using hp.size_lt
  ids_inj := hp.ids_inj
  ids_size := by simpa [size] using hp.ids_size

theorem Alike.link (h : Alike p q) {l : Forest.Link} (hl : l.Fits p.forest) :
    Alike { p with forest := p.forest.link l } { q with forest := q.forest.link l } :=
  ⟨h.height_eq, h.ids_eq, h.forest.link hl⟩

end Cospend.Partition
