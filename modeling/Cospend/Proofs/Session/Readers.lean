import Cospend.Proofs.Export.Complete
import Cospend.Proofs.Session.Closure

/-!
# Readers agree

The clusters can be read in four ways: by walking to the root, by a search that shortens the way, off the
parents once all ways are shortened, and as groups of addresses. All of these tell the same.
-/

namespace Cospend

namespace Partition

variable {p : Partition} {entries : List (Address × Nat)} {a : Address} {i k : Nat}

theorem parent?_eq_some_self_iff : p.parent? i = some i ↔ i < p.size ∧ p.forest.next i = i := by
  rcases Nat.lt_or_ge i p.forest.size with hi | hi
  · rw [parent?, Forest.getElem?_parent hi, Option.some_inj]
    exact (and_iff_right hi).symm
  · rw [parent?, Array.getElem?_eq_none hi]
    refine iff_of_false (fun h => ?_) fun h => Nat.not_lt.mpr hi h.1
    cases h

theorem mem_roots_iff_parent? : k ∈ p.roots ↔ p.parent? k = some k := by
  rw [roots, List.mem_filter, List.mem_range, beq_iff_eq, parent?_eq_some_self_iff]

/-- When all ways are shortened, the parent of a number stands for its cluster. -/
theorem Sound.parent?_finalize (hp : p.Sound) (ha : p.ids[a]? = some i) :
    p.finalize.parent? i = p.clusterOf a := by
  have hi : i < p.finalize.forest.size := by
    rw [hp.finalize.forest.size_eq]
    exact hp.ids_lt ha
  rw [parent?, Forest.getElem?_parent hi, clusterOf, ha]
  exact congrArg some (hp.forest.next_flatten i)

theorem Sound.finalize_finalize (hp : p.Sound) : p.finalize.finalize = p.finalize :=
  congrArg (fun f => { p with forest := f }) hp.forest.flatten_flatten

/-! ## Groups -/

/-- Each registered address stands once, in the group of its cluster, and no group is empty. -/
structure Grouped (p : Partition) (groups : Std.ExtTreeMap Nat (List Address)) : Prop where
  mem_iff (k : Nat) : k ∈ groups ↔ p.parent? k = some k
  ne_nil {k : Nat} {g : List Address} (hg : groups[k]? = some g) : g ≠ []
  clusterOf_iff {k : Nat} {g : List Address} (hg : groups[k]? = some g) (a : Address) :
    a ∈ g ↔ p.clusterOf a = some k
  listed (a : Address) : a ∈ groups.toList.flatMap Prod.snd ↔ p.contains a = true
  nodup : (groups.toList.flatMap Prod.snd).Nodup

/-- The addresses with a root, in the order of the entries. -/
def under (p : Partition) (entries : List (Address × Nat)) (k : Nat) : List Address :=
  (entries.filter fun e => p.forest.root e.2 == k).map Prod.fst

theorem getD_foldl_group {groups : Std.ExtTreeMap Nat (List Address)} :
    (entries.foldl p.group groups).getD k [] = groups.getD k [] ++ p.under entries k := by
  induction entries generalizing groups with
  | nil => simp [under]
  | cons e entries ih =>
      rw [List.foldl_cons, ih, group, Std.ExtTreeMap.getD_insert]
      by_cases hk : p.forest.root e.2 = k
      · subst hk
        simp [under]
      · simp [under, hk]

theorem mem_under (h : entries.Perm p.ids.toList) : a ∈ p.under entries k ↔ p.clusterOf a = some k := by
  simp [under, clusterOf, h.mem_iff, Std.ExtTreeMap.mem_toList_iff_getElem?_eq_some]

theorem nodup_under (h : entries.Perm p.ids.toList) : (p.under entries k).Nodup := by
  have hkeys : (entries.map Prod.fst).Nodup := by
    rw [(h.map Prod.fst).nodup_iff, Std.ExtTreeMap.map_fst_toList_eq_keys]
    exact Std.ExtTreeMap.nodup_keys
  exact hkeys.sublist (List.filter_sublist.map Prod.fst)

theorem getElem?_foldl_group {g : List Address} (hg : (entries.foldl p.group ∅)[k]? = some g) :
    g = p.under entries k := by
  have hgetD : (entries.foldl p.group ∅).getD k [] = _ := getD_foldl_group
  rw [Std.ExtTreeMap.getD_eq_getD_getElem?, hg] at hgetD
  simpa using hgetD

section Groups

variable (h : entries.Perm p.ids.toList)
include h

theorem mem_group_iff {g : List Address} (hg : (entries.foldl p.group ∅)[k]? = some g) :
    a ∈ g ↔ p.clusterOf a = some k := by
  rw [getElem?_foldl_group hg, mem_under h]

theorem exists_mem_group (ha : p.clusterOf a = some k) :
    ∃ g, (entries.foldl p.group ∅)[k]? = some g ∧ a ∈ g := by
  have hk := (mem_groups_iff h).mpr ⟨a, ha⟩
  have hg := Std.ExtTreeMap.getElem?_eq_some_getElem hk
  exact ⟨_, hg, (mem_group_iff h hg).mpr ha⟩

theorem group_ne_nil {g : List Address} (hg : (entries.foldl p.group ∅)[k]? = some g) : g ≠ [] := by
  have hk : k ∈ entries.foldl p.group ∅ := by
    rw [Std.ExtTreeMap.mem_iff_isSome_getElem?, hg]
    rfl
  obtain ⟨a, ha⟩ := (mem_groups_iff h).mp hk
  exact List.ne_nil_of_mem ((mem_group_iff h hg).mpr ha)

theorem mem_flatMap_groups :
    a ∈ (entries.foldl p.group ∅).toList.flatMap Prod.snd ↔ p.contains a = true := by
  rw [← exists_clusterOf_iff, List.mem_flatMap]
  constructor
  · rintro ⟨⟨k, g⟩, hg, ha⟩
    have hg := Std.ExtTreeMap.mem_toList_iff_getElem?_eq_some.mp hg
    exact ⟨k, (mem_group_iff h hg).mp ha⟩
  · rintro ⟨k, ha⟩
    obtain ⟨g, hg, ha⟩ := exists_mem_group h ha
    exact ⟨(k, g), Std.ExtTreeMap.mem_toList_iff_getElem?_eq_some.mpr hg, ha⟩

theorem nodup_flatMap_groups : ((entries.foldl p.group ∅).toList.flatMap Prod.snd).Nodup := by
  refine List.nodup_flatMap.mpr ⟨?_, ?_⟩
  · rintro ⟨k, g⟩ hg
    rw [getElem?_foldl_group (Std.ExtTreeMap.mem_toList_iff_getElem?_eq_some.mp hg)]
    exact nodup_under h
  · refine Std.ExtTreeMap.distinct_keys_toList.imp_of_mem ?_
    rintro ⟨k, g⟩ ⟨k', g'⟩ hg hg' hne a ha ha'
    -- the key of a group is the cluster of any address in it, so two groups with one in common are one
    have hk := (mem_group_iff h (Std.ExtTreeMap.mem_toList_iff_getElem?_eq_some.mp hg)).mp ha
    have hk' := (mem_group_iff h (Std.ExtTreeMap.mem_toList_iff_getElem?_eq_some.mp hg')).mp ha'
    rw [hk, Option.some_inj] at hk'
    exact hne (Std.LawfulEqCmp.compare_eq_iff_eq.mpr hk')

/-- The groups are the same in whatever order the addresses come, up to the order within a group. -/
theorem Numbered.grouped (hp : p.Numbered) : p.Grouped (entries.foldl p.group ∅) where
  mem_iff k := by rw [mem_groups_iff h, ← hp.mem_roots, mem_roots_iff_parent?]
  ne_nil := group_ne_nil h
  clusterOf_iff hg _ := mem_group_iff h hg
  listed _ := mem_flatMap_groups h
  nodup := nodup_flatMap_groups h

end Groups

end Partition

/-- In every session all ways to read the clusters agree. A search answers with the number that walking to
the root gives, and neither it nor shortening all ways changes the cluster of any address; once all ways
are shortened, the parent of an address's number stands for its cluster, and nothing is left to shorten.
The groups list each registered address once, under the number that stands for its cluster. -/
theorem Session.Reachable.readers_agree {β : Type} [WriteBatch β] [LawfulBatch β]
    {usable : Call → Prop} {s : Session β} (h : Reachable usable s) :
    let p := s.partition
    let finalized := (s.perform .finalize).2
    (∀ a, p.contains a = true → ∃ i r, p.ids[a]? = some i ∧ p.clusterOf a = some r ∧
      (s.perform (.find a)).1 = .ok (some r) ∧
      finalized.partition.ids[a]? = some i ∧ finalized.partition.parent? i = some r) ∧
    (∀ a b, (s.perform (.find a)).2.partition.clusterOf b = p.clusterOf b) ∧
    (∀ b, finalized.partition.clusterOf b = p.clusterOf b) ∧
    (finalized.perform .finalize).2 = finalized ∧
    p.Grouped p.clusters ∧
    ∀ entries : List (Address × Nat), entries.Perm p.ids.toList →
      p.Grouped (entries.foldl p.group ∅) := by
  intro p finalized
  have hp : p.Numbered := h.byRank.memory.toNumbered
  have hfinalized : finalized = s.replace p.finalize := rfl
  refine ⟨fun a ha => ?_, fun a b => ?_, hp.finalize.clusterOf_eq, ?_, hp.grouped (.refl _),
    fun _ h => hp.grouped h⟩
  · obtain ⟨i, hi⟩ := Partition.contains_iff.mp ha
    obtain ⟨r, hr⟩ := Partition.exists_clusterOf_iff.mpr ha
    refine ⟨i, r, hi, hr, ?_, hi, ?_⟩
    · rw [perform_find, show s.partition.clusterOf a = _ from hr]
      rfl
    · rw [← hr]
      exact hp.parent?_finalize hi
  · exact (Workspace.find_alike (w := s.workspace) hp.toSound rfl).clusterOf_eq b
  · exact congrArg s.replace hp.finalize_finalize

namespace Session

/-- The way from the last number is two steps long. -/
theorem Reachable.readers_agree_fourRead :
    let finalized := (fourRead.perform .finalize).2
    fourRead.partition.parent? 3 = some 2 ∧ fourRead.partition.clusterOf ⟨"w"⟩ = some 0 ∧
      (fourRead.perform (.find ⟨"w"⟩)).1 = .ok (some 0) ∧ finalized.partition.parent? 3 = some 0 ∧
      (finalized.perform .finalize).2 = finalized ∧
      fourNumbered.Grouped (fourNumbered.ids.toList.reverse.foldl fourNumbered.group ∅) := by
  intro finalized
  obtain ⟨hread, -, -, hagain, -, hgroups⟩ := reachable_fourRead.readers_agree
  rw [partition_fourRead] at hread hgroups ⊢
  have hw : fourNumbered.ids[(⟨"w"⟩ : Address)]? = some 3 := by rfl
  have hcluster : fourNumbered.clusterOf ⟨"w"⟩ = some 0 := by rfl
  obtain ⟨i, r, hi, hr, hfind, -, hparent⟩ := hread ⟨"w"⟩ (Partition.contains_iff.mpr ⟨3, hw⟩)
  obtain rfl := Option.some.inj (hw.symm.trans hi)
  obtain rfl := Option.some.inj (hcluster.symm.trans hr)
  exact ⟨by rfl, hcluster, hfind, hparent, hagain, hgroups _ (List.reverse_perm _)⟩

end Session

end Cospend
