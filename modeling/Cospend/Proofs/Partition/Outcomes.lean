import Cospend.Partition.Workspace
import Cospend.Proofs.Failure
import Cospend.Proofs.Partition.Sound

/-!
# Outcomes of operations

What an operation answers, and the partition that it leaves, is decided by the partition alone. Finding
leaves the trees as they are; merging joins two trees if the addresses are in different ones.
-/

namespace Cospend

namespace Partition

variable {p q : Partition} {a : Address} {r : Nat}

theorem Sound.clusterOf_lt (hp : p.Sound) (h : p.clusterOf a = some r) : r < p.size := by
  obtain ⟨i, hi, rfl⟩ := Option.map_eq_some_iff.mp h
  exact hp.forest.root_lt (hp.ids_lt hi)

theorem Sound.next_clusterOf (hp : p.Sound) (h : p.clusterOf a = some r) : p.forest.next r = r := by
  obtain ⟨i, -, rfl⟩ := Option.map_eq_some_iff.mp h
  exact hp.forest.next_root i

theorem clusterOf_eq_none_iff : p.clusterOf a = none ↔ p.ids[a]? = none := Option.map_eq_none_iff

theorem Sound.link_fits (hp : p.Sound) {b : Address} {x y : Nat} {l : Forest.Link}
    (hl : p.forest.chooseLink x y = .ok l) (ha : p.clusterOf a = some x) (hb : p.clusterOf b = some y)
    (hne : x ≠ y) : l.Fits p.forest :=
  Forest.chooseLink_fits hl (hp.next_clusterOf ha) (hp.next_clusterOf hb) (hp.clusterOf_lt ha)
    (hp.clusterOf_lt hb) hne

/-- How merging two addresses ends: the answer, and the partition afterwards. -/
inductive Merged (p : Partition) (a b : Address) :
    Except (Failure PartitionError) Nat → Partition → Prop
  | first {q : Partition} (ha : p.clusterOf a = none) (hq : Alike q p) :
      Merged p a b (.error (.error (.unregistered a))) q
  | second {x : Nat} {q : Partition} (ha : p.clusterOf a = some x) (hb : p.clusterOf b = none)
      (hq : Alike q p) : Merged p a b (.error (.error (.unregistered b))) q
  | same {x : Nat} {q : Partition} (ha : p.clusterOf a = some x) (hb : p.clusterOf b = some x)
      (hq : Alike q p) : Merged p a b (.ok x) q
  | full {x y : Nat} {e : Abort} {q : Partition} (ha : p.clusterOf a = some x)
      (hb : p.clusterOf b = some y) (hne : x ≠ y) (he : p.forest.chooseLink x y = .error e)
      (hq : Alike q p) : Merged p a b (.error (.abort e)) q
  | linked {x y : Nat} {l : Forest.Link} {q : Partition} (ha : p.clusterOf a = some x)
      (hb : p.clusterOf b = some y) (hne : x ≠ y) (hl : p.forest.chooseLink x y = .ok l)
      (hq : Alike q p) : Merged p a b (.ok l.parent) { q with forest := q.forest.link l }

theorem Merged.of_alike {p' : Partition} {answer : Except (Failure PartitionError) Nat} {b : Address}
    (h : p.Merged a b answer q) (hp : Alike p p') : p'.Merged a b answer q := by
  cases h with
  | first ha hq => exact .first (hp.clusterOf_eq a ▸ ha) (hq.trans hp)
  | second ha hb hq => exact .second (hp.clusterOf_eq a ▸ ha) (hp.clusterOf_eq b ▸ hb) (hq.trans hp)
  | same ha hb hq => exact .same (hp.clusterOf_eq a ▸ ha) (hp.clusterOf_eq b ▸ hb) (hq.trans hp)
  | full ha hb hne he hq =>
      exact .full (hp.clusterOf_eq a ▸ ha) (hp.clusterOf_eq b ▸ hb) hne
        (hp.forest.chooseLink_eq _ _ ▸ he) (hq.trans hp)
  | linked ha hb hne hl hq =>
      exact .linked (hp.clusterOf_eq a ▸ ha) (hp.clusterOf_eq b ▸ hb) hne
        (hp.forest.chooseLink_eq _ _ ▸ hl) (hq.trans hp)

theorem Merged.ids_eq {answer : Except (Failure PartitionError) Nat} {b : Address}
    (h : p.Merged a b answer q) : q.ids = p.ids := by
  cases h with
  | first _ hq | second _ _ hq | same _ _ hq | full _ _ _ _ hq | linked _ _ _ _ hq => exact hq.ids_eq

theorem Merged.alike_of_error {e : Failure PartitionError} {b : Address}
    (h : p.Merged a b (.error e) q) : Alike q p := by
  cases h with
  | first _ hq | second _ _ hq | full _ _ _ _ hq => exact hq

theorem Merged.sound {answer : Except (Failure PartitionError) Nat} {b : Address}
    (h : p.Merged a b answer q) (hp : p.Sound) : q.Sound := by
  cases h with
  | first _ hq | second _ _ hq | same _ _ hq | full _ _ _ _ hq => exact hq.sound hp
  | linked ha hb hne hl hq =>
      exact (hq.sound hp).link ((hp.link_fits hl ha hb hne).of_alike hq.forest.symm)

/-- Merging is abandoned for two clusters whose roots have the greatest rank, and for no others. -/
theorem Merged.aborts_iff {answer : Except (Failure PartitionError) Nat} {b : Address} {e : Abort}
    (h : p.Merged a b answer q) : answer = .error (.abort e) ↔ e = .addOverflow ∧
      ∃ x y, p.clusterOf a = some x ∧ p.clusterOf b = some y ∧ x ≠ y ∧
        p.forest.rankOf x = Forest.maxRank ∧ p.forest.rankOf y = Forest.maxRank := by
  cases h with
  | full ha hb hne he _ =>
      obtain ⟨hx, hy, rfl⟩ := Forest.chooseLink_eq_error.mp he
      constructor
      · intro he
        cases he
        exact ⟨rfl, _, _, ha, hb, hne, hx, hy⟩
      · rintro ⟨rfl, -⟩
        rfl
  | linked ha hb hne hl _ =>
      refine ⟨nofun, ?_⟩
      rintro ⟨-, x, y, ha', hb', -, hx, hy⟩
      cases ha.symm.trans ha'
      cases hb.symm.trans hb'
      rw [Forest.chooseLink_eq_error.mpr ⟨hx, hy, rfl⟩] at hl
      cases hl
  | _ => refine ⟨nofun, ?_⟩; simp_all

/-- The answer is decided, and the partition afterwards up to the ways to the roots. -/
theorem Merged.unique {q' : Partition} {answer answer' : Except (Failure PartitionError) Nat}
    {b : Address} (hp : p.Sound) (h : p.Merged a b answer q) (h' : p.Merged a b answer' q') :
    answer = answer' ∧ Alike q q' := by
  cases h with
  | first ha hq =>
      cases h' with
      | first _ hq' => exact ⟨rfl, hq.trans hq'.symm⟩
      | _ => simp_all
  | second ha hb hq =>
      cases h' with
      | second _ _ hq' => exact ⟨rfl, hq.trans hq'.symm⟩
      | _ => simp_all
  | same ha hb hq =>
      cases h' with
      | same ha' _ hq' => exact ⟨by rw [Option.some.inj (ha.symm.trans ha')], hq.trans hq'.symm⟩
      | _ => simp_all
  | full ha hb hne he hq =>
      cases h' with
      | full ha' hb' _ he' hq' =>
          obtain rfl := Option.some.inj (ha.symm.trans ha')
          obtain rfl := Option.some.inj (hb.symm.trans hb')
          exact ⟨by rw [Except.error.inj (he.symm.trans he')], hq.trans hq'.symm⟩
      | _ => simp_all
  | linked ha hb hne hl hq =>
      cases h' with
      | linked ha' hb' _ hl' hq' =>
          obtain rfl := Option.some.inj (ha.symm.trans ha')
          obtain rfl := Option.some.inj (hb.symm.trans hb')
          obtain rfl := Except.ok.inj (hl.symm.trans hl')
          have hfits := (hp.link_fits hl ha hb hne).of_alike hq.forest.symm
          exact ⟨rfl, (hq.trans hq'.symm).link hfits⟩
      | _ => simp_all

end Partition

namespace Workspace

variable {β : Type} [WriteBatch β] {w : Workspace β} {a b : Address}

theorem register_of_some {i : Nat} (h : w.partition.ids[a]? = some i) : register a w = (.ok i, w) := by
  simp only [register, h]

theorem register_of_none (h : w.partition.ids[a]? = none)
    (hroom : w.partition.size + 1 < Partition.capacityLimit) :
    register a w = (.ok w.partition.size, w.add a) := by
  simp only [register, h]
  exact if_neg (Nat.not_le_of_lt hroom)

theorem register_of_full (h : w.partition.ids[a]? = none)
    (hroom : ¬ w.partition.size + 1 < Partition.capacityLimit) :
    register a w = (.error (.abort .exhausted), w) := by
  simp only [register, h]
  exact if_pos (Nat.le_of_not_lt hroom)

theorem find_of_some {i : Nat} (h : w.partition.ids[a]? = some i) :
    find a w = (.ok (w.partition.forest.root i), w.shorten (w.partition.forest.compress i)) := by
  simp only [find, h]
  rfl

theorem find_of_none (h : w.partition.ids[a]? = none) :
    find a w = (.error (.error (.unregistered a)), w) := by
  simp only [find, h]

theorem find_alike (hw : w.partition.Sound) {r : Except (Failure PartitionError) Nat}
    {w' : Workspace β} (h : find a w = (r, w')) : Partition.Alike w'.partition w.partition := by
  cases hi : w.partition.ids[a]? with
  | none =>
      rw [find_of_none hi] at h
      cases h
      exact hw.alike
  | some i =>
      rw [find_of_some hi] at h
      cases h
      exact Partition.alike_of_forest (hw.forest.compress i)

theorem find_eq_ok {r : Nat} {w' : Workspace β} (h : find a w = (.ok r, w')) :
    w.partition.clusterOf a = some r := by
  cases hi : w.partition.ids[a]? with
  | none =>
      rw [find_of_none hi] at h
      cases h
  | some i =>
      rw [find_of_some hi] at h
      cases h
      rw [Partition.clusterOf, hi]
      rfl

theorem find_eq_error {e : Failure PartitionError} {w' : Workspace β}
    (h : find a w = (.error e, w')) :
    e = .error (.unregistered a) ∧ w.partition.clusterOf a = none ∧ w' = w := by
  cases hi : w.partition.ids[a]? with
  | none =>
      rw [find_of_none hi] at h
      cases h
      exact ⟨rfl, Partition.clusterOf_eq_none_iff.mpr hi, rfl⟩
  | some i =>
      rw [find_of_some hi] at h
      cases h

theorem union_merged (hw : w.partition.Sound) (a b : Address) :
    w.partition.Merged a b (union a b w).1 (union a b w).2.partition := by
  unfold union
  refine bind_cases (motive := fun (r : _ × Workspace β) => w.partition.Merged a b r.1 r.2.partition) ?_ ?_
  · intro e w' h
    obtain ⟨rfl, hnone, rfl⟩ := find_eq_error h
    exact .first hnone hw.alike
  · intro x w₁ h₁
    have ha := find_eq_ok h₁
    have hw₁ := find_alike hw h₁
    refine bind_cases (motive := fun (r : _ × Workspace β) => w.partition.Merged a b r.1 r.2.partition) ?_ ?_
    · intro e w' h
      obtain ⟨rfl, hnone, rfl⟩ := find_eq_error h
      exact .second ha (hw₁.clusterOf_eq b ▸ hnone) hw₁
    · intro y w₂ h₂
      have hb := hw₁.clusterOf_eq b ▸ find_eq_ok h₂
      have hw₂ := (find_alike (hw₁.sound hw) h₂).trans hw₁
      split
      · rename_i hxy
        exact .same ha (hxy ▸ hb) hw₂
      · rename_i hne
        unfold link
        rw [hw₂.forest.chooseLink_eq]
        cases hl : w.partition.forest.chooseLink x y with
        | error e => exact .full ha hb hne hl hw₂
        | ok l => exact .linked ha hb hne hl hw₂

/-! ## Partitions that are alike -/

section Alike

variable {w' : Workspace β}

theorem register_alike (h : Partition.Alike w.partition w'.partition) (a : Address) :
    (register a w).1 = (register a w').1 ∧
      Partition.Alike (register a w).2.partition (register a w').2.partition := by
  cases hi : w'.partition.ids[a]? with
  | none =>
      have hi' : w.partition.ids[a]? = none := h.ids_eq ▸ hi
      by_cases hroom : w'.partition.size + 1 < Partition.capacityLimit
      · rw [register_of_none hi hroom, register_of_none hi' (h.size_eq ▸ hroom), h.size_eq]
        exact ⟨rfl, h.add a⟩
      · rw [register_of_full hi hroom, register_of_full hi' (h.size_eq ▸ hroom)]
        exact ⟨rfl, h⟩
  | some i =>
      have hi' : w.partition.ids[a]? = some i := h.ids_eq ▸ hi
      rw [register_of_some hi, register_of_some hi']
      exact ⟨rfl, h⟩

theorem find_fst (w : Workspace β) (a : Address) :
    (find a w).1 = (w.partition.clusterOf a).elim (.error (.error (.unregistered a))) .ok := by
  cases hi : w.partition.ids[a]? with
  | none =>
      rw [find_of_none hi, Partition.clusterOf, hi]
      rfl
  | some i =>
      rw [find_of_some hi, Partition.clusterOf, hi]
      rfl

theorem find_alike_of_alike (h : Partition.Alike w.partition w'.partition)
    (hw' : w'.partition.Sound) (a : Address) :
    (find a w).1 = (find a w').1 ∧
      Partition.Alike (find a w).2.partition (find a w').2.partition := by
  constructor
  · rw [find_fst, find_fst, h.clusterOf_eq]
  · exact (find_alike (h.sound hw') rfl).trans (h.trans (find_alike hw' rfl).symm)

theorem union_alike (h : Partition.Alike w.partition w'.partition) (hw' : w'.partition.Sound)
    (a b : Address) :
    (union a b w).1 = (union a b w').1 ∧
      Partition.Alike (union a b w).2.partition (union a b w').2.partition :=
  ((union_merged (h.sound hw') a b).of_alike h).unique hw' (union_merged hw' a b)

end Alike

end Workspace

end Cospend
