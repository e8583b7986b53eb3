import Cospend.Proofs.Forest.Weight
import Cospend.Proofs.Partition.Edits
import Cospend.Proofs.Partition.Overlay

/-!
# Room for addresses to come

An address is not registered if there is no memory left for it, and two clusters are not merged if their roots
have the greatest rank. Neither happens to a balanced partition as long as all addresses ever registered are among
as few as there is memory for.
-/

namespace Cospend

namespace Partition

variable {owners : List Address} {p q : Partition} {a b : Address}

/-- The owners can be registered and merged, whichever of them are registered so far. -/
structure Roomy (owners : List Address) (p : Partition) : Prop extends Numbered p where
  balanced : p.forest.Balanced
  owned {a : Address} (h : p.contains a = true) : a ∈ owners
  room : owners.length < capacityLimit

namespace Roomy

theorem of_alike (hp : p.Roomy owners) (h : Alike q p) : q.Roomy owners where
  toNumbered := h.numbered hp.toNumbered
  balanced := hp.balanced.of_alike h.forest
  owned ha := hp.owned (by rwa [contains, ← h.ids_eq])
  room := hp.room

theorem checkpointed (hp : p.Roomy owners) (height : Option Height) :
    (p.checkpointed height).Roomy owners where
  toNumbered := hp.toNumbered.checkpointed height
  balanced := hp.balanced
  owned := hp.owned
  room := hp.room

theorem size_lt_of_new (hp : p.Roomy owners) (ha : a ∈ owners) (hnew : p.ids[a]? = none) :
    p.size + 1 < capacityLimit := by
  have hnot : a ∉ p.ids.keys := by
    rw [Std.ExtTreeMap.mem_keys, Std.ExtTreeMap.mem_iff_isSome_getElem?, hnew]
    exact Bool.false_ne_true
  have hnodup : (a :: p.ids.keys).Nodup := by
    refine List.nodup_cons.mpr ⟨hnot, Std.ExtTreeMap.distinct_keys.imp fun hne heq => ?_⟩
    exact hne (Std.LawfulEqCmp.compare_eq_iff_eq.mpr heq)
  have hsub : a :: p.ids.keys ⊆ owners := by
    refine List.cons_subset.mpr ⟨ha, fun b hb => hp.owned ?_⟩
    exact Std.ExtTreeMap.mem_iff_contains.mp (Std.ExtTreeMap.mem_keys.mp hb)
  -- the owner and the registered addresses are different owners
  have hlength := (hnodup.subperm hsub).length_le
  rw [List.length_cons, Std.ExtTreeMap.length_keys, hp.ids_size] at hlength
  exact Nat.lt_of_le_of_lt hlength hp.room

theorem merged_ok (hp : p.Roomy owners) {answer : Except (Failure PartitionError) Nat}
    (h : p.Merged a b answer q) (ha : p.contains a = true) (hb : p.contains b = true) :
    ∃ r, answer = .ok r := by
  have hcluster {a : Address} (ha : p.contains a = true) : p.clusterOf a ≠ none := by
    obtain ⟨i, hi⟩ := contains_iff.mp ha
    rw [Ne, clusterOf_eq_none_iff, hi]
    nofun
  cases h with
  | first hnone _ => exact absurd hnone (hcluster ha)
  | second _ hnone _ => exact absurd hnone (hcluster hb)
  | @full x y e _ hx hy hne he _ =>
      -- no root of a balanced forest has the greatest rank
      have hsize : p.forest.size < UInt64.size := Nat.lt_trans hp.size_lt (by decide)
      obtain ⟨l, hl⟩ := hp.balanced.exists_link hsize (hp.clusterOf_lt hx) (hp.next_clusterOf hx) y
      rw [hl] at he
      cases he
  | same _ _ _ => exact ⟨_, rfl⟩
  | linked _ _ _ _ _ => exact ⟨_, rfl⟩

end Roomy

end Partition

namespace Workspace

variable {β : Type} [WriteBatch β] {owners as : List Address} {w w' : Workspace β} {a b : Address}

theorem Edits.balanced (h : Edits w w') (hw : w.partition.Sound) (hb : w.partition.forest.Balanced) :
    w'.partition.forest.Balanced := by
  induction h with
  | refl => exact hb
  | add h _ _ ih => exact ih.push (h.sound hw).forest
  | shorten h i ih => exact ih.of_alike ((h.sound hw).forest.compress i)
  | join h hl hchoose ih => exact ih.link (h.sound hw).forest hl hchoose

theorem Edits.roomy (h : Edits w w') (hw : w.partition.Roomy owners)
    (howned : ∀ a, w'.partition.contains a = true → a ∈ owners) : w'.partition.Roomy owners :=
  ⟨h.numbered hw.toNumbered, h.balanced hw.toSound hw.balanced, howned _, hw.room⟩

/-- The operation succeeds, and the addresses that are registered afterwards are those that were registered
before and the given ones. -/
def Registers (w : Workspace β) (as : List Address) {α : Type} (x : Work β α) : Prop :=
  ∃ r w', x w = (.ok r, w') ∧ Edits w w' ∧
    ∀ b, w'.partition.contains b = true ↔ w.partition.contains b = true ∨ b ∈ as

theorem register_ok (hw : w.partition.Roomy owners) (ha : a ∈ owners) : w.Registers [a] (register a) := by
  have hedits := edits_register w a
  cases hi : w.partition.ids[a]? with
  | some i =>
      rw [register_of_some hi] at hedits
      refine ⟨i, w, register_of_some hi, hedits, fun b => (or_iff_left_of_imp fun hb => ?_).symm⟩
      rw [List.mem_singleton.mp hb]
      exact Partition.contains_iff.mpr ⟨i, hi⟩
  | none =>
      have hregister := register_of_none hi (hw.size_lt_of_new ha hi)
      rw [hregister] at hedits
      refine ⟨_, _, hregister, hedits, fun b => ?_⟩
      rw [List.mem_singleton, eq_comm (a := b)]
      exact Partition.contains_add

theorem union_ok (hw : w.partition.Roomy owners) (ha : w.partition.contains a = true)
    (hb : w.partition.contains b = true) : w.Registers [] (union a b) := by
  have hmerged := union_merged hw.toSound a b
  obtain ⟨r, hr⟩ := hw.merged_ok hmerged ha hb
  refine ⟨r, (union a b w).2, Prod.ext hr rfl, edits_union hw.toSound a b, fun c => ?_⟩
  rw [Partition.contains, Partition.contains, hmerged.ids_eq]
  simp

theorem Registers.bind {α δ : Type} {x : Work β α} {f : α → Work β δ} {bs : List Address}
    (h : w.Registers as x) (hf : ∀ r w', Edits w w' →
      (∀ b, w'.partition.contains b = true ↔ w.partition.contains b = true ∨ b ∈ as) →
        w'.Registers bs (f r)) : w.Registers (as ++ bs) (x >>= f) := by
  obtain ⟨r, w₁, hx, hedits, hmem⟩ := h
  obtain ⟨r', w₂, hfr, hedits', hmem'⟩ := hf r w₁ hedits hmem
  refine ⟨r', w₂, (bind_of_ok hx).trans hfr, hedits.trans hedits', fun b => ?_⟩
  rw [hmem', hmem, List.mem_append, or_assoc]

theorem registerAll_ok (hw : w.partition.Roomy owners) (has : ∀ a ∈ as, a ∈ owners) :
    w.Registers as (registerAll as) := by
  induction as generalizing w with
  | nil => exact ⟨(), w, rfl, .refl, fun b => by simp⟩
  | cons a as ih =>
      obtain ⟨ha, has⟩ := List.forall_mem_cons.mp has
      refine (register_ok hw ha).bind fun _ w' hedits hmem => ih (hedits.roomy hw fun b hb => ?_) has
      rcases (hmem b).mp hb with hb | hb
      · exact hw.owned hb
      · exact List.mem_singleton.mp hb ▸ ha

theorem unionAll_ok (hw : w.partition.Roomy owners) (ha : w.partition.contains a = true)
    (has : ∀ b ∈ as, w.partition.contains b = true) : w.Registers [] (unionAll a as) := by
  induction as generalizing w with
  | nil => exact ⟨(), w, rfl, .refl, fun b => by simp⟩
  | cons b as ih =>
      obtain ⟨hb, has⟩ := List.forall_mem_cons.mp has
      refine (union_ok hw ha hb).bind fun _ w' hedits hmem => ?_
      have hkept (b : Address) : w'.partition.contains b = true ↔ w.partition.contains b = true := by
        simp [hmem b]
      refine ih (hedits.roomy hw fun b hb => hw.owned ((hkept b).mp hb)) ((hkept a).mpr ha) fun b hb => ?_
      exact (hkept b).mpr (has b hb)

theorem cospend_ok (hw : w.partition.Roomy owners) (has : ∀ a ∈ as, a ∈ owners) :
    ∃ w', cospend as w = (.ok (), w') ∧ w'.partition.Roomy owners := by
  have hroomy {w' : Workspace β} (hedits : Edits w w')
      (hmem : ∀ b, w'.partition.contains b = true ↔ w.partition.contains b = true ∨ b ∈ as) :
      w'.partition.Roomy owners :=
    hedits.roomy hw fun b hb => ((hmem b).mp hb).elim hw.owned (has b)
  have hcospend : w.Registers (as ++ []) (cospend as) := by
    refine (registerAll_ok hw has).bind fun _ w' hedits hmem => ?_
    have hregistered (b : Address) (hb : b ∈ as) : w'.partition.contains b = true :=
      (hmem b).mpr (.inr hb)
    cases as with
    | nil => exact ⟨(), w', rfl, .refl, fun b => by simp⟩
    | cons anchor others =>
        obtain ⟨hanchor, hothers⟩ := List.forall_mem_cons.mp hregistered
        exact unionAll_ok (hroomy hedits hmem) hanchor hothers
  obtain ⟨_, w', hok, hedits, hmem⟩ := hcospend
  rw [List.append_nil] at hmem
  exact ⟨w', hok, hroomy hedits hmem⟩

end Workspace

end Cospend
