import Cospend.Proofs.Partition.Classes
import Cospend.Proofs.Partition.Edits

/-!
# Addresses that stay together

No operation divides a cluster, so addresses that were put together stay together. To put them together
once more changes nothing but the ways to the roots, and nothing but these is staged.
-/

namespace Cospend

namespace Partition

variable {p q q' : Partition} {a : Address} {as : List Address}

/-- The addresses of `p` are registered in `q`, and no cluster of `p` is divided there. -/
def Refines (p q : Partition) : Prop :=
  ∃ image : Nat → Nat, ∀ a r, p.clusterOf a = some r → q.clusterOf a = some (image r)

/-- The addresses are registered and in one cluster. -/
def Together (p : Partition) (as : List Address) : Prop := ∃ r, ∀ a ∈ as, p.clusterOf a = some r

theorem Refines.of_eq (h : q.clusterOf = p.clusterOf) : p.Refines q :=
  ⟨id, fun a r ha => by rw [h]; exact ha⟩

theorem Refines.trans (h : p.Refines q) (h' : q.Refines q') : p.Refines q' := by
  obtain ⟨image, himage⟩ := h
  obtain ⟨image', himage'⟩ := h'
  exact ⟨image' ∘ image, fun a r ha => himage' a _ (himage a r ha)⟩

theorem Alike.refines (h : Alike q p) : p.Refines q := .of_eq (clusterOf_of_alike h)

theorem Sound.refines_add (hp : p.Sound) (ha : p.ids[a]? = none) : p.Refines (p.add a) :=
  ⟨id, fun _ _ hb => clusterOf_add_of_some hp ha hb⟩

theorem Sound.refines_link (hp : p.Sound) {l : Forest.Link} (hl : l.Fits p.forest) :
    p.Refines { p with forest := p.forest.link l } := by
  refine ⟨fun r => if r = l.child then l.parent else r, fun a r ha => ?_⟩
  rw [clusterOf_link hp hl, ha, Option.map_some]

theorem Together.mono (h : p.Together as) (hpq : p.Refines q) : q.Together as := by
  obtain ⟨r, hr⟩ := h
  obtain ⟨image, himage⟩ := hpq
  exact ⟨image r, fun a ha => himage a r (hr a ha)⟩

end Partition

/-- The batch with the roots of nodes staged as their parents. -/
def Pending.stageRoots {β : Type} [WriteBatch β] (b : Pending β) (f : Forest) (nodes : List Nat) :
    Pending β :=
  nodes.foldl (fun b i => b.stage (.parent i) (AddressId.ofNat (f.root i))) b

namespace Workspace

variable {β : Type} [WriteBatch β] {w w' w'' : Workspace β} {a b anchor : Address}
variable {as : List Address} {r : Nat}

/-! ## Clusters are not divided -/

theorem Edits.refines (h : Edits w w') (hw : w.partition.Sound) :
    w.partition.Refines w'.partition := by
  induction h with
  | refl => exact .of_eq rfl
  | add h ha _ ih => exact ih.trans ((h.sound hw).refines_add ha)
  | shorten h i ih =>
      exact ih.trans (Partition.alike_of_forest ((h.sound hw).forest.compress i)).refines
  | join h hl _ ih => exact ih.trans ((h.sound hw).refines_link hl)

theorem contains_of_register {i : Nat} (h : register a w = (.ok i, w')) :
    w'.partition.contains a = true := by
  cases hi : w.partition.ids[a]? with
  | some j =>
      rw [register_of_some hi] at h
      cases h
      exact Partition.contains_iff.mpr ⟨i, hi⟩
  | none =>
      by_cases hroom : w.partition.size + 1 < Partition.capacityLimit
      · rw [register_of_none hi hroom] at h
        cases h
        exact Partition.contains_add.mpr (.inr rfl)
      · rw [register_of_full hi hroom] at h
        cases h

theorem together_of_unionAll (hw : w.partition.Sound) (ha : w.partition.clusterOf anchor = some r)
    {u : Unit} (h : unionAll anchor as w = (.ok u, w')) :
    w'.partition.Together (anchor :: as) := by
  induction as generalizing w r with
  | nil =>
      cases h
      exact ⟨r, by simpa using ha⟩
  | cons a as ih =>
      obtain ⟨x, w₁, hunion, hrest⟩ := bind_ok_cases h
      have hmerged := union_merged hw anchor a
      have hw₁ := (edits_union hw anchor a).sound hw
      rw [hunion] at hmerged hw₁
      obtain ⟨hanchor, hx⟩ := hmerged.clusterOf_of_ok hw
      have hedits := edits_unionAll hw₁ anchor as
      rw [hrest] at hedits
      obtain ⟨image, himage⟩ := hedits.refines hw₁
      -- the anchor is in one cluster with the rest, and with `a` before and so after
      obtain ⟨s, hs⟩ := ih hw₁ hanchor hrest
      have hsame := hs anchor List.mem_cons_self
      rw [himage anchor x hanchor] at hsame
      refine ⟨s, fun b hb => ?_⟩
      rcases List.mem_cons.mp hb with rfl | hb
      · exact hs b List.mem_cons_self
      · rcases List.mem_cons.mp hb with rfl | hb
        · rw [← hsame]
          exact himage b x hx
        · exact hs b (List.mem_cons_of_mem _ hb)

theorem together_of_cospend (hw : w.partition.Sound) {u : Unit} (h : cospend as w = (.ok u, w')) :
    w'.partition.Together as := by
  obtain ⟨_, w₁, hregister, hunion⟩ := bind_ok_cases h
  cases as with
  | nil => exact ⟨0, fun a ha => by cases ha⟩
  | cons anchor others =>
      have hw₁ := (edits_registerAll hw (anchor :: others)).sound hw
      rw [hregister] at hw₁
      obtain ⟨i, w₀, hanchor, hothers⟩ := bind_ok_cases hregister
      have hw₀ := (edits_register w anchor).sound hw
      rw [hanchor] at hw₀
      have hedits := edits_registerAll hw₀ others
      rw [hothers] at hedits
      obtain ⟨r, hr⟩ := Partition.exists_clusterOf_iff.mpr (contains_of_register hanchor)
      obtain ⟨image, himage⟩ := hedits.refines hw₀
      exact together_of_unionAll hw₁ (himage anchor r hr) hunion

/-! ## Putting together what is together -/

/-- From `w` to `w'` only ways were shortened, and what was staged is the root of some nodes as their
parent. -/
structure Tidied (w w' : Workspace β) : Prop where
  alike : Partition.Alike w'.partition w.partition
  pending : ∃ moved, (∀ i ∈ moved, i < w.partition.size) ∧
    w'.pending = w.pending.stageRoots w.partition.forest moved

theorem Tidied.refl (hw : w.partition.Sound) : Tidied w w := ⟨hw.alike, [], by simp, rfl⟩

theorem Tidied.trans (h : Tidied w w') (h' : Tidied w' w'') : Tidied w w'' := by
  obtain ⟨moved, hlt, hpending⟩ := h.pending
  obtain ⟨moved', hlt', hpending'⟩ := h'.pending
  refine ⟨h'.alike.trans h.alike, moved ++ moved', fun i hi => ?_, ?_⟩
  · rcases List.mem_append.mp hi with hi | hi
    · exact hlt i hi
    · rw [← h.alike.size_eq]
      exact hlt' i hi
  · have hroot : w'.partition.forest.root = w.partition.forest.root := funext h.alike.forest.root_eq
    rw [hpending', hpending, Pending.stageRoots, Pending.stageRoots, Pending.stageRoots,
      List.foldl_append, hroot]

theorem tidied_find (hw : w.partition.Sound) (a : Address) : Tidied w (find a w).2 := by
  cases hi : w.partition.ids[a]? with
  | none =>
      rw [find_of_none hi]
      exact .refl hw
  | some i =>
      have hmoved : ∀ j ∈ (w.partition.forest.compress i).moved, _ :=
        fun j hj => hw.forest.compress_moved hj
      refine ⟨find_alike hw rfl, (w.partition.forest.compress i).moved, fun j hj => ?_, ?_⟩
      · obtain ⟨hroot, hne⟩ := hmoved j hj
        exact Forest.lt_size_of_root_ne (by rw [hroot]; exact hne.symm)
      · rw [find_of_some hi]
        refine List.foldl_ext _ _ _ fun b j hj => ?_
        rw [(hmoved j hj).1]
        rfl

theorem find_of_clusterOf (ha : w.partition.clusterOf a = some r) :
    find a w = (.ok r, (find a w).2) := by
  have hanswer := find_fst w a
  rw [ha] at hanswer
  exact Prod.ext hanswer rfl

theorem union_of_together (hw : w.partition.Sound) (ha : w.partition.clusterOf a = some r)
    (hb : w.partition.clusterOf b = some r) : ∃ w', union a b w = (.ok r, w') ∧ Tidied w w' := by
  have hfirst := tidied_find hw a
  have hw₁ := hfirst.alike.sound hw
  rw [← hfirst.alike.clusterOf_eq] at hb
  refine ⟨_, ?_, hfirst.trans (tidied_find hw₁ b)⟩
  rw [union, bind_of_ok (find_of_clusterOf ha), bind_of_ok (find_of_clusterOf hb), if_pos rfl]
  rfl

theorem registerAll_of_registered (h : ∀ a ∈ as, w.partition.contains a = true) :
    registerAll as w = (.ok (), w) := by
  induction as with
  | nil => rfl
  | cons a as ih =>
      obtain ⟨ha, has⟩ := List.forall_mem_cons.mp h
      obtain ⟨i, hi⟩ := Partition.contains_iff.mp ha
      rw [registerAll, bind_of_ok (register_of_some hi)]
      exact ih has

theorem unionAll_of_together (hw : w.partition.Sound) (h : w.partition.Together (anchor :: as)) :
    ∃ w', unionAll anchor as w = (.ok (), w') ∧ Tidied w w' := by
  induction as generalizing w with
  | nil => exact ⟨w, rfl, .refl hw⟩
  | cons a as ih =>
      obtain ⟨r, hr⟩ := h
      obtain ⟨w₁, hunion, hfirst⟩ :=
        union_of_together hw (hr anchor (by simp)) (hr a (by simp))
      have hrest : w₁.partition.Together (anchor :: as) := by
        refine Partition.Together.mono ⟨r, fun b hb => hr b ?_⟩ hfirst.alike.refines
        rcases List.mem_cons.mp hb with rfl | hb <;> simp [*]
      obtain ⟨w₂, hall, hsecond⟩ := ih (hfirst.alike.sound hw) hrest
      refine ⟨w₂, ?_, hfirst.trans hsecond⟩
      rw [unionAll, bind_of_ok hunion]
      exact hall

theorem cospend_of_together (hw : w.partition.Sound) (h : w.partition.Together as) :
    ∃ w', cospend as w = (.ok (), w') ∧ Tidied w w' := by
  have hregistered : registerAll as w = (.ok (), w) := by
    obtain ⟨r, hr⟩ := h
    exact registerAll_of_registered fun a ha => Partition.exists_clusterOf_iff.mp ⟨r, hr a ha⟩
  unfold cospend
  rw [bind_of_ok hregistered]
  cases as with
  | nil => exact ⟨w, rfl, .refl hw⟩
  | cons anchor others => exact unionAll_of_together hw h

end Workspace

end Cospend
