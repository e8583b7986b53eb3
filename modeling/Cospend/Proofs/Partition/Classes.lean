import Cospend.Proofs.Partition.Cospend
import Mathlib.Logic.Relation

/-!
# What clusters and numbers mean

The clusters of a partition are the classes of an equivalence, namely the least one in which the
addresses that were put together are equivalent. The numbers of the addresses are their places in the
list of all addresses ever named, without those that were named before.
-/

namespace Cospend

namespace Partition

variable {p q : Partition} {R R' : Address → Address → Prop} {a b : Address} {r : Nat}
variable {as bs : List Address}

/-- Registered addresses are in one cluster exactly if they are equivalent in the least equivalence that
extends `R`, which relates registered addresses only. -/
structure Classes (R : Address → Address → Prop) (p : Partition) : Prop where
  together {a b : Address} (h : R a b) : ∃ r, p.clusterOf a = some r ∧ p.clusterOf b = some r
  related {a b : Address} {r : Nat} (ha : p.clusterOf a = some r) (hb : p.clusterOf b = some r) :
    Relation.EqvGen R a b

/-- The addresses are registered in the order of the list. -/
structure Ordered (as : List Address) (p : Partition) : Prop where
  ids_iff {a : Address} {i : Nat} : p.ids[a]? = some i ↔ as.eraseDups[i]? = some a
  size_eq : p.size = as.eraseDups.length

/-! ## Classes -/

theorem clusterOf_of_alike (h : Alike q p) : q.clusterOf = p.clusterOf := funext h.clusterOf_eq

theorem Classes.congr (h : p.Classes R) (hq : q.clusterOf = p.clusterOf) : q.Classes R := by
  constructor
  · intro a b hab
    rw [hq]
    exact h.together hab
  · intro a b r ha hb
    rw [hq] at ha hb
    exact h.related ha hb

/-- Another relation may take the place of the first if it holds of members of one cluster only and its
equivalence relates as much. -/
theorem Classes.of_le (h : p.Classes R) (hle : ∀ a b, R a b → Relation.EqvGen R' a b)
    (htogether : ∀ a b, R' a b → ∃ r, p.clusterOf a = some r ∧ p.clusterOf b = some r) :
    p.Classes R' where
  together hab := htogether _ _ hab
  related {a b r} ha hb := by
    have hR := h.related ha hb
    clear ha hb
    induction hR with
    | rel a b hab => exact hle a b hab
    | refl a => exact .refl a
    | symm a b _ ih => exact .symm a b ih
    | trans a b c _ _ ih ih' => exact .trans a b c ih ih'

theorem Classes.of_iff (h : p.Classes R) (hiff : ∀ a b, R' a b ↔ R a b) : p.Classes R' :=
  h.of_le (fun a b hab => .rel a b ((hiff a b).mpr hab)) fun a b hab => h.together ((hiff a b).mp hab)

theorem Classes.clusterOf_eq (h : p.Classes R) (hab : Relation.EqvGen R a b) :
    p.clusterOf a = p.clusterOf b := by
  induction hab with
  | rel a b hab =>
      obtain ⟨r, ha, hb⟩ := h.together hab
      rw [ha, hb]
  | refl a => rfl
  | symm a b _ ih => exact ih.symm
  | trans a b c _ _ ih ih' => exact ih.trans ih'

theorem exists_clusterOf_iff : (∃ r, p.clusterOf a = some r) ↔ p.contains a = true := by
  simp [contains_iff, clusterOf]

theorem Classes.clusterOf_eq_iff (h : p.Classes R) (ha : p.contains a = true) :
    p.clusterOf a = p.clusterOf b ↔ Relation.EqvGen R a b := by
  refine ⟨fun hab => ?_, h.clusterOf_eq⟩
  obtain ⟨r, ha⟩ := exists_clusterOf_iff.mpr ha
  exact h.related ha (hab ▸ ha)

theorem classes_empty : empty.Classes fun _ _ => False where
  together h := h.elim
  related {a _ _} ha _ := by
    have hnone : empty.clusterOf a = none := by
      rw [clusterOf_eq_none_iff]
      exact Std.ExtTreeMap.getElem?_empty
    rw [hnone] at ha
    cases ha

theorem clusterOf_add (hp : p.Sound) (a b : Address) :
    (p.add a).clusterOf b = if a = b then some p.size else p.clusterOf b := by
  have hroot : (p.add a).forest.root = p.forest.root := funext (Forest.root_push hp.forest 0)
  rw [clusterOf, hroot, ids_add]
  split
  · rw [Option.map_some]
    exact congrArg some (Forest.root_of_next_eq (Forest.next_of_size_le (Nat.le_refl _)))
  · rfl

theorem clusterOf_add_of_some (hp : p.Sound) (ha : p.ids[a]? = none) (hb : p.clusterOf b = some r) :
    (p.add a).clusterOf b = some r := by
  rw [clusterOf_add hp, if_neg]
  · exact hb
  · rintro rfl
    rw [clusterOf_eq_none_iff.mpr ha] at hb
    cases hb

/-- A new address is in a cluster of its own. -/
theorem Classes.add (h : p.Classes R) (hp : p.Sound) (ha : p.ids[a]? = none) : (p.add a).Classes R where
  together {b c} hbc := by
    obtain ⟨r, hb, hc⟩ := h.together hbc
    exact ⟨r, clusterOf_add_of_some hp ha hb, clusterOf_add_of_some hp ha hc⟩
  related {b c r} hb hc := by
    rw [clusterOf_add hp] at hb hc
    split at hb <;> split at hc
    · rw [← ‹a = b›, ← ‹a = c›]
      exact .refl a
    · cases hb
      exact absurd (hp.clusterOf_lt hc) (Nat.lt_irrefl _)
    · cases hc
      exact absurd (hp.clusterOf_lt hb) (Nat.lt_irrefl _)
    · exact h.related hb hc

theorem clusterOf_link (hp : p.Sound) {l : Forest.Link} (hl : l.Fits p.forest) (a : Address) :
    ({ p with forest := p.forest.link l } : Partition).clusterOf a =
      (p.clusterOf a).map fun r => if r = l.child then l.parent else r := by
  simp only [clusterOf, Option.map_map]
  refine congrArg (p.ids[a]?.map ·) (funext fun i => ?_)
  exact hp.forest.root_link hl i

/-- The members of two clusters are in one if these are linked, and nothing else changes. -/
theorem Classes.link (h : p.Classes R) (hp : p.Sound) {l : Forest.Link} {x y : Nat}
    (ha : p.clusterOf a = some x) (hb : p.clusterOf b = some y) (hne : x ≠ y)
    (hl : p.forest.chooseLink x y = .ok l) :
    ({ p with forest := p.forest.link l } : Partition).Classes fun c d => R c d ∨ c = a ∧ d = b := by
  have hfits := hp.link_fits hl ha hb hne
  have hroots := Forest.chooseLink_roots hl
  constructor
  · rintro c d (hcd | ⟨rfl, rfl⟩)
    · obtain ⟨r, hc, hd⟩ := h.together hcd
      exact ⟨_, by rw [clusterOf_link hp hfits, hc, Option.map_some],
        by rw [clusterOf_link hp hfits, hd, Option.map_some]⟩
    · rw [clusterOf_link hp hfits, clusterOf_link hp hfits, ha, hb, Option.map_some, Option.map_some]
      refine ⟨l.parent, congrArg some ?_, congrArg some ?_⟩ <;> split <;> omega
  · intro c d r hc hd
    rw [clusterOf_link hp hfits] at hc hd
    obtain ⟨s, hs, hc⟩ := Option.map_eq_some_iff.mp hc
    obtain ⟨t, ht, hd⟩ := Option.map_eq_some_iff.mp hd
    have hold : ∀ {c d}, Relation.EqvGen R c d → Relation.EqvGen (fun c d => R c d ∨ c = a ∧ d = b) c d :=
      Relation.EqvGen.mono (fun _ _ => .inl) _ _
    by_cases hst : s = t
    · exact hold (h.related hs (hst ▸ ht))
    · -- Both clusters are among the two that are linked, and their members are equivalent to `a`.
      have hmember : ∀ {c s}, p.clusterOf c = some s → s = x ∨ s = y →
          Relation.EqvGen (fun c d => R c d ∨ c = a ∧ d = b) c a := by
        rintro c s hs (rfl | rfl)
        · exact hold (h.related hs ha)
        · exact .trans _ b _ (hold (h.related hs hb)) (.symm _ _ (.rel _ _ (.inr ⟨rfl, rfl⟩)))
      have hboth : (s = x ∨ s = y) ∧ (t = x ∨ t = y) := by
        split at hc <;> split at hd <;> omega
      exact .trans _ a _ (hmember hs hboth.1) (.symm _ _ (hmember ht hboth.2))

/-- The answer is the root of both addresses afterwards. -/
theorem Merged.clusterOf_of_ok {x : Nat} (hm : p.Merged a b (.ok x) q) (hp : p.Sound) :
    q.clusterOf a = some x ∧ q.clusterOf b = some x := by
  cases hm with
  | same ha hb hq => exact ⟨by rw [hq.clusterOf_eq, ha], by rw [hq.clusterOf_eq, hb]⟩
  | linked ha hb hne hl hq =>
      have hfits := (hp.link_fits hl ha hb hne).of_alike hq.forest.symm
      have hroots := Forest.chooseLink_roots hl
      rw [clusterOf_link (hq.sound hp) hfits, clusterOf_link (hq.sound hp) hfits, hq.clusterOf_eq,
        hq.clusterOf_eq, ha, hb]
      simp only [Option.map_some, Option.some.injEq]
      constructor <;> split <;> omega

/-- Merging two addresses makes them equivalent. -/
theorem Merged.classes {x : Nat} (hm : p.Merged a b (.ok x) q) (hp : p.Sound) (h : p.Classes R) :
    q.Classes fun c d => R c d ∨ c = a ∧ d = b := by
  cases hm with
  | same ha hb hq =>
      have hclasses := h.congr (clusterOf_of_alike hq)
      refine hclasses.of_le (fun c d hcd => .rel c d (.inl hcd)) ?_
      rintro c d (hcd | ⟨rfl, rfl⟩)
      · exact hclasses.together hcd
      · exact ⟨x, by rw [hq.clusterOf_eq, ha], by rw [hq.clusterOf_eq, hb]⟩
  | linked ha hb hne hl hq =>
      rw [← hq.clusterOf_eq] at ha hb
      rw [← hq.forest.chooseLink_eq] at hl
      exact (h.congr (clusterOf_of_alike hq)).link (hq.sound hp) ha hb hne hl

/-! ## Order -/

theorem Ordered.contains_iff (h : p.Ordered as) : p.contains a = true ↔ a ∈ as := by
  rw [Partition.contains_iff, ← List.mem_eraseDups, List.mem_iff_getElem?]
  exact exists_congr fun i => h.ids_iff

theorem Ordered.congr (h : p.Ordered as) (hids : q.ids = p.ids) (hsize : q.size = p.size) :
    q.Ordered as :=
  ⟨hids ▸ h.ids_iff, hsize.trans h.size_eq⟩

theorem ordered_empty : empty.Ordered [] where
  ids_iff {a i} := by simp [empty]
  size_eq := rfl

theorem eraseDups_concat_of_mem (ha : a ∈ as) : (as ++ [a]).eraseDups = as.eraseDups := by
  rw [List.eraseDups_append]
  simp [List.removeAll, ha]

theorem eraseDups_concat_of_not_mem (ha : a ∉ as) : (as ++ [a]).eraseDups = as.eraseDups ++ [a] := by
  rw [List.eraseDups_append]
  simp [List.removeAll, ha, List.eraseDups_cons]

theorem getElem?_concat_eq_some_iff {i : Nat} :
    (as ++ [a])[i]? = some b ↔ as[i]? = some b ∨ as.length = i ∧ a = b := by
  rcases Nat.lt_trichotomy i as.length with hi | rfl | hi
  · simp [List.getElem?_append_left hi, Nat.ne_of_gt hi]
  · simp
  · have hnone : (as ++ [a])[i]? = none := by
      refine List.getElem?_eq_none ?_
      rw [List.length_append]
      exact hi
    simp [hnone, List.getElem?_eq_none (Nat.le_of_lt hi), Nat.ne_of_lt hi]

/-- A new address comes last. -/
theorem Ordered.add (h : p.Ordered as) (ha : p.ids[a]? = none) : (p.add a).Ordered (as ++ [a]) := by
  have hmem : a ∉ as := by
    rw [← h.contains_iff, Partition.contains_iff, ha]
    simp
  constructor
  · intro b i
    rw [ids_add, eraseDups_concat_of_not_mem hmem, getElem?_concat_eq_some_iff, ← h.ids_iff, h.size_eq]
    by_cases hab : a = b
    · subst hab
      simp [ha]
    · simp [hab]
  · rw [size_add, eraseDups_concat_of_not_mem hmem, List.length_append, h.size_eq]
    rfl

theorem Merged.ordered {answer : Except (Failure PartitionError) Nat} (hm : p.Merged a b answer q)
    (h : p.Ordered as) : q.Ordered as := by
  cases hm with
  | linked _ _ _ _ hq => exact h.congr hq.ids_eq ((Forest.size_link _).trans hq.size_eq)
  | first _ hq | second _ _ hq | same _ _ hq | full _ _ _ _ hq => exact h.congr hq.ids_eq hq.size_eq

end Partition

/-! ## Putting addresses together -/

namespace Workspace

variable {β : Type} [WriteBatch β] {w w' : Workspace β} {R : Address → Address → Prop}
variable {as bs : List Address} {a b anchor : Address}

theorem register_spec (hw : w.partition.Sound) (hc : w.partition.Classes R)
    (ho : w.partition.Ordered as) {i : Nat} (hok : register a w = (.ok i, w')) :
    w'.partition.Classes R ∧ w'.partition.Ordered (as ++ [a]) := by
  cases hi : w.partition.ids[a]? with
  | none =>
      by_cases hroom : w.partition.size + 1 < Partition.capacityLimit
      · rw [register_of_none hi hroom] at hok
        cases hok
        exact ⟨hc.add hw hi, ho.add hi⟩
      · rw [register_of_full hi hroom] at hok
        cases hok
  | some i =>
      rw [register_of_some hi] at hok
      cases hok
      refine ⟨hc, ?_⟩
      have ha : a ∈ as := by
        rw [← ho.contains_iff]
        exact Partition.contains_iff.mpr ⟨i, hi⟩
      constructor <;> rw [Partition.eraseDups_concat_of_mem ha]
      · exact ho.ids_iff
      · exact ho.size_eq

theorem classes_union (hw : w.partition.Sound) (h : w.partition.Classes R) {x : Nat}
    (hok : union a b w = (.ok x, w')) :
    w'.partition.Classes fun c d => R c d ∨ c = a ∧ d = b := by
  have hmerged := union_merged hw a b
  rw [hok] at hmerged
  exact hmerged.classes hw h

theorem ordered_union (hw : w.partition.Sound) (h : w.partition.Ordered as) (a b : Address) :
    (union a b w).2.partition.Ordered as :=
  (union_merged hw a b).ordered h

section Together

variable [LawfulBatch β]

theorem registerAll_spec (hw : w.partition.Numbered) (hc : w.partition.Classes R)
    (ho : w.partition.Ordered bs) {u : Unit} (hok : registerAll as w = (.ok u, w')) :
    w'.partition.Numbered ∧ w'.partition.Classes R ∧ w'.partition.Ordered (bs ++ as) := by
  induction as generalizing w bs with
  | nil =>
      cases hok
      rw [List.append_nil]
      exact ⟨hw, hc, ho⟩
  | cons a as ih =>
      obtain ⟨i, w₁, hregister, hok⟩ := bind_ok_cases hok
      have hw₁ := (staged_register hw a).numbered
      rw [hregister] at hw₁
      obtain ⟨hc₁, ho₁⟩ := register_spec hw.toSound hc ho hregister
      rw [List.append_cons]
      exact ih hw₁ hc₁ ho₁ hok

theorem unionAll_spec (hw : w.partition.Numbered) (hc : w.partition.Classes R)
    (ho : w.partition.Ordered bs) {u : Unit} (hok : unionAll anchor as w = (.ok u, w')) :
    w'.partition.Classes (fun c d => R c d ∨ c = anchor ∧ d ∈ as) ∧ w'.partition.Ordered bs := by
  induction as generalizing w R with
  | nil =>
      cases hok
      exact ⟨by simpa using hc, ho⟩
  | cons a as ih =>
      obtain ⟨x, w₁, hunion, hok⟩ := bind_ok_cases hok
      have hw₁ := (staged_union hw anchor a).numbered
      have hc₁ := classes_union hw.toSound hc hunion
      have ho₁ := ordered_union hw.toSound ho anchor a
      rw [hunion] at hw₁ ho₁
      obtain ⟨hclasses, hordered⟩ := ih hw₁ hc₁ ho₁ hok
      refine ⟨?_, hordered⟩
      have hsame : (fun c d => R c d ∨ c = anchor ∧ d ∈ a :: as) =
          fun c d => (R c d ∨ c = anchor ∧ d = a) ∨ c = anchor ∧ d ∈ as := by
        funext c d
        rw [List.mem_cons, and_or_left, or_assoc]
      rwa [hsame]

/-- The addresses of one transaction become equivalent, and those among them that are new come last, in
their order. -/
theorem cospend_spec (hw : w.partition.Numbered) (hc : w.partition.Classes R)
    (ho : w.partition.Ordered bs) {u : Unit} (hok : cospend as w = (.ok u, w')) :
    w'.partition.Classes (fun c d => R c d ∨ c ∈ as ∧ d ∈ as) ∧ w'.partition.Ordered (bs ++ as) := by
  obtain ⟨_, w₁, hregister, hok⟩ := bind_ok_cases hok
  obtain ⟨hw₁, hc₁, ho₁⟩ := registerAll_spec hw hc ho hregister
  cases as with
  | nil =>
      cases hok
      exact ⟨by simpa using hc₁, ho₁⟩
  | cons anchor others =>
      obtain ⟨hclasses, hordered⟩ := unionAll_spec hw₁ hc₁ ho₁ hok
      refine ⟨?_, hordered⟩
      -- Every address of the transaction is in the cluster of the first one.
      have hanchor : ∀ d ∈ anchor :: others, ∃ r, w'.partition.clusterOf anchor = some r ∧
          w'.partition.clusterOf d = some r := by
        intro d hd
        rcases List.mem_cons.mp hd with rfl | hd
        · have hcontains := hordered.contains_iff.mpr (List.mem_append_right bs List.mem_cons_self)
          obtain ⟨r, hr⟩ := Partition.exists_clusterOf_iff.mpr hcontains
          exact ⟨r, hr, hr⟩
        · exact hclasses.together (.inr ⟨rfl, hd⟩)
      refine hclasses.of_le ?_ ?_
      · rintro c d (hcd | ⟨rfl, hd⟩)
        · exact .rel c d (.inl hcd)
        · exact .rel c d (.inr ⟨List.mem_cons_self, List.mem_cons_of_mem c hd⟩)
      · rintro c d (hcd | ⟨hc, hd⟩)
        · exact hclasses.together (.inl hcd)
        · obtain ⟨r, hr, hcr⟩ := hanchor c hc
          obtain ⟨r', hr', hdr⟩ := hanchor d hd
          obtain rfl := Option.some.inj (hr.symm.trans hr')
          exact ⟨r, hcr, hdr⟩

end Together

end Workspace

end Cospend
