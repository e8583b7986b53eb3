import Std.Data.ExtTreeMap

/-!
# Entries put into a map

The values of a map into which entries were put one after the other.
-/

namespace Cospend

variable {α γ : Type} [Ord α] [Std.TransOrd α] [Std.LawfulEqOrd α]

/-- The map with entries put into it, one after the other. -/
def putAll (t : Std.ExtTreeMap α γ) (es : List (α × γ)) : Std.ExtTreeMap α γ :=
  es.foldl (fun t e => t.insert e.1 e.2) t

variable {t : Std.ExtTreeMap α γ} {es : List (α × γ)} {k k' : α} {v : γ}

theorem getElem?_insert_eq : (t.insert k v)[k]? = some v := by simp

theorem getElem?_insert_ne (h : k ≠ k') : (t.insert k v)[k']? = t[k']? := by
  simp [Std.ExtTreeMap.getElem?_insert, h]

theorem getElem?_putAll_of_not_mem (h : ∀ v, (k, v) ∉ es) : (putAll t es)[k]? = t[k]? := by
  induction es generalizing t with
  | nil => rfl
  | cons e es ih =>
      have hrest : ∀ v, (k, v) ∉ es := fun v hv => h v (List.mem_cons_of_mem _ hv)
      have hne : e.1 ≠ k := by
        rintro rfl
        exact h e.2 List.mem_cons_self
      exact (ih hrest).trans (getElem?_insert_ne hne)

/-- The entries may name a key more than once, as long as they agree on its value. -/
theorem getElem?_putAll_of_mem (hmem : (k, v) ∈ es) (huniq : ∀ v', (k, v') ∈ es → v' = v) :
    (putAll t es)[k]? = some v := by
  induction es generalizing t with
  | nil => cases hmem
  | cons e es ih =>
      have hrest : ∀ v', (k, v') ∈ es → v' = v := fun v' hv => huniq v' (List.mem_cons_of_mem _ hv)
      by_cases hin : (k, v) ∈ es
      · exact ih hin hrest
      · have he : e = (k, v) := by
          rcases List.mem_cons.mp hmem with rfl | hm
          · rfl
          · exact absurd hm hin
        subst he
        have hnot : ∀ v', (k, v') ∉ es := fun v' hv => hin (hrest v' hv ▸ hv)
        exact (getElem?_putAll_of_not_mem hnot).trans getElem?_insert_eq

theorem getElem?_putAll_eq_some_iff (huniq : ∀ v v', (k, v) ∈ es → (k, v') ∈ es → v = v') :
    (putAll ∅ es)[k]? = some v ↔ (k, v) ∈ es := by
  constructor
  · intro h
    by_cases hmem : ∃ v', (k, v') ∈ es
    · obtain ⟨v', hv'⟩ := hmem
      rw [getElem?_putAll_of_mem hv' fun v'' hv'' => huniq v'' v' hv'' hv'] at h
      cases h
      exact hv'
    · rw [getElem?_putAll_of_not_mem fun v' hv' => hmem ⟨v', hv'⟩] at h
      simp at h
  · exact fun h => getElem?_putAll_of_mem h fun v' hv' => huniq v' v hv' h

theorem getElem?_eraseAll [DecidableEq α] {ks : List α} :
    (ks.foldl (fun (t : Std.ExtTreeMap α γ) k => t.erase k) t)[k]? =
      if k ∈ ks then none else t[k]? := by
  induction ks generalizing t with
  | nil => simp
  | cons k' ks ih =>
      simp only [List.foldl_cons, ih, Std.ExtTreeMap.getElem?_erase, Std.LawfulEqCmp.compare_eq_iff_eq,
        List.mem_cons]
      by_cases hk : k ∈ ks
      · simp [hk]
      · by_cases he : k' = k
        · simp [hk, he]
        · simp [hk, he, Ne.symm he]

end Cospend
