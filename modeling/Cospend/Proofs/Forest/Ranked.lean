import Cospend.Proofs.Forest.Weight
import Mathlib.Data.Nat.Log

/-!
# Ranks along the ways

In a ranked forest the rank grows with every step to a root, so that a way is no longer than the rank of
the root at its end. Linking by rank and shortening ways keep this. If the forest is balanced as well,
such a rank is at most the logarithm of the number of nodes.
-/

namespace Cospend.Forest

variable {f g : Forest} {a b i r : Nat} {way : List Nat} {l : Link}

/-- Every node but a root has a lower rank than its parent. -/
def Ranked (f : Forest) : Prop := ∀ i, f.next i ≠ i → f.rankOf i < f.rankOf (f.next i)

theorem ranked_empty : empty.Ranked := fun i h => absurd (next_of_size_le (Nat.zero_le i)) h

theorem Ranked.length_add_rank_le (h : f.Ranked) (w : f.Walk i way r) :
    way.length + (f.rankOf i).toNat ≤ (f.rankOf r).toNat := by
  induction w with
  | root _ => simp
  | step hi _ ih =>
      have hlt := UInt64.lt_iff_toNat_lt.mp (h _ hi)
      rw [List.length_cons]
      omega

theorem Ranked.rank_lt (h : f.Ranked) (w : f.Walk i way r) (hi : f.next i ≠ i) :
    f.rankOf i < f.rankOf r := by
  cases w with
  | root hr => exact absurd hr hi
  | step _ w =>
      have hstep := UInt64.lt_iff_toNat_lt.mp (h i hi)
      have hrest := h.length_add_rank_le w
      exact UInt64.lt_iff_toNat_lt.mpr (by omega)

/-! ## What keeps a forest ranked -/

/-- A new node is a root, and no parent. -/
theorem Ranked.push (h : f.Ranked) (hf : f.Sound) : (f.push f.size 0).Ranked := by
  intro i hi
  rw [next_push] at hi ⊢
  have hlt : i < f.size := lt_size_of_next_ne hi
  have hnext := hf.next_lt hlt
  rw [rankOf_push hf.rank_size, rankOf_push hf.rank_size, if_neg (Nat.ne_of_lt hlt),
    if_neg (Nat.ne_of_lt hnext)]
  exact h i hi

/-- The root of a node has a higher rank than the node, as its parent had. -/
theorem Ranked.reparent (h : f.Ranked) (hf : f.Sound) {nodes : List Nat}
    (hn : ∀ j ∈ nodes, f.root j = r ∧ j ≠ r) : (f.reparent nodes r).Ranked := by
  intro i hi
  rw [next_reparent] at hi ⊢
  change f.rankOf i < f.rankOf _
  split at hi
  · rename_i hmoved
    obtain ⟨hroot, hne⟩ := hn i hmoved.1
    obtain ⟨way, w⟩ := hf.leads_root i
    rw [if_pos hmoved, ← hroot]
    refine h.rank_lt w fun hself => hne ?_
    rw [← hroot, root_of_next_eq hself]
  · rename_i hmoved
    rw [if_neg hmoved]
    exact h i hi

theorem Ranked.compress (h : f.Ranked) (hf : f.Sound) (i : Nat) : (f.compress i).forest.Ranked :=
  h.reparent hf fun _ hj => hf.compress_moved hj

theorem Ranked.flatten (h : f.Ranked) (hf : f.Sound) : f.flatten.Ranked := by
  rw [Forest.flatten]
  generalize List.range f.size = is
  induction is generalizing f with
  | nil => exact h
  | cons i is ih => exact ih (h.compress hf i) (hf.compress i).sound_left

/-- The rank of the root that stays is above the one of the other root then, and it did not fall. -/
theorem chooseLink_lt (h : f.chooseLink a b = .ok l) :
    f.rankOf l.child < l.rank.getD (f.rankOf l.parent) ∧
      f.rankOf l.parent ≤ l.rank.getD (f.rankOf l.parent) := by
  unfold chooseLink at h
  split at h
  · cases h
    exact ⟨‹_›, UInt64.le_refl _⟩
  · split at h
    · cases h
      exact ⟨‹_›, UInt64.le_refl _⟩
    · split at h
      · cases h
      · cases h
        rename_i hab _ hmax
        have hlt : f.rankOf a < f.rankOf a + 1 := by
          rw [UInt64.lt_iff_toNat_lt, toNat_rank_succ hmax]
          exact Nat.lt_succ_self _
        exact ⟨UInt64.lt_of_le_of_lt (UInt64.not_lt.mp hab) hlt, UInt64.le_of_lt hlt⟩

theorem Ranked.link (h : f.Ranked) (hf : f.Sound) (hl : l.Fits f)
    (hchoose : f.chooseLink a b = .ok l) : (f.link l).Ranked := by
  obtain ⟨hchild, hparent⟩ := chooseLink_lt hchoose
  intro i hi
  rw [next_link hl] at hi ⊢
  by_cases hc : i = l.child
  · subst hc
    rw [if_pos rfl, rankOf_link hf hl, rankOf_link hf hl, if_neg hl.ne, if_pos rfl]
    exact hchild
  · rw [if_neg hc] at hi ⊢
    have hp : i ≠ l.parent := fun hp => hi (hp ▸ hl.parent_root)
    have hstep := h i hi
    rw [rankOf_link hf hl, rankOf_link hf hl, if_neg hp]
    split
    · rename_i hnext
      rw [hnext] at hstep ⊢
      exact UInt64.lt_of_lt_of_le hstep hparent
    · exact hstep

/-! ## Logarithmic ways -/

/-- The trees are as shallow as linking by rank makes them. -/
structure Shallow (f : Forest) : Prop where
  rank_lt : ∀ i < f.size, f.next i ≠ i → f.rankOf i < f.rankOf (f.next i)
  two_pow_rank_le : ∀ r < f.size, f.next r = r → 2 ^ (f.rankOf r).toNat ≤ f.weight r
  way_le : ∀ i < f.size, ∃ way, f.Walk i way (f.root i) ∧
    way.length ≤ (f.rankOf (f.root i)).toNat ∧ (f.rankOf (f.root i)).toNat ≤ Nat.log 2 f.size

theorem Ranked.shallow (h : f.Ranked) (hbalanced : f.Balanced) (hf : f.Sound) : f.Shallow where
  rank_lt i _ := h i
  two_pow_rank_le := hbalanced
  way_le i hi := by
    obtain ⟨way, w⟩ := hf.leads_root i
    have hlength := h.length_add_rank_le w
    have hpow := hbalanced (f.root i) (hf.root_lt hi) (hf.next_root i)
    have hlog : (f.rankOf (f.root i)).toNat ≤ Nat.log 2 f.size :=
      Nat.le_log_of_pow_le Nat.one_lt_two (hpow.trans (f.weight_le_size _))
    exact ⟨way, w, by omega, hlog⟩

end Cospend.Forest
