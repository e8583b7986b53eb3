import Cospend.Proofs.Forest.Change
import Mathlib.Algebra.Group.Nat.Defs

/-!
# Weights of trees

The weight of a root is the number of nodes in its tree. A forest is balanced if every root has a weight
of at least two to the power of its rank. Linking by rank keeps a forest balanced, so that no rank in a
balanced forest comes near the greatest one, and two roots can always be linked.
-/

namespace Cospend.Forest

variable {f g : Forest} {a b r : Nat} {l : Link}

/-- The number of nodes whose root is `r`. -/
def weight (f : Forest) (r : Nat) : Nat := (List.range f.size).countP fun i => f.root i = r

def Balanced (f : Forest) : Prop :=
  ∀ r < f.size, f.next r = r → 2 ^ (f.rankOf r).toNat ≤ f.weight r

theorem weight_le_size (f : Forest) (r : Nat) : f.weight r ≤ f.size := by
  have h := List.countP_le_length (l := List.range f.size) (p := fun i => f.root i = r)
  rwa [List.length_range] at h

theorem balanced_empty : empty.Balanced := fun r hr => absurd hr (Nat.not_lt_zero r)

theorem Balanced.of_alike (h : f.Balanced) (a : Alike g f) : g.Balanced := by
  intro r hr hroot
  have hweight : g.weight r = f.weight r := by simp only [weight, a.size_eq, a.root_eq]
  rw [hweight, a.rankOf_eq]
  exact h r (a.size_eq ▸ hr) (a.next_eq_self_iff.mp hroot)

/-- The tree of a new node is the node. -/
theorem weight_push (hf : f.Sound) (rank : UInt64) (r : Nat) :
    (f.push f.size rank).weight r = f.weight r + if f.size = r then 1 else 0 := by
  have hself : f.root f.size = f.size := root_of_next_eq (next_of_size_le (Nat.le_refl _))
  simp only [weight, size_push, root_push hf, List.range_succ, List.countP_append,
    List.countP_singleton, hself, decide_eq_true_eq]

theorem rankOf_push (hf : f.rank.size = f.size) (p : Nat) (rank : UInt64) (i : Nat) :
    (f.push p rank).rankOf i = if i = f.size then rank else f.rankOf i := by
  simp only [rankOf, push, Array.getD_eq_getD_getElem?, Array.getElem?_push, hf]
  split <;> rfl

theorem Balanced.push (h : f.Balanced) (hf : f.Sound) : (f.push f.size 0).Balanced := by
  intro r hr hroot
  rw [next_push] at hroot
  rw [weight_push hf, rankOf_push hf.rank_size]
  by_cases hnew : r = f.size
  · rw [if_pos hnew, if_pos hnew.symm]
    exact Nat.le_add_left 1 _
  · rw [size_push] at hr
    rw [if_neg hnew, if_neg (Ne.symm hnew)]
    exact h r (by omega) hroot

/-! ## Linked trees -/

/-- Only the rank of the root that stays may change, and only if the other one has the same rank. -/
theorem chooseLink_rank (h : f.chooseLink a b = .ok l) : l.rank = none ∨
    l.rank = some (f.rankOf l.parent + 1) ∧ f.rankOf l.child = f.rankOf l.parent ∧
      f.rankOf l.parent ≠ maxRank := by
  unfold chooseLink at h
  split at h
  · cases h
    exact .inl rfl
  · split at h
    · cases h
      exact .inl rfl
    · split at h
      · cases h
      · cases h
        rename_i hab hba hmax
        exact .inr ⟨rfl, UInt64.le_antisymm (UInt64.not_lt.mp hab) (UInt64.not_lt.mp hba), hmax⟩

theorem rankOf_link (hf : f.Sound) (hl : l.Fits f) (i : Nat) :
    (f.link l).rankOf i = if i = l.parent then l.rank.getD (f.rankOf i) else f.rankOf i := by
  have hlt : l.parent < f.rank.size := hf.rank_size ▸ hl.parent_lt
  simp only [rankOf, link]
  cases l.rank with
  | none => simp
  | some rank =>
      by_cases hi : i = l.parent
      · subst hi
        simp [hlt]
      · simp [hi, Ne.symm hi]

theorem toNat_rank_succ {x : UInt64} (hx : x ≠ maxRank) : (x + 1).toNat = x.toNat + 1 := by
  have hne : x.toNat ≠ maxRank.toNat := fun h => hx (UInt64.toNat_inj.mp h)
  have hmax : maxRank.toNat = 2 ^ 64 - 1 := rfl
  have hlt := x.toNat_lt
  rw [UInt64.toNat_add, UInt64.toNat_one]
  omega

theorem weight_link_parent (hf : f.Sound) (hl : l.Fits f) :
    (f.link l).weight l.parent = f.weight l.parent + f.weight l.child := by
  simp only [weight, size_link, hf.root_link hl]
  induction List.range f.size with
  | nil => rfl
  | cons i is ih =>
      have hne := hl.ne
      simp only [List.countP_cons, ih, decide_eq_true_eq]
      by_cases hc : f.root i = l.child
      · simp only [hc, if_true, if_neg hne]
        omega
      · simp only [hc, if_false]
        omega

theorem weight_link_of_ne (hf : f.Sound) (hl : l.Fits f) (hp : r ≠ l.parent) (hc : r ≠ l.child) :
    (f.link l).weight r = f.weight r := by
  simp only [weight, size_link, hf.root_link hl]
  refine List.countP_congr fun i _ => ?_
  simp only [decide_eq_true_eq]
  split <;> omega

theorem Balanced.link (h : f.Balanced) (hf : f.Sound) (hl : l.Fits f)
    (hchoose : f.chooseLink a b = .ok l) : (f.link l).Balanced := by
  intro r hr hroot
  rw [size_link] at hr
  rw [next_link hl] at hroot
  have hc : r ≠ l.child := by
    intro hc
    rw [if_pos hc] at hroot
    exact hl.ne (hc.symm.trans hroot.symm)
  rw [if_neg hc] at hroot
  rw [rankOf_link hf hl]
  by_cases hp : r = l.parent
  · subst hp
    have hparent := h l.parent hl.parent_lt hl.parent_root
    have hchild := h l.child hl.child_lt hl.child_root
    rw [if_pos rfl, weight_link_parent hf hl]
    -- the rank grows only if both trees have its weight, and then they have twice as much together
    rcases chooseLink_rank hchoose with hrank | ⟨hrank, hsame, hmax⟩
    · rw [hrank, Option.getD_none]
      omega
    · rw [hsame] at hchild
      rw [hrank, Option.getD_some, toNat_rank_succ hmax, Nat.pow_succ]
      omega
  · rw [if_neg hp, weight_link_of_ne hf hl hp hc]
    exact h r hr hroot

/-! ## Ranks in a balanced forest -/

theorem Balanced.rankOf_lt (h : f.Balanced) (hr : r < f.size) (hroot : f.next r = r) :
    (f.rankOf r).toNat < f.size :=
  calc (f.rankOf r).toNat < 2 ^ (f.rankOf r).toNat := Nat.lt_two_pow_self
    _ ≤ f.weight r := h r hr hroot
    _ ≤ f.size := f.weight_le_size r

/-- The trees of two roots can be joined as long as their nodes can be counted. -/
theorem Balanced.exists_link (h : f.Balanced) (hsize : f.size < UInt64.size) (ha : a < f.size)
    (hroot : f.next a = a) (b : Nat) : ∃ l, f.chooseLink a b = .ok l := by
  have hmax : f.rankOf a ≠ maxRank := by
    intro hmax
    have hlt := h.rankOf_lt ha hroot
    rw [hmax, show maxRank.toNat = UInt64.size - 1 from rfl] at hlt
    omega
  simp only [chooseLink, hmax, if_false]
  split
  · exact ⟨_, rfl⟩
  · split <;> exact ⟨_, rfl⟩

end Cospend.Forest
