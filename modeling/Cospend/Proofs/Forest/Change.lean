import Cospend.Forest.Link
import Cospend.Proofs.Forest.Walk

/-!
# Changes of a forest

A new node is a root of its own, and shortening a way moves no node to another tree; a link puts the
whole tree of one root under another. Two forests are alike if every node has the same root and the
same rank in both, however long the ways to the roots are.
-/

namespace Cospend.Forest

variable {f g h : Forest}

/-! ## Forests with the same trees -/

/-- Two sound forests have the same nodes, the same ranks and the same roots. -/
structure Alike (f g : Forest) : Prop where
  sound_left : f.Sound
  sound_right : g.Sound
  size_eq : f.size = g.size
  rank_eq : f.rank = g.rank
  root_eq : ∀ i, f.root i = g.root i

theorem Sound.alike (hf : f.Sound) : Alike f f := ⟨hf, hf, rfl, rfl, fun _ => rfl⟩

theorem Alike.symm (a : Alike f g) : Alike g f :=
  ⟨a.sound_right, a.sound_left, a.size_eq.symm, a.rank_eq.symm, fun i => (a.root_eq i).symm⟩

theorem Alike.trans (a : Alike f g) (b : Alike g h) : Alike f h :=
  ⟨a.sound_left, b.sound_right, a.size_eq.trans b.size_eq, a.rank_eq.trans b.rank_eq,
    fun i => (a.root_eq i).trans (b.root_eq i)⟩

theorem Alike.rankOf_eq (a : Alike f g) (i : Nat) : f.rankOf i = g.rankOf i := by
  rw [rankOf, rankOf, a.rank_eq]

theorem Alike.next_eq_self_iff (a : Alike f g) {i : Nat} : f.next i = i ↔ g.next i = i := by
  rw [← a.sound_left.root_eq_self_iff, ← a.sound_right.root_eq_self_iff, a.root_eq]

theorem Walk.congr (hn : ∀ i, g.next i = f.next i) {i r : Nat} {way : List Nat}
    (w : f.Walk i way r) : g.Walk i way r := by
  induction w with
  | root h => exact .root (by rw [hn]; exact h)
  | step h _ ih => exact .step (by rw [hn]; exact h) (by rw [hn]; exact ih)

theorem root_congr (hf : f.Sound) (hn : ∀ i, g.next i = f.next i) (i : Nat) :
    g.root i = f.root i := by
  obtain ⟨_, w⟩ := hf.leads_root i
  exact Leads.root_eq ⟨_, w.congr hn⟩

/-! ## A new node -/

@[simp] theorem size_push (p : Nat) (r : UInt64) : (f.push p r).size = f.size + 1 := by
  simp [size, push]

/-- A number that is no node stands for itself, and so does a new root. -/
theorem next_push (r : UInt64) (i : Nat) : (f.push f.size r).next i = f.next i := by
  rcases Nat.lt_trichotomy i f.size with hi | rfl | hi
  · rw [next_eq_getElem (f := f) hi,
      next_eq_getElem (f := f.push f.size r) (by simpa [push, size] using Nat.lt_succ_of_lt hi)]
    exact Array.getElem_push_lt hi
  · rw [next_of_size_le (f := f) (Nat.le_refl _),
      next_eq_getElem (f := f.push f.size r) (by simp [push, size])]
    exact Array.getElem_push_eq
  · rw [next_of_size_le (f := f) (Nat.le_of_lt hi),
      next_of_size_le (f := f.push f.size r) (by rw [size_push]; exact hi)]

theorem root_push (hf : f.Sound) (r : UInt64) (i : Nat) :
    (f.push f.size r).root i = f.root i :=
  root_congr hf (next_push r) i

theorem Sound.push (hf : f.Sound) (r : UInt64) : (f.push f.size r).Sound where
  rank_size := by simpa [Forest.push, size] using hf.rank_size
  next_lt {i} hi := by
    rw [size_push] at hi ⊢
    rw [next_push]
    rcases Nat.lt_or_ge i f.size with hlt | hge
    · exact Nat.lt_succ_of_lt (hf.next_lt hlt)
    · rwa [next_of_size_le hge]
  leads i := by
    obtain ⟨r', way, w⟩ := hf.leads i
    exact ⟨r', way, w.congr (next_push r)⟩

theorem Alike.push (a : Alike f g) (r : UInt64) : Alike (f.push f.size r) (g.push g.size r) where
  sound_left := a.sound_left.push r
  sound_right := a.sound_right.push r
  size_eq := by rw [size_push, size_push, a.size_eq]
  rank_eq := by simp only [Forest.push, a.rank_eq]
  root_eq i := by rw [root_push a.sound_left, root_push a.sound_right, a.root_eq]

/-! ## Other parents -/

theorem next_set (i p j : Nat) :
    ({ f with parent := f.parent.setIfInBounds i p } : Forest).next j =
      if j = i ∧ j < f.size then p else f.next j := by
  simp only [next, Array.getD_eq_getD_getElem?, Array.getElem?_setIfInBounds, size]
  by_cases hj : i = j
  · subst hj
    by_cases hi : i < f.parent.size <;> simp [hi]
  · simp [hj, Ne.symm hj]

@[simp] theorem size_reparent (nodes : List Nat) (p : Nat) : (f.reparent nodes p).size = f.size := by
  simp only [size, reparent]
  induction nodes generalizing f with
  | nil => rfl
  | cons i nodes ih =>
      simpa using ih (f := { f with parent := f.parent.setIfInBounds i p })

@[simp] theorem rank_reparent (nodes : List Nat) (p : Nat) : (f.reparent nodes p).rank = f.rank := rfl

theorem next_reparent (nodes : List Nat) (p j : Nat) :
    (f.reparent nodes p).next j = if j ∈ nodes ∧ j < f.size then p else f.next j := by
  induction nodes generalizing f with
  | nil => simp [reparent]
  | cons i nodes ih =>
      have hrec : f.reparent (i :: nodes) p =
          ({ f with parent := f.parent.setIfInBounds i p } : Forest).reparent nodes p := rfl
      have hsize : ({ f with parent := f.parent.setIfInBounds i p } : Forest).size = f.size := by
        simp [size]
      rw [hrec, ih, next_set, hsize]
      simp only [List.mem_cons]
      by_cases hlt : j < f.size
      · by_cases hj : j ∈ nodes <;> simp [hlt, hj]
      · simp [hlt]

/-- A node that gets the root of its tree as its parent stays in its tree, and so does every other
node. -/
theorem Leads.reparent {nodes : List Nat} {r i s : Nat}
    (hn : ∀ j ∈ nodes, f.next j ≠ j ∧ f.Leads j r) (h : f.Leads i s) :
    (f.reparent nodes r).Leads i s := by
  have hroot : ∀ {j}, f.next j = j → (f.reparent nodes r).next j = j := by
    intro j hj
    rw [next_reparent, if_neg fun hm => (hn j hm.1).1 hj, hj]
  obtain ⟨way, w⟩ := h
  induction w with
  | root hi => exact .of_root (hroot hi)
  | @step i s way hi w ih =>
      refine .of_next ?_
      by_cases hm : i ∈ nodes ∧ i < f.size
      · have hs : s = r := Leads.unique ⟨_, .step hi w⟩ (hn i hm.1).2
        rw [next_reparent, if_pos hm, hs]
        exact .of_root (hroot (hs ▸ w.next_end))
      · rw [next_reparent, if_neg hm]
        exact ih

theorem Sound.reparent (hf : f.Sound) {nodes : List Nat} {r : Nat}
    (hn : ∀ j ∈ nodes, f.root j = r ∧ j ≠ r) : Alike (f.reparent nodes r) f := by
  have hn' : ∀ j ∈ nodes, f.next j ≠ j ∧ f.Leads j r := by
    intro j hj
    obtain ⟨rfl, hne⟩ := hn j hj
    exact ⟨fun h => hne (root_of_next_eq h).symm, hf.leads_root j⟩
  have hs : (f.reparent nodes r).Sound := {
    rank_size := by simpa using hf.rank_size
    next_lt := by
      intro j hj
      rw [size_reparent] at hj ⊢
      rw [next_reparent]
      split
      · rename_i hm
        rw [← (hn j hm.1).1]
        exact hf.root_lt hj
      · exact hf.next_lt hj
    leads := fun i => ⟨_, (hf.leads_root i).reparent hn'⟩ }
  exact ⟨hs, hf, size_reparent _ _, rfl, fun i => ((hf.leads_root i).reparent hn').root_eq⟩

/-! ## Shorter ways -/

/-- The node before the root is left out, as its parent is the root already. -/
theorem Walk.trail {i r n : Nat} {way : List Nat} (w : f.Walk i way r) (hn : way.length ≤ n) :
    f.trail r n i = way.dropLast := by
  induction w generalizing n with
  | root h => cases n <;> simp [Forest.trail, h]
  | @step i r way h w ih =>
      cases n with
      | zero => simp at hn
      | succ n =>
          cases w with
          | root hr => simp [Forest.trail]
          | step hr w =>
              have hne : f.next i ≠ r := (Walk.step hr w).ne_end List.mem_cons_self
              simp only [Forest.trail, if_neg hne]
              rw [ih (by simpa using hn)]
              rfl

theorem Walk.compress {i r : Nat} {way : List Nat} (w : f.Walk i way r) :
    f.compress i = ⟨f.reparent way.dropLast r, r, way.dropLast⟩ := by
  have hroot : f.root i = r := Leads.root_eq ⟨way, w⟩
  rw [Forest.compress, hroot, w.trail w.length_le]

theorem Sound.compress_moved (hf : f.Sound) {i j : Nat} (hj : j ∈ (f.compress i).moved) :
    f.root j = f.root i ∧ j ≠ f.root i := by
  obtain ⟨way, w⟩ := hf.leads_root i
  rw [w.compress] at hj
  have hway : j ∈ way := List.dropLast_subset _ hj
  exact ⟨(w.leads_of_mem hway).root_eq, w.ne_end hway⟩

/-- A node that a shorter way moves hangs under the same root in every forest that is alike. -/
theorem Alike.compress_moved (a : Alike g f) {i j : Nat} (hj : j ∈ (f.compress i).moved) :
    g.root j = (f.compress i).root ∧ j ≠ (f.compress i).root := by
  rw [a.root_eq]
  exact a.sound_right.compress_moved hj

theorem Sound.compress (hf : f.Sound) (i : Nat) : Alike (f.compress i).forest f :=
  hf.reparent fun _ hj => hf.compress_moved hj

/-- Shortening any number of ways moves no node to another tree. -/
theorem Sound.compressAll (hf : f.Sound) (is : List Nat) :
    Alike (is.foldl (fun f i => (f.compress i).forest) f) f := by
  induction is generalizing f with
  | nil => exact hf.alike
  | cons i is ih => exact (ih (hf.compress i).sound_left).trans (hf.compress i)

theorem Sound.flatten (hf : f.Sound) : Alike f.flatten f := hf.compressAll (List.range f.size)

theorem next_compress (i : Nat) : (f.compress i).forest.next i = f.root i := by
  rw [Forest.compress, next_reparent]
  split
  · rfl
  · rename_i hm
    -- a node that is left out is none, or its parent is the root already
    rcases Nat.lt_or_ge i f.size with hi | hi
    · obtain ⟨n, hn⟩ := Nat.exists_eq_succ_of_ne_zero (Nat.ne_of_gt (Nat.zero_lt_of_lt hi))
      by_contra hne
      apply hm
      rw [hn, trail, if_neg hne]
      exact ⟨List.mem_cons_self, hn ▸ hi⟩
    · rw [next_of_size_le hi, root_of_next_eq (next_of_size_le hi)]

/-- A node whose parent is its root keeps it when other ways are shortened. -/
theorem Sound.next_compress_of_eq (hf : f.Sound) {i j : Nat} (hj : f.next j = f.root j) :
    (f.compress i).forest.next j = f.root j := by
  rw [Forest.compress, next_reparent]
  split
  · rename_i hm
    exact (hf.compress_moved hm.1).1.symm
  · exact hj

theorem Sound.next_compressAll (hf : f.Sound) {is : List Nat} {j : Nat}
    (hj : j ∈ is ∨ f.next j = f.root j) :
    (is.foldl (fun f i => (f.compress i).forest) f).next j = f.root j := by
  induction is generalizing f with
  | nil => simpa using hj
  | cons i is ih =>
      have hi := hf.compress i
      rw [List.foldl_cons, ← hi.root_eq]
      apply ih hi.sound_left
      rw [hi.root_eq]
      rcases hj with hj | hj
      · rcases List.mem_cons.mp hj with rfl | hj
        · exact .inr (next_compress j)
        · exact .inl hj
      · exact .inr (hf.next_compress_of_eq hj)

theorem Sound.next_flatten (hf : f.Sound) (i : Nat) : f.flatten.next i = f.root i := by
  apply hf.next_compressAll
  rcases Nat.lt_or_ge i f.size with hi | hi
  · exact .inl (List.mem_range.mpr hi)
  · exact .inr (by rw [next_of_size_le hi, root_of_next_eq (next_of_size_le hi)])

theorem compress_of_next_eq_root {i : Nat} (h : f.next i = f.root i) : (f.compress i).forest = f := by
  have hmoved : f.trail (f.root i) f.size i = [] := by
    cases f.size with
    | zero => rfl
    | succ n => rw [trail, if_pos h]
  rw [Forest.compress, hmoved]
  rfl

/-- Where every way is shortened there is nothing left to shorten. -/
theorem compressAll_of_next_eq_root (h : ∀ i, f.next i = f.root i) (is : List Nat) :
    is.foldl (fun f i => (f.compress i).forest) f = f := by
  induction is with
  | nil => rfl
  | cons i is ih => rw [List.foldl_cons, compress_of_next_eq_root (h i), ih]

theorem Sound.flatten_flatten (hf : f.Sound) : f.flatten.flatten = f.flatten := by
  refine compressAll_of_next_eq_root (fun i => ?_) _
  rw [hf.next_flatten, hf.flatten.root_eq]

/-! ## Linked trees -/

/-- A link of two different roots. -/
structure Link.Fits (l : Link) (f : Forest) : Prop where
  parent_root : f.next l.parent = l.parent
  child_root : f.next l.child = l.child
  parent_lt : l.parent < f.size
  child_lt : l.child < f.size
  ne : l.child ≠ l.parent

theorem Link.Fits.of_alike {l : Link} (hl : l.Fits f) (a : Alike f g) : l.Fits g where
  parent_root := a.next_eq_self_iff.mp hl.parent_root
  child_root := a.next_eq_self_iff.mp hl.child_root
  parent_lt := a.size_eq ▸ hl.parent_lt
  child_lt := a.size_eq ▸ hl.child_lt
  ne := hl.ne

@[simp] theorem size_link (l : Link) : (f.link l).size = f.size := by simp [size, link]

theorem next_link {l : Link} (hl : l.Fits f) (j : Nat) :
    (f.link l).next j = if j = l.child then l.parent else f.next j := by
  have h := next_set (f := f) l.child l.parent j
  rw [show (f.link l).next j = _ from h]
  by_cases hj : j = l.child
  · subst hj; simp [hl.child_lt]
  · simp [hj]

theorem Leads.link {l : Link} (hl : l.Fits f) {i s : Nat} (h : f.Leads i s) :
    (f.link l).Leads i (if s = l.child then l.parent else s) := by
  have hparent : (f.link l).Leads l.parent l.parent := by
    refine .of_root ?_
    rw [next_link hl, if_neg hl.ne.symm, hl.parent_root]
  obtain ⟨way, w⟩ := h
  induction w with
  | @root i hi =>
      by_cases hc : i = l.child
      · subst hc
        rw [if_pos rfl]
        exact .of_next (by rw [next_link hl, if_pos rfl]; exact hparent)
      · rw [if_neg hc]
        exact .of_root (by rw [next_link hl, if_neg hc, hi])
  | @step i s way hi w ih =>
      have hc : i ≠ l.child := fun he => hi (by rw [he]; exact hl.child_root)
      exact .of_next (by rw [next_link hl, if_neg hc]; exact ih)

theorem Sound.root_link (hf : f.Sound) {l : Link} (hl : l.Fits f) (i : Nat) :
    (f.link l).root i = if f.root i = l.child then l.parent else f.root i :=
  ((hf.leads_root i).link hl).root_eq

theorem Sound.link (hf : f.Sound) {l : Link} (hl : l.Fits f) : (f.link l).Sound where
  rank_size := by
    rw [size_link, ← hf.rank_size]
    simp only [Forest.link]
    split <;> simp
  next_lt {i} hi := by
    rw [size_link] at hi ⊢
    rw [next_link hl]
    split
    · exact hl.parent_lt
    · exact hf.next_lt hi
  leads i := ⟨_, (hf.leads_root i).link hl⟩

theorem Alike.link (a : Alike f g) {l : Link} (hl : l.Fits f) : Alike (f.link l) (g.link l) where
  sound_left := a.sound_left.link hl
  sound_right := a.sound_right.link (hl.of_alike a)
  size_eq := by rw [size_link, size_link, a.size_eq]
  rank_eq := by simp only [Forest.link, a.rank_eq]
  root_eq i := by
    rw [a.sound_left.root_link hl, a.sound_right.root_link (hl.of_alike a), a.root_eq]

theorem Alike.chooseLink_eq (a : Alike f g) (x y : Nat) : f.chooseLink x y = g.chooseLink x y := by
  simp only [chooseLink, a.rankOf_eq]

/-- A link of two roots has the one as the parent and the other as the child. -/
theorem chooseLink_roots {a b : Nat} {l : Link} (h : f.chooseLink a b = .ok l) :
    (l.parent = a ∧ l.child = b) ∨ (l.parent = b ∧ l.child = a) := by
  unfold chooseLink at h
  split at h
  · cases h; exact .inr ⟨rfl, rfl⟩
  · split at h
    · cases h; exact .inl ⟨rfl, rfl⟩
    · split at h
      · cases h
      · cases h; exact .inl ⟨rfl, rfl⟩

/-- Only two roots of the greatest rank cannot be linked. -/
theorem chooseLink_eq_error {a b : Nat} {e : Abort} : f.chooseLink a b = .error e ↔
    f.rankOf a = maxRank ∧ f.rankOf b = maxRank ∧ e = .addOverflow := by
  unfold chooseLink
  constructor
  · intro h
    split at h
    · cases h
    · split at h
      · cases h
      · split at h
        · rename_i hab hba hmax
          cases h
          have hsame := UInt64.le_antisymm (UInt64.not_lt.mp hab) (UInt64.not_lt.mp hba)
          exact ⟨hmax, hsame.trans hmax, rfl⟩
        · cases h
  · rintro ⟨ha, hb, rfl⟩
    simp [ha, hb]

theorem chooseLink_fits {a b : Nat} {l : Link} (h : f.chooseLink a b = .ok l)
    (ha : f.next a = a) (hb : f.next b = b) (ha' : a < f.size) (hb' : b < f.size) (hne : a ≠ b) :
    l.Fits f := by
  rcases chooseLink_roots h with ⟨hp, hc⟩ | ⟨hp, hc⟩
  · constructor <;> simp only [hp, hc] <;> first | assumption | exact hne.symm
  · constructor <;> simp only [hp, hc] <;> assumption

end Cospend.Forest
