import Cospend.Clusterizer.Block
import Cospend.Proofs.Partition.Staging

/-!
# The addresses of one transaction

Putting addresses into one cluster is staged like the operations that it is made of and leaves the height
as it is, and what it does to the partition depends on the partition alone and not on what is pending.
-/

namespace Cospend.Workspace

variable {β γ α δ : Type} [WriteBatch β] [WriteBatch γ]

/-! ## Staging -/

theorem staged_cospend [LawfulBatch β] {w : Workspace β} (hw : w.partition.Numbered)
    (as : List Address) : Staged w (cospend as w).2 :=
  (edits_cospend hw.toSound as).staged hw

/-! ## The height -/

section Level

/-- The operation leaves the height of the last checkpoint as it is, whether it succeeds or not. -/
def Level (x : Work β α) : Prop := ∀ w, (x w).2.partition.height = w.partition.height

omit [WriteBatch β] in
theorem Level.pure (a : α) : Level (pure a : Work β α) := fun _ => rfl

omit [WriteBatch β] in
theorem Level.bind {x : Work β α} {f : α → Work β δ} (hx : Level x) (hf : ∀ a, Level (f a)) :
    Level (x >>= f) := by
  intro w
  have hw := hx w
  refine bind_cases (motive := fun (r : _ × Workspace β) =>
    r.2.partition.height = w.partition.height) ?_ ?_
  · intro e w' h
    rwa [h] at hw
  · intro a w' h
    rw [h] at hw
    exact (hf a w').trans hw

theorem level_register (a : Address) : Level (register a : Work β Nat) := by
  intro w
  unfold register
  split
  · rfl
  · split <;> rfl

theorem level_find (a : Address) : Level (find a : Work β Nat) := by
  intro w
  unfold find
  split <;> rfl

theorem level_link (x y : Nat) : Level (link x y : Work β Nat) := by
  intro w
  unfold link
  split <;> rfl

theorem level_union (a b : Address) : Level (union a b : Work β Nat) := by
  refine (level_find a).bind fun x => (level_find b).bind fun y => ?_
  split
  · exact .pure x
  · exact level_link x y

theorem level_registerAll (as : List Address) : Level (registerAll as : Work β Unit) := by
  induction as with
  | nil => exact .pure ()
  | cons a as ih => exact (level_register a).bind fun _ => ih

theorem level_unionAll (anchor : Address) (as : List Address) :
    Level (unionAll anchor as : Work β Unit) := by
  induction as with
  | nil => exact .pure ()
  | cons a as ih => exact (level_union anchor a).bind fun _ => ih

theorem level_cospend (as : List Address) : Level (cospend as : Work β Unit) := by
  refine (level_registerAll as).bind fun _ => ?_
  cases as with
  | nil => exact .pure ()
  | cons anchor others => exact level_unionAll anchor others

end Level

/-! ## What is pending does not matter -/

/-- The operations answer the same of the same partition and leave the same partition. -/
def Uniform (x : Work β α) (y : Work γ α) : Prop :=
  ∀ w v, w.partition = v.partition →
    (x w).1 = (y v).1 ∧ (x w).2.partition = (y v).2.partition

omit [WriteBatch β] [WriteBatch γ] in
theorem Uniform.pure (a : α) : Uniform (pure a : Work β α) (pure a : Work γ α) :=
  fun _ _ h => ⟨rfl, h⟩

omit [WriteBatch β] [WriteBatch γ] in
theorem Uniform.bind {x : Work β α} {y : Work γ α} {f : α → Work β δ} {g : α → Work γ δ}
    (h : Uniform x y) (hf : ∀ a, Uniform (f a) (g a)) : Uniform (x >>= f) (y >>= g) := by
  intro w v hwv
  obtain ⟨hanswer, hpartition⟩ := h w v hwv
  rcases hx : x w with ⟨r, w'⟩
  rcases hy : y v with ⟨r', v'⟩
  rw [hx, hy] at hanswer hpartition
  obtain rfl : r = r' := hanswer
  cases r with
  | error e =>
      rw [bind_of_error hx, bind_of_error hy]
      exact ⟨rfl, hpartition⟩
  | ok a =>
      rw [bind_of_ok hx, bind_of_ok hy]
      exact hf a w' v' hpartition

theorem uniform_register (a : Address) : Uniform (register a : Work β Nat) (register a : Work γ Nat) := by
  intro w v hwv
  cases hi : v.partition.ids[a]? with
  | none =>
      by_cases hroom : v.partition.size + 1 < Partition.capacityLimit
      · rw [register_of_none hi hroom, register_of_none (hwv ▸ hi) (hwv ▸ hroom)]
        simp only [add, hwv, and_self]
      · rw [register_of_full hi hroom, register_of_full (hwv ▸ hi) (hwv ▸ hroom)]
        exact ⟨rfl, hwv⟩
  | some i =>
      rw [register_of_some hi, register_of_some (hwv ▸ hi)]
      exact ⟨rfl, hwv⟩

theorem uniform_find (a : Address) : Uniform (find a : Work β Nat) (find a : Work γ Nat) := by
  intro w v hwv
  cases hi : v.partition.ids[a]? with
  | none =>
      rw [find_of_none hi, find_of_none (hwv ▸ hi)]
      exact ⟨rfl, hwv⟩
  | some i =>
      rw [find_of_some hi, find_of_some (hwv ▸ hi)]
      simp only [shorten, hwv, and_self]

theorem uniform_link (x y : Nat) : Uniform (link x y : Work β Nat) (link x y : Work γ Nat) := by
  intro w v hwv
  simp only [link, hwv]
  cases v.partition.forest.chooseLink x y with
  | error e => exact ⟨rfl, hwv⟩
  | ok l => simp only [join, hwv, and_self]

theorem uniform_union (a b : Address) : Uniform (union a b : Work β Nat) (union a b : Work γ Nat) := by
  refine (uniform_find a).bind fun x => (uniform_find b).bind fun y => ?_
  split
  · exact .pure x
  · exact uniform_link x y

theorem uniform_registerAll (as : List Address) :
    Uniform (registerAll as : Work β Unit) (registerAll as : Work γ Unit) := by
  induction as with
  | nil => exact .pure ()
  | cons a as ih => exact (uniform_register a).bind fun _ => ih

theorem uniform_unionAll (anchor : Address) (as : List Address) :
    Uniform (unionAll anchor as : Work β Unit) (unionAll anchor as : Work γ Unit) := by
  induction as with
  | nil => exact .pure ()
  | cons a as ih => exact (uniform_union anchor a).bind fun _ => ih

theorem uniform_cospend (as : List Address) :
    Uniform (cospend as : Work β Unit) (cospend as : Work γ Unit) := by
  refine (uniform_registerAll as).bind fun _ => ?_
  cases as with
  | nil => exact .pure ()
  | cons anchor others => exact uniform_unionAll anchor others

end Cospend.Workspace
