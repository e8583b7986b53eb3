import Cospend.Clusterizer.Block
import Cospend.Proofs.Partition.Outcomes

/-!
# Elementary changes

Whatever is registered, looked for or merged, and however it ends, three kinds of changes come of it: an
address is new, a way to a root gets shorter, or two trees are joined. What each of these keeps is kept by
the operations.
-/

namespace Cospend.Workspace

variable {β : Type} [WriteBatch β] {w w' w'' : Workspace β} {a b : Address}

/-- The workspace `w` becomes another one by elementary changes. -/
inductive Edits (w : Workspace β) : Workspace β → Prop
  | refl : Edits w w
  | add {w' : Workspace β} {a : Address} (h : Edits w w') (ha : w'.partition.ids[a]? = none)
      (hroom : w'.partition.size + 1 < Partition.capacityLimit) : Edits w (w'.add a)
  | shorten {w' : Workspace β} (h : Edits w w') (i : Nat) :
      Edits w (w'.shorten (w'.partition.forest.compress i))
  | join {w' : Workspace β} {x y : Nat} {l : Forest.Link} (h : Edits w w')
      (hl : l.Fits w'.partition.forest) (hchoose : w'.partition.forest.chooseLink x y = .ok l) :
      Edits w (w'.join l)

namespace Edits

theorem trans (h : Edits w w') (h' : Edits w' w'') : Edits w w'' := by
  induction h' with
  | refl => exact h
  | add _ ha hroom ih => exact ih.add ha hroom
  | shorten _ i ih => exact ih.shorten i
  | join _ hl hchoose ih => exact ih.join hl hchoose

theorem sound (h : Edits w w') (hw : w.partition.Sound) : w'.partition.Sound := by
  induction h with
  | refl => exact hw
  | add _ _ _ ih => exact ih.add _
  | shorten _ i ih => exact (Partition.alike_of_forest (ih.forest.compress i)).sound ih
  | join _ hl _ ih => exact ih.link hl

theorem numbered (h : Edits w w') (hw : w.partition.Numbered) : w'.partition.Numbered := by
  induction h with
  | refl => exact hw
  | add _ ha hroom ih => exact ih.add ha hroom
  | shorten _ i ih => exact (Partition.alike_of_forest (ih.forest.compress i)).numbered ih
  | join _ hl _ ih => exact ih.link hl

theorem bind {α γ : Type} {x : Work β α} {f : α → Work β γ} (hw : w.partition.Sound)
    (h : Edits w (x w).2)
    (hf : ∀ a w', x w = (.ok a, w') → w'.partition.Sound → Edits w' (f a w').2) :
    Edits w ((x >>= f) w).2 := by
  refine bind_cases (motive := fun (r : _ × Workspace β) => Edits w r.2) ?_ ?_
  · intro e w' hx
    rwa [hx] at h
  · intro a w' hx
    rw [hx] at h
    exact h.trans (hf a w' hx (h.sound hw))

end Edits

/-! ## The operations -/

theorem edits_register (w : Workspace β) (a : Address) : Edits w (register a w).2 := by
  cases h : w.partition.ids[a]? with
  | none =>
      by_cases hroom : w.partition.size + 1 < Partition.capacityLimit
      · rw [register_of_none h hroom]
        exact .add .refl h hroom
      · rw [register_of_full h hroom]
        exact .refl
  | some i =>
      rw [register_of_some h]
      exact .refl

theorem edits_find (w : Workspace β) (a : Address) : Edits w (find a w).2 := by
  cases h : w.partition.ids[a]? with
  | none =>
      rw [find_of_none h]
      exact .refl
  | some i =>
      rw [find_of_some h]
      exact .shorten .refl i

theorem edits_union (hw : w.partition.Sound) (a b : Address) : Edits w (union a b w).2 := by
  refine (edits_find w a).bind hw fun x w₁ h₁ hw₁ => ?_
  refine (edits_find w₁ b).bind hw₁ fun y w₂ h₂ hw₂ => ?_
  have hfind₂ := find_alike hw₁ h₂
  have hx : w₂.partition.clusterOf a = some x := by
    rw [(hfind₂.trans (find_alike hw h₁)).clusterOf_eq]
    exact find_eq_ok h₁
  have hy : w₂.partition.clusterOf b = some y := by
    rw [hfind₂.clusterOf_eq]
    exact find_eq_ok h₂
  split
  · exact .refl
  · rename_i hne
    unfold link
    split
    · exact .refl
    · rename_i l hl
      exact .join .refl (hw₂.link_fits hl hx hy hne) hl

theorem edits_registerAll (hw : w.partition.Sound) (as : List Address) :
    Edits w (registerAll as w).2 := by
  induction as generalizing w with
  | nil => exact .refl
  | cons a as ih => exact (edits_register w a).bind hw fun _ _ _ hw' => ih hw'

theorem edits_unionAll (hw : w.partition.Sound) (anchor : Address) (as : List Address) :
    Edits w (unionAll anchor as w).2 := by
  induction as generalizing w with
  | nil => exact .refl
  | cons a as ih => exact (edits_union hw anchor a).bind hw fun _ _ _ hw' => ih hw'

theorem edits_cospend (hw : w.partition.Sound) (as : List Address) : Edits w (cospend as w).2 := by
  refine (edits_registerAll hw as).bind hw fun _ w' _ hw' => ?_
  cases as with
  | nil => exact .refl
  | cons anchor others => exact edits_unionAll hw' anchor others

end Cospend.Workspace
