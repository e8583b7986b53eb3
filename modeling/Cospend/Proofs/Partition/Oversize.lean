import Cospend.Partition.Restore
import Cospend.Proofs.Store.Numbers

/-!
# Stored sizes that no array has room for

Loading makes room for as many numbers as the store says before it looks for the first of them. With a size
that no array has room for, whoever wrote it, loading is abandoned there. It is abandoned nowhere else.
-/

namespace Cospend

/-- The height and the size are read, and the size is one that no array has room for. -/
structure Store.Oversize (s : Store) : Prop where
  height : ∃ h, s.read .height = .ok h
  size : ∃ n : UInt64, s.read .size = .ok (some n) ∧ Partition.capacityLimit ≤ n.toNat

namespace Partition

variable {α γ : Type} {s : Store} {p : Partition}

/-- The way of loading ends with an answer or with an error. -/
def Ends (x : Loading α) : Prop := ∀ a, x ≠ .error (.abort a)

theorem ends_ok (a : α) : Ends (.ok a : Loading α) := nofun

theorem ends_reading (x : Except ReadError α) : Ends (reading x) := by
  intro a h
  cases x <;> cases h

theorem ends_refuse (i : Inconsistency) : Ends (refuse i : Loading α) := nofun

theorem Ends.bind {x : Loading α} {f : α → Loading γ} (hx : Ends x) (hf : ∀ a, Ends (f a)) :
    Ends (x >>= f) := by
  cases x with
  | ok a => exact hf a
  | error e =>
      intro a h
      cases h
      exact hx a rfl

theorem ends_loadNodes (s : Store) (size left : Nat) (f : Forest) : Ends (loadNodes s size left f) := by
  induction left generalizing f with
  | zero => exact ends_ok f
  | succ left ih =>
      refine (ends_reading _).bind fun parent => ?_
      split
      · exact ends_refuse _
      · exact (ends_reading _).bind fun rank => ih _

theorem ends_loadForest (s : Store) (size : Nat) : Ends (loadForest s size) := by
  refine (ends_loadNodes s size size _).bind fun f => ?_
  split
  · exact ends_refuse _
  · exact ends_ok f

theorem ends_loadIds (s : Store) (size : Nat) : Ends (loadIds s size) := by
  refine (ends_reading _).bind fun entries => ?_
  split
  · exact ends_refuse _
  · dsimp only
    split
    · exact ends_ok _
    · exact ends_refuse _

/-- Loading is abandoned for a size that no array has room for, and for nothing else. -/
theorem load_eq_abort {a : Abort} : load s = .error (.abort a) ↔ a = .capacityOverflow ∧ s.Oversize := by
  unfold load
  cases hheight : s.read .height with
  | error e =>
      refine ⟨fun h => absurd h ?_, ?_⟩
      · nofun
      · rintro ⟨-, ⟨h, hh⟩, -⟩
        cases hheight.symm.trans hh
  | ok height =>
      cases hsize : s.read .size with
      | error e =>
          refine ⟨fun h => absurd h ?_, ?_⟩
          · nofun
          · rintro ⟨-, -, n, hn, -⟩
            cases hsize.symm.trans hn
      | ok stored =>
          change (if _ then _ else _) = _ ↔ _
          split
          · rename_i hle
            constructor
            · intro h
              cases h
              cases stored with
              | none => exact absurd hle (by decide)
              | some n => exact ⟨rfl, ⟨height, hheight⟩, n, hsize, hle⟩
            · rintro ⟨rfl, -⟩
              rfl
          · rename_i hlt
            constructor
            · refine fun h => absurd h (Ends.bind (ends_loadForest s _) (fun forest => ?_) a)
              exact (ends_loadIds s _).bind fun ids => ends_ok _
            · rintro ⟨-, -, n, hn, hle⟩
              cases hsize.symm.trans hn
              exact absurd hle hlt

theorem restore_eq_abort {a : Abort} :
    (p.restore s).1 = .error (.abort a) ↔ a = .capacityOverflow ∧ s.Oversize := by
  rw [← load_eq_abort]
  unfold restore
  cases load s with
  | error e => simp
  | ok q => simp

/-- A partition that cannot be read back stays as it is. -/
theorem restore_of_ne_ok (h : ∀ q, load s ≠ .ok q) : ∃ e, p.restore s = (.error e, p) := by
  unfold restore
  cases hload : load s with
  | error e => exact ⟨e, rfl⟩
  | ok q => exact absurd hload (h q)

end Partition

theorem Store.Oversize.le_count {s : Store} (h : s.Oversize) : Partition.capacityLimit ≤ s.table.count := by
  obtain ⟨n, hn, hle⟩ := h.size
  have hcount := (Table.look_size_eq_ok.mp ⟨_, (Store.read_eq_ok.mp hn).2, rfl⟩).2
  rwa [hcount]

end Cospend
