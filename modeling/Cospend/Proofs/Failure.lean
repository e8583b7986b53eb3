import Cospend.Failure
import Mathlib.Data.List.Forall2

/-!
# Answers of operations that may fail

What the answer of a sequence of operations tells of the answers of its parts.
-/

namespace Cospend

variable {ε α γ : Type}

theorem bind_eq_ok {x : Except ε α} {f : α → Except ε γ} {c : γ} :
    x >>= f = .ok c ↔ ∃ a, x = .ok a ∧ f a = .ok c := by
  cases x with
  | error e =>
      constructor
      · intro h; cases h
      · rintro ⟨_, h, _⟩; cases h
  | ok a =>
      constructor
      · exact fun h => ⟨a, rfl, h⟩
      · rintro ⟨_, h, h'⟩; cases h; exact h'

theorem pure_eq_ok {a c : α} : (pure a : Except ε α) = .ok c ↔ a = c :=
  ⟨fun h => Except.ok.inj h, congrArg _⟩

theorem mapM_eq_ok {f : α → Except ε γ} {as : List α} {cs : List γ} :
    as.mapM f = .ok cs ↔ List.Forall₂ (fun a c => f a = .ok c) as cs := by
  induction as generalizing cs with
  | nil =>
      rw [List.mapM_nil, pure_eq_ok, List.forall₂_nil_left_iff]
      exact eq_comm
  | cons a as ih =>
      rw [List.mapM_cons, bind_eq_ok, List.forall₂_cons_left_iff]
      constructor
      · rintro ⟨c, ha, h⟩
        obtain ⟨cs', has, h⟩ := bind_eq_ok.mp h
        exact ⟨c, cs', ha, ih.mp has, (pure_eq_ok.mp h).symm⟩
      · rintro ⟨c, cs', ha, has, rfl⟩
        exact ⟨c, ha, bind_eq_ok.mpr ⟨cs', ih.mpr has, rfl⟩⟩

/-- The results are those of the members. -/
theorem mem_of_mapM_eq_ok {f : α → Except ε γ} {as : List α} {cs : List γ} (h : as.mapM f = .ok cs)
    {c : γ} : c ∈ cs ↔ ∃ a ∈ as, f a = .ok c := by
  have hall := mapM_eq_ok.mp h
  clear h
  induction hall with
  | nil => simp
  | @cons a c' as cs ha _ ih =>
      simp only [List.mem_cons, exists_eq_or_imp, ha]
      exact or_congr ⟨fun h => h ▸ rfl, fun h => (Except.ok.inj h).symm⟩ ih

theorem exists_of_mapM_eq_ok {f : α → Except ε γ} {as : List α} {cs : List γ} (h : as.mapM f = .ok cs)
    {a : α} (ha : a ∈ as) : ∃ c, f a = .ok c := by
  have hall := (mapM_eq_ok.mp h).imp fun a c hc => show (∃ c, f a = .ok c) ∧ f a = .ok c from ⟨⟨c, hc⟩, hc⟩
  exact ((List.forall₂_and_left _ _).mp hall).1 a ha

theorem map_eq_of_mapM_eq_ok {f : α → Except ε γ} {as : List α} {cs : List γ} {κ : Type} {g : α → κ}
    {g' : γ → κ} (h : as.mapM f = .ok cs) (heq : ∀ a ∈ as, ∀ c, f a = .ok c → g a = g' c) :
    as.map g = cs.map g' := by
  have hall := mapM_eq_ok.mp h
  clear h
  induction hall with
  | nil => rfl
  | @cons a c as cs ha _ ih =>
      rw [List.map_cons, List.map_cons, heq a List.mem_cons_self c ha,
        ih fun a' ha' => heq a' (List.mem_cons_of_mem _ ha')]

/-- It suffices that every member has a result. -/
theorem exists_mapM_eq_ok {f : α → Except ε γ} {as : List α} (h : ∀ a ∈ as, ∃ c, f a = .ok c) :
    ∃ cs, as.mapM f = .ok cs := by
  induction as with
  | nil => exact ⟨[], rfl⟩
  | cons a as ih =>
      obtain ⟨c, hc⟩ := h a List.mem_cons_self
      obtain ⟨cs, hcs⟩ := ih fun a ha => h a (List.mem_cons_of_mem _ ha)
      exact ⟨c :: cs, mapM_eq_ok.mpr (.cons hc (mapM_eq_ok.mp hcs))⟩

/-! ## Operations on a state -/

section State

variable {σ : Type} {x : ExceptT ε (StateM σ) α} {f : α → ExceptT ε (StateM σ) γ} {s s' : σ}

theorem bind_of_ok {a : α} (h : x s = (.ok a, s')) : (x >>= f) s = f a s' := by
  change ExceptT.bindCont f (x s).1 (x s).2 = _
  rw [h]
  rfl

theorem bind_of_error {e : ε} (h : x s = (.error e, s')) : (x >>= f) s = (.error e, s') := by
  change ExceptT.bindCont f (x s).1 (x s).2 = _
  rw [h]
  rfl

theorem bind_get {f : σ → ExceptT ε (StateM σ) γ} : (get >>= f) s = f s s := rfl

/-- A sequence of two operations ends as the first one, if that fails, and else as the second one. -/
theorem bind_cases {motive : Except ε γ × σ → Prop}
    (error : ∀ e s', x s = (.error e, s') → motive (.error e, s'))
    (ok : ∀ a s', x s = (.ok a, s') → motive (f a s')) : motive ((x >>= f) s) := by
  rcases h : x s with ⟨e | a, s'⟩
  · rw [bind_of_error h]
    exact error e s' h
  · rw [bind_of_ok h]
    exact ok a s' h

/-- An operation whose error is caught ends as what is done then, if it fails. -/
theorem tryCatch_cases {g : ε → ExceptT ε (StateM σ) α} {motive : Except ε α × σ → Prop}
    (error : ∀ e s', x s = (.error e, s') → motive (g e s'))
    (ok : ∀ a s', x s = (.ok a, s') → motive (.ok a, s')) : motive (tryCatch x g s) := by
  simp only [tryCatch, tryCatchThe, MonadExceptOf.tryCatch, ExceptT.tryCatch, ExceptT.mk, bind, StateT.bind]
  rcases h : x s with ⟨e | a, s'⟩
  · exact error e s' h
  · exact ok a s' h

theorem bind_ok_cases {c : γ} {s'' : σ} (h : (x >>= f) s = (.ok c, s'')) :
    ∃ a s', x s = (.ok a, s') ∧ f a s' = (.ok c, s'') := by
  rcases hx : x s with ⟨e | a, s'⟩
  · rw [bind_of_error hx] at h
    cases h
  · rw [bind_of_ok hx] at h
    exact ⟨a, s', rfl, h⟩

end State

end Cospend
