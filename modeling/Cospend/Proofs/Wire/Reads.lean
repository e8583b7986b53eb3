import Cospend.Wire.Basic

/-!
# What decoders read

A decoder that takes from the front of an octet string exactly what is written for a value, and takes
nothing else, does so in any order of such parts: several parts one after the other, a list of them, and
a part that decides on what follows it.
-/

namespace Cospend.Decoder

variable {α γ : Type} {d : Decoder α} {f : α → Decoder γ}

theorem run_bind_eq_ok {bs rest : Bytes} {c : γ} : (d >>= f).run bs = .ok (c, rest) ↔
    ∃ a bs', d.run bs = .ok (a, bs') ∧ (f a).run bs' = .ok (c, rest) := by
  rw [StateT.run_bind]
  cases h : d.run bs with
  | error e => exact ⟨nofun, fun ⟨_, _, h, _⟩ => nomatch h⟩
  | ok x =>
      constructor
      · exact fun hf => ⟨x.1, x.2, rfl, hf⟩
      · rintro ⟨a, bs', h, hf⟩
        cases h
        exact hf

/-- In front of any octets the decoder reads each value that fits from what `enc` writes for it, and it
reads nothing else. -/
structure Reads (d : Decoder α) (enc : α → Bytes) (fits : α → Prop) : Prop where
  run_append {a : α} (ha : fits a) (rest : Bytes) : d.run (enc a ++ rest) = .ok (a, rest)
  of_run {bs rest : Bytes} {a : α} (h : d.run bs = .ok (a, rest)) : fits a ∧ bs = enc a ++ rest

variable {enc : α → Bytes} {fits : α → Prop} {enc' : γ → Bytes} {fits' : α → γ → Prop}

theorem Reads.congr (h : d.Reads enc fits) {enc₁ : α → Bytes} {fits₁ : α → Prop}
    (hfits : ∀ a, fits₁ a ↔ fits a) (henc : ∀ a, fits a → enc₁ a = enc a) : d.Reads enc₁ fits₁ where
  run_append {a} ha rest := by
    have ha := (hfits a).mp ha
    rw [henc a ha]
    exact h.run_append ha rest
  of_run {bs rest a} hrun := by
    obtain ⟨ha, rfl⟩ := h.of_run hrun
    exact ⟨(hfits a).mpr ha, by rw [henc a ha]⟩

theorem reads_pure (c : γ) : (pure c : Decoder γ).Reads (fun _ => []) (· = c) where
  run_append ha rest := by
    subst ha
    rfl
  of_run h := by
    cases h
    exact ⟨rfl, rfl⟩

theorem reads_throw (e : DecodeError) (enc : α → Bytes) :
    (throw e : Decoder α).Reads enc fun _ => False where
  run_append ha := ha.elim
  of_run h := nomatch h

/-- What the second decoder reads has what the first one read as a part of it. -/
theorem Reads.bind (part : γ → α) (hd : d.Reads enc fits) (hf : ∀ a, (f a).Reads enc' (fits' a))
    (hpart : ∀ a c, fits a → fits' a c → part c = a) :
    (d >>= f).Reads (fun c => enc (part c) ++ enc' c) fun c => fits (part c) ∧ fits' (part c) c where
  run_append {c} hc rest := by
    rw [List.append_assoc]
    exact run_bind_eq_ok.mpr ⟨_, _, hd.run_append hc.1 _, (hf _).run_append hc.2 rest⟩
  of_run {bs rest c} h := by
    obtain ⟨a, bs', ha, hc⟩ := run_bind_eq_ok.mp h
    obtain ⟨hfits, rfl⟩ := hd.of_run ha
    obtain ⟨hfits', rfl⟩ := (hf a).of_run hc
    rw [hpart a c hfits hfits']
    exact ⟨⟨hfits, hfits'⟩, (List.append_assoc ..).symm⟩

/-- A value made of another one, which it has as its only part. -/
theorem Reads.map (hd : d.Reads enc fits) (make : α → γ) (part : γ → α)
    (hpart : ∀ a, fits a → part (make a) = a) :
    (d >>= fun a => pure (make a)).Reads (fun c => enc (part c))
      fun c => fits (part c) ∧ c = make (part c) := by
  refine (hd.bind part (fun a => reads_pure (make a)) ?_).congr (fun _ => Iff.rfl) fun c _ => ?_
  · rintro a c ha rfl
    exact hpart a ha
  · rw [List.append_nil]

/-! ## Octets and sequences -/

theorem reads_octets (n : Nat) : (octets n).Reads (fun bs => bs) fun bs => bs.length = n where
  run_append {bs} h rest := by
    subst h
    simp [octets, StateT.run]
  of_run {bs rest a} h := by
    simp only [octets, StateT.run] at h
    split at h <;> cases h
    exact ⟨List.length_take_of_le ‹_›, (List.take_append_drop n bs).symm⟩

/-- A value made of `n` octets, which are its written form. -/
theorem reads_of_take {n : Nat} (make : (bs : Bytes) → bs.length = n → α)
    (hrun : ∀ bs, d.run bs =
      if h : n ≤ bs.length then .ok (make (bs.take n) (List.length_take_of_le h), bs.drop n)
      else .error .unexpectedEnd)
    (hlength : ∀ a, (enc a).length = n) (henc : ∀ bs h, enc (make bs h) = bs)
    (hmake : ∀ a, make (enc a) (hlength a) = a) : d.Reads enc fun _ => True where
  run_append {a} _ rest := by
    have hle : n ≤ (enc a ++ rest).length := by
      rw [List.length_append, hlength]
      exact Nat.le_add_right n _
    rw [hrun, dif_pos hle]
    simp only [List.take_left' (hlength a), List.drop_left' (hlength a), hmake]
  of_run {bs rest a} h := by
    rw [hrun] at h
    split at h <;> cases h
    rw [henc, List.take_append_drop]
    exact ⟨trivial, rfl⟩

/-- The values one after the other, each of which tells where it ends. -/
theorem reads_replicate (hd : d.Reads enc fits) (n : Nat) :
    (replicate d n).Reads (·.flatMap enc) fun as => as.length = n ∧ ∀ a ∈ as, fits a := by
  induction n with
  | zero =>
      refine (reads_pure []).congr (fun as => ?_) fun as has => ?_
      · rw [List.length_eq_zero_iff, and_iff_left_iff_imp]
        rintro rfl
        exact List.forall_mem_nil _
      · rw [has, List.flatMap_nil]
  | succ n ih =>
      constructor
      · rintro (_ | ⟨a, as⟩) ⟨hlength, has⟩ rest
        · cases hlength
        · obtain ⟨ha, has⟩ := List.forall_mem_cons.mp has
          rw [List.flatMap_cons, List.append_assoc]
          refine run_bind_eq_ok.mpr ⟨a, _, hd.run_append ha _, run_bind_eq_ok.mpr ⟨as, rest, ?_, rfl⟩⟩
          exact ih.run_append ⟨Nat.succ.inj hlength, has⟩ rest
      · intro bs rest as h
        obtain ⟨a, bs₁, ha, h⟩ := run_bind_eq_ok.mp h
        obtain ⟨as', bs₂, has, h⟩ := run_bind_eq_ok.mp h
        cases h
        obtain ⟨hfits, rfl⟩ := hd.of_run ha
        obtain ⟨⟨rfl, hall⟩, rfl⟩ := ih.of_run has
        refine ⟨⟨rfl, List.forall_mem_cons.mpr ⟨hfits, hall⟩⟩, ?_⟩
        rw [List.flatMap_cons, List.append_assoc]

/-! ## Optional values -/

/-- The flag in front of an optional value. -/
def flag (o : Option α) : Bytes := if o.isSome then [1] else [0]

theorem reads_some (hd : d.Reads enc fits) :
    (d >>= fun a => pure (some a)).Reads (·.elim [] enc) fun o => ∃ a, o = some a ∧ fits a where
  run_append := by
    rintro o ⟨a, rfl, ha⟩ rest
    exact run_bind_eq_ok.mpr ⟨a, rest, hd.run_append ha rest, rfl⟩
  of_run h := by
    obtain ⟨a, bs', ha, h⟩ := run_bind_eq_ok.mp h
    cases h
    obtain ⟨hfits, rfl⟩ := hd.of_run ha
    exact ⟨⟨a, rfl, hfits⟩, rfl⟩

/-- The flag tells whether a value follows, and no other octet is a flag. -/
theorem Reads.optional (hd : d.Reads enc fits) {f : Bytes → Decoder (Option α)}
    (hzero : f [0] = pure none) (hone : f [1] = d >>= fun a => pure (some a))
    (hbad : ∀ bs, bs ≠ [0] → bs ≠ [1] → ∃ e, f bs = throw e) :
    (octets 1 >>= f).Reads (fun o => flag o ++ o.elim [] enc) fun o => ∀ a ∈ o, fits a := by
  -- `0` is the flag of no value and `1` that of some; what another octet leads to reads nothing
  have hf (bs : Bytes) : (f bs).Reads (·.elim [] enc) fun o => flag o = bs ∧ ∀ a ∈ o, fits a := by
    by_cases h₀ : bs = [0]
    · subst h₀
      rw [hzero]
      refine (reads_pure none).congr (fun o => ?_) fun o ho => ?_
      · cases o <;> simp [flag]
      · rw [ho]
        rfl
    · by_cases h₁ : bs = [1]
      · subst h₁
        rw [hone]
        refine (reads_some hd).congr (fun o => ?_) fun _ _ => rfl
        cases o <;> simp [flag]
      · obtain ⟨e, he⟩ := hbad bs h₀ h₁
        rw [he]
        refine (reads_throw e _).congr (fun o => iff_of_false ?_ id) fun _ _ => rfl
        rintro ⟨rfl, -⟩
        cases o with
        | none => exact h₀ rfl
        | some a => exact h₁ rfl
  refine ((reads_octets 1).bind flag hf fun _ _ _ h => h.1).congr (fun o => ?_) fun _ _ => rfl
  cases o <;> simp [flag]

end Cospend.Decoder
