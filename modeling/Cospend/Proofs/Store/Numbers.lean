import Cospend.Proofs.Store.Reading

/-!
# Numbers in a table

Every value is read from the first eight octets of an entry, and whatever follows them is ignored. All
values are plain numbers but the height, which has a sign and must lie in the range of heights.
-/

namespace Cospend

namespace Bytes

/-- The number in the first eight octets. -/
def number? (bs : Bytes) : Option Nat :=
  if 8 ≤ bs.length then some (LittleEndian.decode (bs.take 8)) else none

/-- The height in the first eight octets. -/
def height? (bs : Bytes) : Option Height :=
  if 8 ≤ bs.length then Height.ofInt? (LittleEndian.decodeInt (bs.take 8)) else none

theorem number?_lt {bs : Bytes} {n : Nat} (h : bs.number? = some n) : n < UInt64.size := by
  unfold number? at h
  split at h
  · rename_i hlen
    cases h
    have hlt := LittleEndian.decode_lt (bs.take 8)
    rwa [List.length_take_of_le hlen] at hlt
  · cases h

end Bytes

namespace Variable

variable {bs : Bytes}

/-- A decoder that makes a value of the first eight octets. -/
theorem take_octets_eq_ok {α : Type} {v : Variable} {f : Bytes → α} {a : α} :
    v.take (do return f (← Decoder.octets 8)) bs = .ok a ↔ 8 ≤ bs.length ∧ f (bs.take 8) = a := by
  have hoctets : (Decoder.octets 8).run bs =
      if 8 ≤ bs.length then .ok (bs.take 8, bs.drop 8) else .error .unexpectedEnd := rfl
  rw [take, StateT.run_bind, hoctets]
  by_cases hlen : 8 ≤ bs.length
  · rw [if_pos hlen]
    change Except.ok (f (bs.take 8)) = Except.ok a ↔ _
    simp [hlen]
  · simp [hlen, bind, Except.bind]

theorem take_int_eq_ok {v : Variable} {n : Int} : v.take (Decoder.int 8) bs = .ok n ↔
    8 ≤ bs.length ∧ LittleEndian.decodeInt (bs.take 8) = n :=
  take_octets_eq_ok

theorem decoder_uint64 : (Wire.decoder : Decoder UInt64) =
    (do return UInt64.ofNat (LittleEndian.decode (← Decoder.octets 8))) := by
  change (Decoder.nat 8 >>= fun n => pure (UInt64.ofNat n)) = _
  simp only [Decoder.nat, bind_assoc, pure_bind]

theorem decoder_addressId : (Wire.decoder : Decoder AddressId) =
    (do return AddressId.ofNat (LittleEndian.decode (← Decoder.octets 8))) := by
  change ((Wire.decoder : Decoder UInt64) >>= fun n => pure (AddressId.mk n)) = _
  simp only [decoder_uint64, bind_assoc, pure_bind, AddressId.ofNat]

theorem take_uint64_eq_ok {v : Variable} {n : UInt64} :
    v.take (Wire.decoder (α := UInt64)) bs = .ok n ↔ bs.number? = some n.toNat := by
  rw [decoder_uint64, take_octets_eq_ok (f := fun bs => UInt64.ofNat (LittleEndian.decode bs)),
    Bytes.number?]
  by_cases hlen : 8 ≤ bs.length
  · have hlt : LittleEndian.decode (bs.take 8) < UInt64.size := Bytes.number?_lt (if_pos hlen)
    simp only [hlen, true_and, if_true, Option.some.injEq, ← UInt64.toNat_inj,
      UInt64.toNat_ofNat_of_lt' hlt]
  · simp [hlen]

theorem take_addressId_eq_ok {v : Variable} {id : AddressId} :
    v.take (Wire.decoder (α := AddressId)) bs = .ok id ↔ bs.number? = some id.toNat := by
  rw [AddressId.toNat, ← take_uint64_eq_ok (v := v), decoder_addressId, decoder_uint64,
    take_octets_eq_ok (f := fun bs => AddressId.ofNat (LittleEndian.decode bs)),
    take_octets_eq_ok (f := fun bs => UInt64.ofNat (LittleEndian.decode bs))]
  obtain ⟨n⟩ := id
  simp [AddressId.ofNat]

theorem decode_height_eq_ok {h : Height} : decode .height bs = .ok h ↔ bs.height? = some h := by
  rw [decode, bind_eq_ok, Bytes.height?]
  simp only [take_int_eq_ok]
  constructor
  · rintro ⟨n, ⟨hlen, rfl⟩, hn⟩
    rw [if_pos hlen]
    split at hn
    · cases hn
      assumption
    · cases hn
  · intro h
    split at h
    · exact ⟨_, ⟨‹_›, rfl⟩, by rw [h]; rfl⟩
    · cases h

/-! ## What is written -/

variable {i : Nat} {a : Address}

@[simp] theorem height?_encode (h : Height) : (encode .height h).height? = some h :=
  decode_height_eq_ok.mp (decode_encode .height h)

@[simp] theorem number?_encode_size (n : UInt64) : (encode .size n).number? = some n.toNat :=
  (take_uint64_eq_ok (v := .size)).mp (decode_encode .size n)

@[simp] theorem number?_encode_parent (id : AddressId) : (encode (.parent i) id).number? = some id.toNat :=
  (take_addressId_eq_ok (v := .parent i)).mp (decode_encode (.parent i) id)

@[simp] theorem number?_encode_rank (n : UInt64) : (encode (.rank i) n).number? = some n.toNat :=
  (take_uint64_eq_ok (v := .rank i)).mp (decode_encode (.rank i) n)

@[simp] theorem number?_encode_addressId (id : AddressId) :
    (encode (.addressId a) id).number? = some id.toNat :=
  (take_addressId_eq_ok (v := .addressId a)).mp (decode_encode (.addressId a) id)

end Variable

namespace Table

variable {t : Table}

/-- The number that a table holds for a variable. -/
def number? (t : Table) (v : Variable) : Option Nat := t[v.key]?.bind Bytes.number?

/-- The height that a table holds. -/
def height? (t : Table) : Option Height := t[Variable.height.key]?.bind Bytes.height?

/-- How many addresses a table holds, as its size tells. -/
def count (t : Table) : Nat := (t.number? .size).getD 0

theorem number?_eq_some {v : Variable} {n : Nat} :
    t.number? v = some n ↔ ∃ bs, t[v.key]? = some bs ∧ bs.number? = some n :=
  Option.bind_eq_some_iff

theorem number?_lt {v : Variable} {n : Nat} (h : t.number? v = some n) : n < UInt64.size := by
  obtain ⟨bs, -, hbs⟩ := number?_eq_some.mp h
  exact Bytes.number?_lt hbs

theorem look_height_eq_ok {x : Option Height} : t.look .height = .ok x ↔
    (∀ bs, t[Variable.height.key]? = some bs → ∃ h, bs.height? = some h) ∧ t.height? = x := by
  unfold look height?
  cases t[Variable.height.key]? with
  | none => simp [pure_eq_ok]
  | some bs =>
      simp only [bind_eq_ok, pure_eq_ok, Option.bind_some, Option.some.injEq, forall_eq']
      constructor
      · rintro ⟨h, hbs, rfl⟩
        have hheight := Variable.decode_height_eq_ok.mp hbs
        exact ⟨⟨h, hheight⟩, hheight⟩
      · rintro ⟨⟨h, hheight⟩, rfl⟩
        exact ⟨h, Variable.decode_height_eq_ok.mpr hheight, hheight.symm⟩

theorem look_size_eq_ok {n : Nat} : (∃ x : Option UInt64, t.look .size = .ok x ∧ (x.getD 0).toNat = n) ↔
    (∀ bs, t[Variable.size.key]? = some bs → ∃ m, bs.number? = some m) ∧ t.count = n := by
  unfold look count number?
  cases t[Variable.size.key]? with
  | none => simp [pure_eq_ok]
  | some bs =>
      simp only [bind_eq_ok, pure_eq_ok, Variable.decode, Variable.take_uint64_eq_ok, Option.bind_some,
        Option.some.injEq, forall_eq']
      constructor
      · rintro ⟨_, ⟨m, hbs, rfl⟩, rfl⟩
        exact ⟨⟨m.toNat, hbs⟩, by rw [hbs]; rfl⟩
      · rintro ⟨⟨m, hbs⟩, rfl⟩
        have hm : (UInt64.ofNat m).toNat = m := UInt64.toNat_ofNat_of_lt' (Bytes.number?_lt hbs)
        exact ⟨_, ⟨UInt64.ofNat m, by rw [hbs, hm], rfl⟩, by rw [hbs]; exact hm⟩

theorem look_parent_eq_some {i : Nat} {id : AddressId} :
    t.look (.parent i) = .ok (some id) ↔ t.number? (.parent i) = some id.toNat := by
  rw [look_eq_some_iff, number?_eq_some]
  exact exists_congr fun _ => and_congr_right' Variable.take_addressId_eq_ok

theorem look_rank_eq_some {i : Nat} {n : UInt64} :
    t.look (.rank i) = .ok (some n) ↔ t.number? (.rank i) = some n.toNat := by
  rw [look_eq_some_iff, number?_eq_some]
  exact exists_congr fun _ => and_congr_right' Variable.take_uint64_eq_ok

theorem look_addressId_eq_some {a : Address} {id : AddressId} :
    t.look (.addressId a) = .ok (some id) ↔ t.number? (.addressId a) = some id.toNat := by
  rw [look_eq_some_iff, number?_eq_some]
  exact exists_congr fun _ => and_congr_right' Variable.take_addressId_eq_ok

end Table

end Cospend
