import Cospend.Proofs.Wire.Number
import Cospend.Store.Variable
import Std.Data.String.ToNat

/-!
# Keys and values of variables

No two variables have the same key, only the keys of addresses begin as those of addresses do, and
the octets written for a value are read back as that value.
-/

namespace Cospend.Variable

/-! ## Keys -/

theorem key_height : key .height = [104, 101, 105, 103, 104, 116] := by decide

theorem key_size : key .size = [115, 105, 122, 101] := by decide

theorem key_parent (id : Nat) : key (.parent id) = 112 :: Bytes.ofText (toString id) := by
  rw [key, show Bytes.ofText "p" = [112] by decide, List.singleton_append]

theorem key_rank (id : Nat) : key (.rank id) = 114 :: Bytes.ofText (toString id) := by
  rw [key, show Bytes.ofText "r" = [114] by decide, List.singleton_append]

theorem addressLead_eq : addressLead = [97, 100, 100, 114] := by decide

theorem key_addressId (a : Address) : key (.addressId a) = addressLead ++ Bytes.ofText a.text := rfl

/-- Keys of different kinds differ in the first octet. -/
theorem key_inj {v w : Variable} : v.key = w.key ↔ v = w := by
  refine ⟨fun h => ?_, fun h => h ▸ rfl⟩
  cases v <;> cases w <;>
    simp only [key_height, key_size, key_parent, key_rank, key_addressId, addressLead_eq,
      List.cons_append, List.nil_append, List.cons.injEq, Bytes.ofText_inj] at h
  case height.height => rfl
  case size.size => rfl
  case parent.parent => rw [Nat.repr_inj.mp h.2]
  case rank.rank => rw [Nat.repr_inj.mp h.2]
  case addressId.addressId a b =>
    obtain ⟨-, -, -, -, htext⟩ := h
    cases a
    cases b
    cases htext
    rfl
  all_goals exact absurd h.1 (by decide)

theorem addressLead_isPrefixOf_key {v : Variable} (h : addressLead.isPrefixOf v.key = true) :
    ∃ a, v = .addressId a := by
  cases v with
  | addressId a => exact ⟨a, rfl⟩
  | height => rw [key_height, addressLead_eq] at h; simp at h
  | size => rw [key_size, addressLead_eq] at h; simp at h
  | parent id => rw [key_parent, addressLead_eq] at h; simp at h
  | rank id => rw [key_rank, addressLead_eq] at h; simp at h

theorem isPrefixOf_key_addressId (a : Address) :
    addressLead.isPrefixOf (key (.addressId a)) = true := by
  rw [key_addressId]
  exact List.isPrefixOf_iff_prefix.mpr (List.prefix_append _ _)

/-! ## Values -/

theorem take_of_reads {α : Type} {d : Decoder α} {enc : α → Bytes} {fits : α → Prop} (v : Variable)
    {a : α} (h : d.Reads enc fits) (ha : fits a) : take v d (enc a) = .ok a := by
  have hrun := h.run_append ha []
  rw [List.append_nil] at hrun
  rw [take, hrun]

theorem decode_height {bs : Bytes} {h : Height}
    (hbs : take .height (Decoder.int 8) bs = .ok h.toInt) : decode .height bs = .ok h := by
  have hint : Height.ofInt? h.toInt = some h := dif_pos ⟨h.le_toInt, h.toInt_lt⟩
  simp only [decode, hbs, bind, Except.bind, hint]
  rfl

theorem decode_encode : (v : Variable) → (x : v.Value) → v.decode (v.encode x) = .ok x
  | .height, h => by
      have hlow := h.le_toInt
      have hhigh := h.toInt_lt
      have hspan : LittleEndian.span 8 = 0x10000000000000000 := rfl
      exact decode_height (take_of_reads _ (Decoder.reads_int 8) ⟨by omega, by omega⟩)
  | .size, _ => take_of_reads .size Wire.reads_uint64 trivial
  | .parent i, _ => take_of_reads (.parent i) Wire.reads_addressId trivial
  | .rank i, _ => take_of_reads (.rank i) Wire.reads_uint64 trivial
  | .addressId a, _ => take_of_reads (.addressId a) Wire.reads_addressId trivial

theorem encode_inj {v : Variable} {x y : v.Value} (h : v.encode x = v.encode y) : x = y := by
  have hx := decode_encode v x
  rw [h, decode_encode] at hx
  exact (Except.ok.inj hx).symm

end Cospend.Variable
