import Cospend.Chain.Address
import Cospend.Proofs.Wire.Reads

/-!
# Numbers on the wire

A number in a fixed width is read from the front of an octet string, whatever follows it, and from no
octets but those that are written for it.
-/

namespace Cospend

namespace LittleEndian

theorem span_pos (width : Nat) : 0 < span width := by
  induction width with
  | zero => exact Nat.one_pos
  | succ width ih => exact Nat.mul_pos (by decide) ih

theorem decodeInt_encodeInt {width : Nat} {n : Int} (hlow : -(span width) ≤ 2 * n)
    (hhigh : 2 * n < span width) : decodeInt (encodeInt width n) = n := by
  have hpos := span_pos width
  rw [decodeInt, length_encodeInt, encodeInt, decode_encode]
  generalize span width = m at hpos hlow hhigh ⊢
  have hmod : (((n % m).toNat % m : Nat) : Int) = n % m := by
    have hnonneg := Int.emod_nonneg n (b := m) (by omega)
    rw [Int.natCast_emod, Int.toNat_of_nonneg hnonneg, Int.emod_emod]
  rw [hmod, Int.emod_bmod]
  exact (Int.bmod_eq_iff hpos).mpr ⟨by omega, by omega, by simp⟩

theorem encodeInt_decodeInt (bs : Bytes) : encodeInt bs.length (decodeInt bs) = bs := by
  have hlt := decode_lt bs
  rw [encodeInt, decodeInt, Int.bmod_emod, Int.emod_eq_of_lt (by omega) (by omega), Int.toNat_natCast,
    encode_decode]

theorem decodeInt_bounds (bs : Bytes) :
    -(span bs.length) ≤ 2 * decodeInt bs ∧ 2 * decodeInt bs < span bs.length := by
  have hpos := span_pos bs.length
  have hlow := Int.le_bmod (x := decode bs) hpos
  have hhigh := Int.bmod_lt (x := decode bs) hpos
  rw [decodeInt]
  omega

end LittleEndian

namespace Decoder

theorem reads_nat (width : Nat) :
    (nat width).Reads (LittleEndian.encode width) (· < LittleEndian.span width) := by
  refine ((reads_octets width).map LittleEndian.decode (LittleEndian.encode width) ?_).congr ?_
    fun _ _ => rfl
  · rintro bs rfl
    exact LittleEndian.encode_decode bs
  · intro n
    rw [LittleEndian.decode_encode, and_iff_right (LittleEndian.length_encode width n)]
    exact ⟨fun h => (Nat.mod_eq_of_lt h).symm,
      fun h => h ▸ Nat.mod_lt n (LittleEndian.span_pos width)⟩

theorem reads_int (width : Nat) : (int width).Reads (LittleEndian.encodeInt width)
    fun n => -(LittleEndian.span width) ≤ 2 * n ∧ 2 * n < LittleEndian.span width := by
  refine ((reads_octets width).map LittleEndian.decodeInt (LittleEndian.encodeInt width) ?_).congr
    (fun n => ?_) fun _ _ => rfl
  · rintro bs rfl
    exact LittleEndian.encodeInt_decodeInt bs
  · have hlength := LittleEndian.length_encodeInt width n
    rw [and_iff_right hlength]
    constructor
    · exact fun ⟨hlow, hhigh⟩ => (LittleEndian.decodeInt_encodeInt hlow hhigh).symm
    · intro hn
      have hbounds := LittleEndian.decodeInt_bounds (LittleEndian.encodeInt width n)
      rwa [← hn, hlength] at hbounds

end Decoder

namespace Wire

theorem reads_uint32 : (decoder : Decoder UInt32).Reads encode fun _ => True := by
  have hspan : LittleEndian.span 4 = UInt32.size := rfl
  refine ((Decoder.reads_nat 4).map UInt32.ofNat UInt32.toNat ?_).congr ?_ fun _ _ => rfl
  · exact fun n hn => UInt32.toNat_ofNat_of_lt (hspan ▸ hn)
  · intro n
    rw [hspan]
    exact iff_of_true trivial ⟨n.toNat_lt_size, (UInt32.ofNat_toNat).symm⟩

theorem reads_uint64 : (decoder : Decoder UInt64).Reads encode fun _ => True := by
  have hspan : LittleEndian.span 8 = UInt64.size := rfl
  refine ((Decoder.reads_nat 8).map UInt64.ofNat UInt64.toNat ?_).congr ?_ fun _ _ => rfl
  · exact fun n hn => UInt64.toNat_ofNat_of_lt (hspan ▸ hn)
  · intro n
    rw [hspan]
    exact iff_of_true trivial ⟨n.toNat_lt_size, (UInt64.ofNat_toNat).symm⟩

theorem reads_addressId : (decoder : Decoder AddressId).Reads encode fun _ => True :=
  (reads_uint64.map AddressId.mk AddressId.toUInt64 fun _ _ => rfl).congr
    (fun _ => iff_of_true trivial ⟨trivial, rfl⟩) fun _ _ => rfl

end Wire

end Cospend
