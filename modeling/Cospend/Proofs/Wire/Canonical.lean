import Cospend.Chain.Block
import Cospend.Proofs.Failure
import Cospend.Proofs.Wire.Number

/-!
# Wire forms are canonical

A wire form tells where it ends, and a value is read from no other octets. This carries over from the
parts of a value to the whole: to fields in order, to a list and a text behind their count, and to an
optional value behind its flag. A count has thirty-two bits, so it holds of values in which no list and no
text is longer than that.
-/

namespace Cospend

/-! ## Wire forms -/

/-- The values that fit are read from the front of an octet string, their wire forms tell where they end,
and nothing else is read, neither from the front nor as the whole. -/
structure Wire.Canonical (α : Type) [Wire α] (fits : α → Prop) : Prop where
  decode_encode {a : α} (ha : fits a) (rest : Bytes) : decode (encode a ++ rest) = .ok (a, rest)
  encode_of_decode {bs rest : Bytes} {a : α} (h : decode bs = .ok (a, rest)) :
    fits a ∧ bs = encode a ++ rest
  decodeAll_iff {bs : Bytes} {a : α} : decodeAll bs = .ok a ↔ fits a ∧ bs = encode a

namespace Wire

variable {α : Type} [Wire α] {fits : α → Prop}

theorem canonical_of_reads (h : (decoder : Decoder α).Reads encode fits) : Canonical α fits where
  decode_encode := h.run_append
  encode_of_decode := h.of_run
  decodeAll_iff {bs a} := by
    unfold decodeAll
    rw [bind_eq_ok]
    constructor
    · rintro ⟨⟨a', rest⟩, hdecode, hend⟩
      obtain ⟨ha, rfl⟩ := h.of_run hdecode
      -- what is left over is an error, so nothing is
      cases rest with
      | nil =>
          cases hend
          exact ⟨ha, List.append_nil _⟩
      | cons b rest => cases hend
    · rintro ⟨ha, rfl⟩
      refine ⟨(a, []), ?_, rfl⟩
      have hrun := h.run_append ha []
      rwa [List.append_nil] at hrun

/-- Values that are written the same are the same. -/
theorem Canonical.encode_inj (h : Canonical α fits) {a b : α} (ha : fits a) (hb : fits b)
    (he : encode a = encode b) : a = b := by
  have ha := h.decodeAll_iff.mpr ⟨ha, rfl⟩
  rw [h.decodeAll_iff.mpr ⟨hb, he⟩] at ha
  exact (Except.ok.inj ha).symm

theorem count_eq_iff {length : Nat} {n : UInt32} :
    length = n.toNat ↔ length < UInt32.size ∧ UInt32.ofNat length = n := by
  constructor
  · rintro rfl
    exact ⟨n.toNat_lt_size, UInt32.ofNat_toNat⟩
  · rintro ⟨hlt, rfl⟩
    exact (UInt32.toNat_ofNat_of_lt hlt).symm

theorem reads_list (h : (decoder : Decoder α).Reads encode fits) :
    (decoder : Decoder (List α)).Reads encode fun as => as.length < UInt32.size ∧ ∀ a ∈ as, fits a := by
  refine (reads_uint32.bind (fun as : List α => UInt32.ofNat as.length)
    (fun n => Decoder.reads_replicate h n.toNat) ?_).congr ?_ fun _ _ => rfl
  · intro n as _ has
    exact (count_eq_iff.mp has.1).2
  · intro as
    rw [true_and, count_eq_iff, and_iff_left rfl]

theorem reads_text (bs : Bytes) :
    (match Utf8.decode bs with
      | .ok s => return s
      | .error fault => throw (.badText fault) : Decoder String).Reads (fun _ => [])
        (Bytes.ofText · = bs) := by
  cases h : Utf8.decode bs with
  | ok s =>
      refine (Decoder.reads_pure s).congr (fun t => ?_) fun _ _ => rfl
      rw [← Utf8.decode_eq_ok_iff, h, Except.ok.injEq, eq_comm]
  | error fault =>
      refine (Decoder.reads_throw _ _).congr (fun t => ?_) fun _ _ => rfl
      rw [← Utf8.decode_eq_ok_iff, h]
      exact iff_of_false nofun id

theorem reads_string :
    (decoder : Decoder String).Reads encode fun s => (Bytes.ofText s).length < UInt32.size := by
  refine (reads_uint32.bind (fun s => UInt32.ofNat (Bytes.ofText s).length) (fun n =>
    (Decoder.reads_octets n.toNat).bind Bytes.ofText reads_text fun _ _ _ h => h) ?_).congr ?_ ?_
  · intro n s _ hs
    exact (count_eq_iff.mp hs.1).2
  · intro s
    rw [true_and, and_iff_left rfl, count_eq_iff, and_iff_left rfl]
  · intro s _
    rw [List.append_nil]
    rfl

theorem reads_option (h : (decoder : Decoder α).Reads encode fits) :
    (decoder : Decoder (Option α)).Reads encode fun o => ∀ a ∈ o, fits a := by
  refine (h.optional rfl rfl fun bs hzero hone => ?_).congr (fun _ => Iff.rfl) fun o _ => ?_
  · split
    · exact absurd rfl hzero
    · exact absurd rfl hone
    · exact ⟨_, rfl⟩
  · cases o <;> rfl

end Wire

/-! ## The types of the chain -/

/-- The text is no longer than thirty-two bits can count. -/
def Address.Fits (a : Address) : Prop := (Bytes.ofText a.text).length < UInt32.size

def Output.Fits (o : Output) : Prop := ∀ a ∈ o.address, a.Fits

def Transaction.Fits (t : Transaction) : Prop :=
  t.inputs.length < UInt32.size ∧ t.outputs.length < UInt32.size ∧ ∀ o ∈ t.outputs, o.Fits

def Block.Fits (b : Block) : Prop := b.transactions.length < UInt32.size

namespace Wire

theorem reads_height : (decoder : Decoder Height).Reads encode fun _ => True := by
  refine Decoder.reads_of_take
    (fun bs hbs => ⟨_, (Height.decodeInt_mem_range bs hbs).1, (Height.decodeInt_mem_range bs hbs).2⟩)
    (fun _ => rfl) (fun h => LittleEndian.length_encodeInt 4 h.toInt) ?_ fun h => Height.ext ?_
  · intro bs hbs
    have hencode := LittleEndian.encodeInt_decodeInt bs
    rwa [hbs] at hencode
  · have hspan : LittleEndian.span 4 = 0x100000000 := rfl
    have hlow := h.le_toInt
    have hhigh := h.toInt_lt
    exact LittleEndian.decodeInt_encodeInt (by omega) (by omega)

theorem reads_address : (decoder : Decoder Address).Reads encode Address.Fits :=
  (reads_string.map Address.mk Address.text fun _ _ => rfl).congr
    (fun _ => (and_iff_left rfl).symm) fun _ _ => rfl

theorem reads_digest : (decoder : Decoder Digest).Reads encode fun _ => True :=
  Decoder.reads_of_take Digest.mk (fun _ => rfl) Digest.length_bytes (fun _ _ => rfl) fun _ => rfl

theorem reads_outpoint : (decoder : Decoder Outpoint).Reads encode fun _ => True := by
  refine (reads_digest.bind Outpoint.transaction
    (fun id => reads_uint32.map (Outpoint.mk id) Outpoint.index fun _ _ => rfl) ?_).congr
      (fun _ => ?_) fun _ _ => rfl
  · exact fun _ _ _ h => congrArg Outpoint.transaction h.2
  · exact iff_of_true trivial ⟨trivial, trivial, rfl⟩

theorem reads_input : (decoder : Decoder Input).Reads encode fun _ => True :=
  (reads_outpoint.map Input.mk Input.spends fun _ _ => rfl).congr
    (fun _ => iff_of_true trivial ⟨trivial, rfl⟩) fun _ _ => rfl

theorem reads_output : (decoder : Decoder Output).Reads encode Output.Fits := by
  refine (reads_uint64.bind Output.value
    (fun value => (reads_option reads_address).map (Output.mk value) Output.address fun _ _ => rfl)
      ?_).congr (fun o => ?_) fun _ _ => rfl
  · exact fun _ _ _ h => congrArg Output.value h.2
  · rw [true_and, and_iff_left rfl]
    rfl

theorem reads_transaction : (decoder : Decoder Transaction).Reads encode Transaction.Fits := by
  refine ((reads_list reads_input).bind Transaction.inputs
    (fun inputs => (reads_list reads_output).map (Transaction.mk inputs) Transaction.outputs
      fun _ _ => rfl) ?_).congr (fun t => ?_) fun _ _ => rfl
  · exact fun _ _ _ h => congrArg Transaction.inputs h.2
  · rw [and_iff_left rfl, and_iff_left fun _ _ => trivial]
    rfl

theorem reads_block : (decoder : Decoder Block).Reads encode Block.Fits := by
  refine (reads_height.bind Block.height (fun height => reads_digest.bind Block.hash
    (fun hash => (reads_list reads_digest).map (Block.mk height hash) Block.transactions
      fun _ _ => rfl) ?_) ?_).congr (fun b => ?_) fun b _ => ?_
  · exact fun _ _ _ h => congrArg Block.hash h.2
  · exact fun _ _ _ h => congrArg Block.height h.2.2
  · rw [true_and, true_and, and_iff_left rfl, and_iff_left fun _ _ => trivial]
    rfl
  · exact List.append_assoc ..

/-- Values of the types of the chain are written so that the wire form tells where it ends, and each has one
wire form only. So the digest of a transaction is that of octets which no other transaction is written as. -/
theorem canonical_chain :
    Canonical Height (fun _ => True) ∧ Canonical AddressId (fun _ => True) ∧
    Canonical Address Address.Fits ∧ Canonical Digest (fun _ => True) ∧
    Canonical Outpoint (fun _ => True) ∧ Canonical Input (fun _ => True) ∧
    Canonical Output Output.Fits ∧ Canonical Transaction Transaction.Fits ∧
    Canonical Block Block.Fits ∧
    (∀ t : Transaction, t.id = Digest.ofMessage (encode t)) ∧
    ∀ t u : Transaction, t.Fits → u.Fits → t ≠ u → (encode t : Bytes) ≠ encode u := by
  have htransaction := canonical_of_reads reads_transaction
  refine ⟨canonical_of_reads reads_height, canonical_of_reads reads_addressId,
    canonical_of_reads reads_address, canonical_of_reads reads_digest,
    canonical_of_reads reads_outpoint, canonical_of_reads reads_input,
    canonical_of_reads reads_output, htransaction, canonical_of_reads reads_block, fun _ => rfl, ?_⟩
  exact fun t u ht hu hne he => hne (htransaction.encode_inj ht hu he)

/-- A transaction that makes coins for one owner. -/
def minted : Transaction := ⟨[⟨.coinbase⟩], [⟨5, some ⟨"a"⟩⟩]⟩

theorem canonical_chain_minted :
    (minted.Fits ∧ decode (encode minted ++ [7]) = .ok (minted, [7])) ∧
      (Transaction.Fits ⟨[], []⟩ ∧ (encode minted : Bytes) ≠ encode (⟨[], []⟩ : Transaction)) := by
  obtain ⟨-, -, -, -, -, -, -, htransaction, -, -, hdistinct⟩ := canonical_chain
  have hminted : minted.Fits := by
    refine ⟨by decide, by decide, fun o ho a ha => ?_⟩
    obtain rfl := List.mem_singleton.mp ho
    obtain rfl := Option.mem_some.mp ha
    show (Bytes.ofText "a").length < UInt32.size
    decide
  have hempty : Transaction.Fits ⟨[], []⟩ := ⟨by decide, by decide, nofun⟩
  exact ⟨⟨hminted, htransaction.decode_encode hminted [7]⟩, hempty,
    hdistinct _ _ hminted hempty (by decide)⟩

end Wire

end Cospend
