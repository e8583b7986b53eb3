import Cospend.Bytes.Basic

/-!
# UTF-8 text in byte strings

`decode` reads a byte string as text and otherwise says where the first fault is: how many octets
before it are well formed, and how many octets belong to no character. `decode_eq_ok_iff` says that
a text is read from its own octets and from no others.
-/

namespace Cospend.Utf8

/-- The first place at which a byte string is not UTF-8. -/
structure Fault where
  /-- The length of the well-formed part before the fault. -/
  index : Nat
  /-- The number of octets that cannot begin a character, or nothing if the input ends inside one. -/
  width : Option Nat
  deriving DecidableEq, Repr

def Fault.message (f : Fault) : String :=
  match f.width with
  | some n => s!"invalid utf-8 sequence of {n} bytes from index {f.index}"
  | none => s!"incomplete utf-8 byte sequence from index {f.index}"

/-- The ranges that the octets after a leading octet have to lie in, or nothing if the octet leads no
character. The range of the second octet keeps out overlong forms, surrogates and numbers beyond the
last code point. -/
def tails? (lead : UInt8) : Option (List (UInt8 × UInt8)) :=
  if lead < 0x80 then some []
  else if lead < 0xC2 then none
  else if lead < 0xE0 then some [(0x80, 0xBF)]
  else if lead = 0xE0 then some [(0xA0, 0xBF), (0x80, 0xBF)]
  else if lead = 0xED then some [(0x80, 0x9F), (0x80, 0xBF)]
  else if lead < 0xF0 then some [(0x80, 0xBF), (0x80, 0xBF)]
  else if lead = 0xF0 then some [(0x90, 0xBF), (0x80, 0xBF), (0x80, 0xBF)]
  else if lead < 0xF4 then some [(0x80, 0xBF), (0x80, 0xBF), (0x80, 0xBF)]
  else if lead = 0xF4 then some [(0x80, 0x8F), (0x80, 0xBF), (0x80, 0xBF)]
  else none

/-- Goes on in the character that starts at `index`, of which `taken` octets were read and `due` are
to come. With nothing due a new character starts. -/
def faultFrom (index taken : Nat) : (due : List (UInt8 × UInt8)) → Bytes → Option Fault
  | [], [] => none
  | _ :: _, [] => some ⟨index, none⟩
  | [], b :: bs =>
    match tails? b with
    | none => some ⟨index + taken, some 1⟩
    | some due => faultFrom (index + taken) 1 due bs
  | (low, high) :: due, b :: bs =>
    if low ≤ b ∧ b ≤ high then faultFrom index (taken + 1) due bs else some ⟨index, some taken⟩

def fault? (bs : Bytes) : Option Fault := faultFrom 0 0 [] bs

/-- The text that a byte string is the UTF-8 form of. -/
def decode (bs : Bytes) : Except Fault String :=
  match String.fromUTF8? ⟨bs.toArray⟩ with
  | some s => .ok s
  | none => .error ((fault? bs).getD ⟨0, none⟩)

theorem decode_eq_ok_iff {bs : Bytes} {s : String} : decode bs = .ok s ↔ Bytes.ofText s = bs := by
  unfold decode String.fromUTF8? Bytes.ofText
  constructor
  · intro h
    split at h
    · rename_i t ht
      split at ht
      · cases ht; cases h; simp [String.fromUTF8]
      · cases ht
    · cases h
  · intro h
    subst h
    have hs : (ByteArray.mk s.toByteArray.data.toList.toArray) = s.toByteArray := by simp
    have hv : s.toByteArray.IsValidUTF8 := s.isValidUTF8
    simp [hs, hv, String.fromUTF8]

end Cospend.Utf8
