import Cospend.Wire.Basic

/-!
# Heights of blocks

The height of a block is its distance from the first block of the chain, which has height zero. A
height is a whole number of thirty-two bits; a negative one is below every block.
-/

namespace Cospend

structure Height where
  toInt : Int
  le_toInt : -0x80000000 ≤ toInt := by decide
  toInt_lt : toInt < 0x80000000 := by decide
  deriving DecidableEq, Repr

namespace Height

theorem ext {g h : Height} (e : g.toInt = h.toInt) : g = h := by
  cases g; cases h; cases e; rfl

def genesis : Height where
  toInt := 0

def ofInt? (n : Int) : Option Height :=
  if h : -0x80000000 ≤ n ∧ n < 0x80000000 then some ⟨n, h.1, h.2⟩ else none

/-- The height `n` blocks above, if there is one. -/
def add? (h : Height) (n : Int) : Option Height := ofInt? (h.toInt + n)

/-- The height of the following block, if there is one. -/
def next? (h : Height) : Option Height := h.add? 1

instance : LE Height := ⟨fun g h => g.toInt ≤ h.toInt⟩

instance : LT Height := ⟨fun g h => g.toInt < h.toInt⟩

instance (g h : Height) : Decidable (g ≤ h) := inferInstanceAs (Decidable (g.toInt ≤ h.toInt))

instance (g h : Height) : Decidable (g < h) := inferInstanceAs (Decidable (g.toInt < h.toInt))

def text (h : Height) : String := toString h.toInt

theorem decodeInt_mem_range (bs : Bytes) (hbs : bs.length = 4) :
    -0x80000000 ≤ LittleEndian.decodeInt bs ∧ LittleEndian.decodeInt bs < 0x80000000 := by
  have hspan : LittleEndian.span 4 = 0x100000000 := rfl
  have low := Int.le_bmod (x := LittleEndian.decode bs) (m := LittleEndian.span 4) (by decide)
  have high := Int.bmod_lt (x := LittleEndian.decode bs) (m := LittleEndian.span 4) (by decide)
  simp only [LittleEndian.decodeInt, hbs]
  rw [hspan] at low high ⊢
  omega

instance : Wire Height where
  encode h := LittleEndian.encodeInt 4 h.toInt
  decoder := fun bs =>
    if h : 4 ≤ bs.length then
      let range := decodeInt_mem_range (bs.take 4) (by simp [h])
      .ok (⟨LittleEndian.decodeInt (bs.take 4), range.1, range.2⟩, bs.drop 4)
    else .error .unexpectedEnd

end Height

end Cospend
