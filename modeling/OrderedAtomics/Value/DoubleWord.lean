import OrderedAtomics.Value.Integer

/-
  Pairs of 64-bit words that are read and written as one 128-bit cell.  The high word takes the
  upper half of the bits.
-/
namespace OrderedAtomics

/-- Two words stored side by side. -/
structure DoubleWord where
  high : BitVec 64
  low : BitVec 64
  deriving DecidableEq

namespace DoubleWord

/-- Both words as one, the high one on top. -/
def toBits (d : DoubleWord) : BitVec 128 := d.high ++ d.low

/-- Splits 128 bits into their halves. -/
def ofBits (bits : BitVec 128) : DoubleWord :=
  ⟨bits.extractLsb' 64 64, bits.extractLsb' 0 64⟩

theorem getLsbD_toBits (d : DoubleWord) (i : Nat) :
    d.toBits.getLsbD i = if i < 64 then d.low.getLsbD i else d.high.getLsbD (i - 64) :=
  BitVec.getLsbD_append

theorem ofBits_toBits (d : DoubleWord) : ofBits d.toBits = d := by
  have high : d.toBits.extractLsb' 64 64 = d.high := by
    apply BitVec.eq_of_getLsbD_eq
    intro i hi
    rw [BitVec.getLsbD_extractLsb', getLsbD_toBits]
    simp [hi]
  have low : d.toBits.extractLsb' 0 64 = d.low := by
    apply BitVec.eq_of_getLsbD_eq
    intro i hi
    rw [BitVec.getLsbD_extractLsb', getLsbD_toBits]
    simp [hi]
  cases d
  simp_all [ofBits]

theorem toBits_ofBits (bits : BitVec 128) : (ofBits bits).toBits = bits := by
  apply BitVec.eq_of_getLsbD_eq
  intro i hi
  rw [getLsbD_toBits, ofBits, BitVec.getLsbD_extractLsb', BitVec.getLsbD_extractLsb']
  rcases Nat.lt_or_ge i 64 with h | h
  · simp [h]
  · have h1 : ¬ i < 64 := by omega
    have h2 : i - 64 < 64 := by omega
    have h3 : 64 + (i - 64) = i := by omega
    simp [h1, h2, h3]

instance : Inhabited DoubleWord := ⟨⟨0, 0⟩⟩

/-- A double-word cell has no read-modify-write besides exchange and compare-exchange. -/
instance : Codec DoubleWord where
  width := 128
  encode := toBits
  decode := ofBits
  decode_encode := ofBits_toBits
  encode_decode := toBits_ofBits
  fetches := []
  lockFree := true

/-- Double words have no addition. -/
instance : CheckedAdd DoubleWord where
  checkedAdd _ _ := none

end DoubleWord

end OrderedAtomics
