import OrderedAtomics.Value.Integer

/-
  Stored types whose bits are not the value itself: bytes stored complemented, integers stored
  with the sign in the lowest bit, and a byte whose cell needs a lock.
-/
namespace OrderedAtomics

/-- A byte stored with every bit flipped. -/
structure Inverted where
  value : MachineInt .unsigned 8
  deriving DecidableEq

namespace Inverted

/-- Flips every bit. -/
def encode (v : Inverted) : BitVec 8 := ~~~v.value.bits

/-- Flips every bit back. -/
def decode (bits : BitVec 8) : Inverted := ⟨⟨~~~bits⟩⟩

theorem decode_encode (v : Inverted) : decode v.encode = v := by
  simp [decode, encode]

theorem encode_decode (bits : BitVec 8) : (decode bits).encode = bits := by
  simp [decode, encode]

instance : Inhabited Inverted := ⟨⟨default⟩⟩

instance : Codec Inverted where
  width := 8
  encode := encode
  decode := decode
  decode_encode := decode_encode
  encode_decode := encode_decode
  fetches := FetchOp.all
  lockFree := true

instance : CheckedAdd Inverted where
  checkedAdd a b := (CheckedAdd.checkedAdd a.value b.value).map Inverted.mk

end Inverted

/-- A 32-bit integer stored so that numbers of small size have small bits, whatever their sign:
0, -1, 1, -2, … are stored as 0, 1, 2, 3, …. -/
structure Zigzag where
  value : MachineInt .signed 32
  deriving DecidableEq

namespace Zigzag

/-- Moves the sign to the lowest bit and flips the others when it is set. -/
def encode (v : Zigzag) : BitVec 32 := (v.value.bits <<< 1) ^^^ v.value.bits.sshiftRight 31

/-- Moves the lowest bit back to the sign. -/
def decode (bits : BitVec 32) : Zigzag := ⟨⟨(bits >>> 1) ^^^ -(bits &&& 1)⟩⟩

/-- Thirty-two copies of one bit. -/
def spread (b : Bool) : BitVec 32 := if b then BitVec.allOnes 32 else 0

theorem getLsbD_spread (b : Bool) (i : Nat) : (spread b).getLsbD i = (decide (i < 32) && b) := by
  cases b
  · simp [spread]
  · rw [spread, if_pos rfl, BitVec.getLsbD_allOnes, Bool.and_true]

theorem sshiftRight_eq_spread (v : BitVec 32) : v.sshiftRight 31 = spread (v.getLsbD 31) := by
  apply BitVec.eq_of_getLsbD_eq
  intro i hi
  rw [BitVec.getLsbD_sshiftRight, getLsbD_spread, BitVec.msb_eq_getLsbD_last]
  rcases Nat.eq_zero_or_pos i with h | h
  · simp [h]
  · have h1 : ¬ 31 + i < 32 := by omega
    have h2 : ¬ 32 ≤ i := by omega
    simp [h1, h2, hi]

theorem neg_and_one (bits : BitVec 32) : -(bits &&& 1) = spread (bits.getLsbD 0) := by
  have h : bits &&& 1 = (BitVec.ofBool (bits.getLsbD 0)).setWidth 32 :=
    BitVec.and_one_eq_setWidth_ofBool_getLsbD
  rw [h]
  cases bits.getLsbD 0 <;> decide

theorem getLsbD_encode (v : Zigzag) (i : Nat) : v.encode.getLsbD i =
    (decide (i < 32) && ((decide (0 < i) && v.value.bits.getLsbD (i - 1)) ^^
      v.value.bits.getLsbD 31)) := by
  simp only [encode, sshiftRight_eq_spread, BitVec.getLsbD_xor, BitVec.getLsbD_shiftLeft,
    getLsbD_spread]
  by_cases h : i < 32 <;> by_cases h0 : i = 0 <;> simp [h, h0, Nat.pos_iff_ne_zero]

theorem getLsbD_decode (bits : BitVec 32) (i : Nat) : (decode bits).value.bits.getLsbD i =
    (bits.getLsbD (1 + i) ^^ (decide (i < 32) && bits.getLsbD 0)) := by
  simp only [decode, neg_and_one, BitVec.getLsbD_xor, BitVec.getLsbD_ushiftRight, getLsbD_spread]

theorem decode_encode (v : Zigzag) : decode v.encode = v := by
  have h : (decode v.encode).value.bits = v.value.bits := by
    apply BitVec.eq_of_getLsbD_eq
    intro i hi
    rw [getLsbD_decode, getLsbD_encode, getLsbD_encode]
    rcases Nat.lt_or_eq_of_le (Nat.le_of_lt_succ hi) with h | h
    · have h1 : 1 + i < 32 := by omega
      have h2 : 0 < 1 + i := by omega
      simp [h1, h2, hi]
    · subst h
      simp
  cases v with | mk v => cases v; cases hd : decode _ with | mk d => cases d; simp_all

theorem encode_decode (bits : BitVec 32) : (decode bits).encode = bits := by
  apply BitVec.eq_of_getLsbD_eq
  intro i hi
  rw [getLsbD_encode, getLsbD_decode, getLsbD_decode]
  rcases Nat.eq_zero_or_pos i with h | h
  · subst h
    simp
  · have h1 : 1 + (i - 1) = i := by omega
    have h2 : i - 1 < 32 := by omega
    simp [h1, h2, h, hi]

instance : Inhabited Zigzag := ⟨⟨default⟩⟩

instance : Codec Zigzag where
  width := 32
  encode := encode
  decode := decode
  decode_encode := decode_encode
  encode_decode := encode_decode
  fetches := FetchOp.all
  lockFree := true

instance : CheckedAdd Zigzag where
  checkedAdd a b := (CheckedAdd.checkedAdd a.value b.value).map Zigzag.mk

end Zigzag

/-- A byte whose cell works only under a lock, so that no storage for it may be made. -/
structure Locking where
  value : MachineInt .unsigned 8
  deriving DecidableEq

namespace Locking

instance : Inhabited Locking := ⟨⟨default⟩⟩

instance : Codec Locking where
  width := 8
  encode v := v.value.bits
  decode bits := ⟨⟨bits⟩⟩
  decode_encode _ := rfl
  encode_decode _ := rfl
  fetches := FetchOp.all
  lockFree := false

instance : CheckedAdd Locking where
  checkedAdd a b := (CheckedAdd.checkedAdd a.value b.value).map Locking.mk

end Locking

end OrderedAtomics
