import OrderedAtomics.Value.DoubleWord
import OrderedAtomics.Value.Adapter
import Mathlib

/-
  The encodings of the stored types as numbers.  A double word is the number with its two words as
  digits, hence ordered by them, and the bitwise operations act on each word alone.  A byte stored
  complemented is what is missing from 255, and an integer stored with its sign in the lowest bit is
  twice its size, less one where it is negative.  All of them are bijections, which is part of being
  a stored type (`Codec.encode_bijective`).
-/
namespace OrderedAtomics

/-- A stored type has as many values as its cell has states. -/
theorem Codec.encode_bijective (α : Type) [Codec α] :
    Function.Bijective (Codec.encode : α → BitVec (Codec.width α)) :=
  ⟨fun _ _ => Codec.encode_inj.mp, fun bits => ⟨Codec.decode bits, Codec.encode_decode bits⟩⟩

/-! ## Double words -/

namespace DoubleWord

theorem toNat_toBits (d : DoubleWord) : d.toBits.toNat = d.high.toNat * 2 ^ 64 + d.low.toNat := by
  rw [toBits, BitVec.toNat_append, ← Nat.shiftLeft_add_eq_or_of_lt d.low.isLt, Nat.shiftLeft_eq]

theorem toBits_or (a b : DoubleWord) :
    toBits ⟨a.high ||| b.high, a.low ||| b.low⟩ = a.toBits ||| b.toBits :=
  BitVec.or_append.symm

theorem toBits_xor (a b : DoubleWord) :
    toBits ⟨a.high ^^^ b.high, a.low ^^^ b.low⟩ = a.toBits ^^^ b.toBits :=
  BitVec.xor_append.symm

theorem toBits_and (a b : DoubleWord) :
    toBits ⟨a.high &&& b.high, a.low &&& b.low⟩ = a.toBits &&& b.toBits :=
  BitVec.and_append.symm

theorem toBits_not (d : DoubleWord) : toBits ⟨~~~d.high, ~~~d.low⟩ = ~~~d.toBits :=
  BitVec.not_append.symm

/-- The high word decides the order, and where it is the same the low one does. -/
theorem toBits_lt_toBits (a b : DoubleWord) :
    a.toBits < b.toBits ↔ a.high < b.high ∨ a.high = b.high ∧ a.low < b.low := by
  have ha := a.low.isLt
  have hb := b.low.isLt
  rw [BitVec.lt_def, BitVec.lt_def, BitVec.lt_def, ← BitVec.toNat_inj, toNat_toBits, toNat_toBits]
  omega

end DoubleWord

/-! ## Adapters -/

theorem Inverted.toNat_encode (v : Inverted) : v.encode.toNat = 255 - v.value.bits.toNat :=
  BitVec.toNat_not

namespace Zigzag

/-- Twice the size, less one for a negative number, which has all bits flipped after the shift. -/
theorem toNat_encode (v : Zigzag) :
    (v.encode.toNat : Int) =
      if v.value.toInt < 0 then -2 * v.value.toInt - 1 else 2 * v.value.toInt := by
  have hlt := v.value.bits.isLt
  have hnumber : v.value.toInt = if 2 * v.value.bits.toNat < 2 ^ 32 then
      (v.value.bits.toNat : Int) else (v.value.bits.toNat : Int) - (2 ^ 32 : Nat) :=
    BitVec.toInt_eq_toNat_cond v.value.bits
  have hshift : (v.value.bits <<< 1).toNat = v.value.bits.toNat * 2 ^ 1 % 2 ^ 32 := by
    rw [BitVec.toNat_shiftLeft, Nat.shiftLeft_eq]
  rw [encode, sshiftRight_eq_spread, ← BitVec.msb_eq_getLsbD_last, BitVec.msb_eq_decide]
  by_cases h : 2 ^ 31 ≤ v.value.bits.toNat
  · rw [decide_eq_true h, spread, if_pos rfl, BitVec.xor_allOnes, BitVec.toNat_not, hshift]
    omega
  · rw [decide_eq_false h, spread, if_neg Bool.false_ne_true, BitVec.ofNat_eq_ofNat,
      BitVec.xor_zero, hshift]
    omega

/-- The least number takes all bits. -/
example : encode ⟨⟨BitVec.intMin 32⟩⟩ = BitVec.allOnes 32 := by decide

end Zigzag

/-- **Encodings are bijections.** Decoding undoes encoding and encoding undoes decoding, for every
stored type and so for double words and the adapters.  A double word is stored as the number that
has its words as digits; bitwise operations act on each word alone, and the order of the numbers is
that of the words, high ones first.  A complemented byte is stored as what is missing from 255, and
a number with its sign in the lowest bit as twice its size, less one where it is negative. -/
theorem encodings_bijective :
    (∀ (α : Type) [Codec α],
      Function.Bijective (Codec.encode : α → BitVec (Codec.width α)) ∧
      (∀ v : α, Codec.decode (Codec.encode v) = v) ∧
      ∀ bits, Codec.encode (Codec.decode bits : α) = bits) ∧
    ((∀ high low, DoubleWord.ofBits (DoubleWord.toBits ⟨high, low⟩) = ⟨high, low⟩ ∧
        (DoubleWord.toBits ⟨high, low⟩).toNat = high.toNat * 2 ^ 64 + low.toNat) ∧
      (∀ bits, (DoubleWord.ofBits bits).toBits = bits) ∧
      (∀ a b : DoubleWord,
        DoubleWord.toBits ⟨a.high ||| b.high, a.low ||| b.low⟩ = a.toBits ||| b.toBits ∧
        DoubleWord.toBits ⟨a.high ^^^ b.high, a.low ^^^ b.low⟩ = a.toBits ^^^ b.toBits ∧
        DoubleWord.toBits ⟨a.high &&& b.high, a.low &&& b.low⟩ = a.toBits &&& b.toBits) ∧
      (∀ d : DoubleWord, DoubleWord.toBits ⟨~~~d.high, ~~~d.low⟩ = ~~~d.toBits) ∧
      ∀ bits bits', bits < bits' ↔
        (DoubleWord.ofBits bits).high < (DoubleWord.ofBits bits').high ∨
        (DoubleWord.ofBits bits).high = (DoubleWord.ofBits bits').high ∧
          (DoubleWord.ofBits bits).low < (DoubleWord.ofBits bits').low) ∧
    ((∀ v : Inverted, Inverted.decode v.encode = v ∧
        v.encode.toNat = 255 - v.value.bits.toNat) ∧
      ∀ bits, (Inverted.decode bits).encode = bits) ∧
    ((∀ v : Zigzag, Zigzag.decode v.encode = v ∧ (v.encode.toNat : Int) =
        if v.value.toInt < 0 then -2 * v.value.toInt - 1 else 2 * v.value.toInt) ∧
      ∀ bits, (Zigzag.decode bits).encode = bits) := by
  refine ⟨fun α _ => ?_, ⟨?_, DoubleWord.toBits_ofBits, fun a b => ?_, DoubleWord.toBits_not, ?_⟩,
    ⟨?_, Inverted.encode_decode⟩, ⟨?_, Zigzag.encode_decode⟩⟩
  · exact ⟨Codec.encode_bijective α, Codec.decode_encode, Codec.encode_decode⟩
  · exact fun high low => ⟨DoubleWord.ofBits_toBits _, DoubleWord.toNat_toBits _⟩
  · exact ⟨a.toBits_or b, a.toBits_xor b, a.toBits_and b⟩
  · intro bits bits'
    rw [← DoubleWord.toBits_lt_toBits, DoubleWord.toBits_ofBits, DoubleWord.toBits_ofBits]
  · exact fun v => ⟨v.decode_encode, v.toNat_encode⟩
  · exact fun v => ⟨v.decode_encode, v.toNat_encode⟩

end OrderedAtomics
