import OrderedAtomics.FetchOp

/-
  How a type is stored.  A cell holds bits; a stored type comes with an encoding into the bits of
  its cell, and the two directions undo each other, so that comparing bits is comparing values.
-/
namespace OrderedAtomics

/-- A type that can be kept in a hardware cell. -/
class Codec (α : Type) where
  /-- The number of bits its cell holds. -/
  width : Nat
  /-- The bits that stand for a value. -/
  encode : α → BitVec width
  /-- The value that bits stand for. -/
  decode : BitVec width → α
  decode_encode : ∀ v, decode (encode v) = v
  encode_decode : ∀ bits, encode (decode bits) = bits
  /-- The read-modify-write operations its cell has. -/
  fetches : List FetchOp
  /-- Whether its cell works without a lock. -/
  lockFree : Bool

namespace Codec

variable {α : Type} [Codec α]

attribute [simp] decode_encode encode_decode

theorem encode_inj {a b : α} : encode a = encode b ↔ a = b :=
  ⟨fun h => by rw [← decode_encode a, h, decode_encode], fun h => by rw [h]⟩

/-- Whether the cell of the type has an operation. -/
def supports (α : Type) [Codec α] (op : FetchOp) : Bool := decide (op ∈ fetches α)

/-- Whether the cell of the type has every operation, arithmetic included. -/
def supportsAll (α : Type) [Codec α] : Bool := FetchOp.all.all (supports α)

/-- Whether the cell of the type has the bitwise operations. -/
def supportsBitwise (α : Type) [Codec α] : Bool := [FetchOp.or, .xor, .and].all (supports α)

/-- The number of bytes a value takes in memory, which is also its alignment. -/
def bytes (α : Type) [Codec α] : Nat := (width α + 7) / 8

/-- Values are equal exactly when their bits are. -/
instance (priority := low) : DecidableEq α := fun a b =>
  decidable_of_iff (encode a = encode b) encode_inj

end Codec

/-- Types with an addition that refuses to overflow. -/
class CheckedAdd (α : Type) where
  /-- The sum, if the type holds it. -/
  checkedAdd : α → α → Option α

end OrderedAtomics
