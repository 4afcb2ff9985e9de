import OrderedAtomics.Value.Codec

/-
  Machine integers of any width, signed or unsigned, kept as their bits.  `toInt` is the number
  meant; `ofInt?` accepts exactly the numbers in range.
-/
namespace OrderedAtomics

/-- How the top bit of an integer counts. -/
inductive Signedness where
  | signed
  | unsigned
  deriving DecidableEq

/-- A `w`-bit integer. -/
structure MachineInt (s : Signedness) (w : Nat) where
  bits : BitVec w
  deriving DecidableEq

namespace MachineInt

variable {s : Signedness} {w : Nat}

/-- The number meant: two's complement when signed. -/
def toInt (n : MachineInt s w) : Int :=
  match s with
  | .signed => n.bits.toInt
  | .unsigned => n.bits.toNat

/-- The least number of the type. -/
def least (s : Signedness) (w : Nat) : Int :=
  match s with
  | .signed => -(Nat.pow 2 (w - 1) : Int)
  | .unsigned => 0

/-- The greatest number of the type. -/
def greatest (s : Signedness) (w : Nat) : Int :=
  match s with
  | .signed => (Nat.pow 2 (w - 1) : Int) - 1
  | .unsigned => (Nat.pow 2 w : Int) - 1

/-- The integer for a number in range. -/
def ofInt? (s : Signedness) (w : Nat) (i : Int) : Option (MachineInt s w) :=
  if least s w ≤ i ∧ i ≤ greatest s w then some ⟨BitVec.ofInt w i⟩ else none

instance : Inhabited (MachineInt s w) := ⟨⟨0⟩⟩

instance : CheckedAdd (MachineInt s w) where
  checkedAdd a b := ofInt? s w (a.toInt + b.toInt)

/-- Integers are stored as they are. -/
instance : Codec (MachineInt s w) where
  width := w
  encode n := n.bits
  decode bits := ⟨bits⟩
  decode_encode _ := rfl
  encode_decode _ := rfl
  fetches := FetchOp.all
  lockFree := true

/-- The number as decimal text. -/
def toText (n : MachineInt s w) : String := toString n.toInt

/-- Reads decimal text: an optional sign, then digits only.  An unsigned type takes no minus. -/
def ofText? (s : Signedness) (w : Nat) (text : String) : Option (MachineInt s w) :=
  match text.toList with
  | '-' :: digits =>
    if s = .signed then (natOfDigits? digits).bind fun n => ofInt? s w (-(n : Int)) else none
  | '+' :: digits => (natOfDigits? digits).bind fun n => ofInt? s w n
  | digits => (natOfDigits? digits).bind fun n => ofInt? s w n
where
  /-- The number written by one or more digits. -/
  natOfDigits? (digits : List Char) : Option Nat :=
    if digits.isEmpty || !digits.all Char.isDigit then none
    else some (digits.foldl (fun n c => 10 * n + (c.toNat - '0'.toNat)) 0)

end MachineInt

/-- Booleans are stored in one bit and have the bitwise operations only. -/
instance : Codec Bool where
  width := 1
  encode := BitVec.ofBool
  decode bits := bits.getLsbD 0
  decode_encode v := by cases v <;> decide
  encode_decode bits := by
    rcases BitVec.eq_zero_or_eq_one bits with h | h <;> subst h <;> decide
  fetches := [.or, .xor, .and]
  lockFree := true

/-- Booleans have no addition. -/
instance : CheckedAdd Bool where
  checkedAdd _ _ := none

end OrderedAtomics
