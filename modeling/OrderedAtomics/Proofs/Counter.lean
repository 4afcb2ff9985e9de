import OrderedAtomics.Value.Adapter
import Mathlib

/-
  Stored types that count: their values are the whole numbers of an interval, and their checked
  addition is exact.  Machine integers do, and so do the types that store one in bits of their own.
-/
namespace OrderedAtomics

/-! ## The number of a machine integer -/

namespace MachineInt

variable {s : Signedness} {w : Nat}

/-- The number of a type that a number is reduced to: two's complement when signed. -/
def wrap (s : Signedness) (w : Nat) (n : Int) : Int :=
  match s with
  | .signed => n.bmod (2 ^ w)
  | .unsigned => n % (2 ^ w : Nat)

theorem toInt_ofInt (n : Int) : toInt (⟨BitVec.ofInt w n⟩ : MachineInt s w) = wrap s w n := by
  cases s with
  | signed => exact BitVec.toInt_ofInt n
  | unsigned =>
    have h : ((2 ^ w : Nat) : Int) ≠ 0 := by
      have := Nat.two_pow_pos w
      omega
    show ((BitVec.ofInt w n).toNat : Int) = _
    rw [BitVec.toNat_ofInt, Int.toNat_of_nonneg (Int.emod_nonneg n h)]
    rfl

theorem ofInt_toInt (n : MachineInt s w) : BitVec.ofInt w n.toInt = n.bits := by
  cases s with
  | signed => exact BitVec.ofInt_toInt
  | unsigned =>
    show BitVec.ofInt w (n.bits.toNat : Int) = n.bits
    rw [BitVec.ofInt_natCast, BitVec.ofNat_toNat, BitVec.setWidth_eq]

theorem toInt_inj {a b : MachineInt s w} (h : a.toInt = b.toInt) : a = b := by
  have hbits : a.bits = b.bits := by rw [← ofInt_toInt, h, ofInt_toInt]
  cases a
  cases b
  exact congrArg mk hbits

theorem toInt_range (n : MachineInt s w) : least s w ≤ n.toInt ∧ n.toInt ≤ greatest s w := by
  cases s with
  | signed =>
    have h1 := BitVec.le_toInt n.bits
    have h2 := BitVec.toInt_le (x := n.bits)
    have hp : ((Nat.pow 2 (w - 1) : Nat) : Int) = 2 ^ (w - 1) := by simp
    show -((Nat.pow 2 (w - 1) : Nat) : Int) ≤ n.bits.toInt ∧
      n.bits.toInt ≤ ((Nat.pow 2 (w - 1) : Nat) : Int) - 1
    rw [hp]
    exact ⟨h1, h2⟩
  | unsigned =>
    have h := n.bits.isLt
    show (0 : Int) ≤ n.bits.toNat ∧ (n.bits.toNat : Int) ≤ ((Nat.pow 2 w : Nat) : Int) - 1
    have hp : Nat.pow 2 w = 2 ^ w := rfl
    rw [hp]
    omega

/-- A number in range stays as it is. -/
theorem wrap_eq_self [NeZero w] {n : Int} (h : least s w ≤ n ∧ n ≤ greatest s w) :
    wrap s w n = n := by
  have hw : w - 1 + 1 = w := Nat.sub_add_cancel (Nat.pos_of_neZero w)
  cases s with
  | signed =>
    have h' : -((2 ^ (w - 1) : Nat) : Int) ≤ n ∧ n ≤ ((2 ^ (w - 1) : Nat) : Int) - 1 := h
    have hp : 2 ^ (w - 1 + 1) = 2 ^ (w - 1) * 2 := Nat.pow_succ 2 (w - 1)
    rw [hw] at hp
    show n.bmod (2 ^ w) = n
    rw [hp]
    apply Int.bmod_eq_of_le_mul_two
    · omega
    · omega
  | unsigned =>
    have h' : 0 ≤ n ∧ n ≤ ((2 ^ w : Nat) : Int) - 1 := h
    show n % ((2 ^ w : Nat) : Int) = n
    exact Int.emod_eq_of_lt h'.1 (by omega)

end MachineInt

/-! ## Types that count -/

/-- A type whose values are the whole numbers of an interval, with an addition that is exact and
refuses to leave the interval. -/
class Counter (α : Type) [CheckedAdd α] where
  /-- The number a value stands for. -/
  toInt : α → Int
  /-- The least number of the interval. -/
  least : Int
  /-- The greatest number of the interval. -/
  greatest : Int
  toInt_inj : ∀ {a b : α}, toInt a = toInt b → a = b
  toInt_range : ∀ a, least ≤ toInt a ∧ toInt a ≤ greatest
  checkedAdd_of_fits : ∀ {a b}, least ≤ toInt a + toInt b ∧ toInt a + toInt b ≤ greatest →
    ∃ c, CheckedAdd.checkedAdd a b = some c ∧ toInt c = toInt a + toInt b
  checkedAdd_of_not_fits : ∀ {a b}, ¬ (least ≤ toInt a + toInt b ∧ toInt a + toInt b ≤ greatest) →
    CheckedAdd.checkedAdd a b = none

namespace Counter

/-- The type holds a number. -/
def Fits (α : Type) [CheckedAdd α] [Counter α] (n : Int) : Prop :=
  least α ≤ n ∧ n ≤ greatest α

instance {s : Signedness} {w : Nat} [NeZero w] : Counter (MachineInt s w) where
  toInt := MachineInt.toInt
  least := MachineInt.least s w
  greatest := MachineInt.greatest s w
  toInt_inj := MachineInt.toInt_inj
  toInt_range := MachineInt.toInt_range
  checkedAdd_of_fits {a b} h := by
    refine ⟨⟨BitVec.ofInt w (a.toInt + b.toInt)⟩, if_pos h, ?_⟩
    rw [MachineInt.toInt_ofInt, MachineInt.wrap_eq_self h]
  checkedAdd_of_not_fits h := if_neg h

/-- A type counts as another one does when its values stand for those of the other, and it adds
what they stand for. -/
@[reducible] def along {α β : Type} [CheckedAdd α] [CheckedAdd β] [Counter β] (f : α → β)
    (g : β → α) (hf : ∀ {a b}, f a = f b → a = b) (hfg : ∀ b, f (g b) = b)
    (hadd : ∀ a b : α, CheckedAdd.checkedAdd a b = (CheckedAdd.checkedAdd (f a) (f b)).map g) :
    Counter α where
  toInt a := toInt (f a)
  least := least β
  greatest := greatest β
  toInt_inj h := hf (toInt_inj h)
  toInt_range a := toInt_range (f a)
  checkedAdd_of_fits {a b} h := by
    obtain ⟨c, hc, hn⟩ := checkedAdd_of_fits h
    refine ⟨g c, ?_, ?_⟩
    · rw [hadd, hc, Option.map_some]
    · rw [hfg, hn]
  checkedAdd_of_not_fits {a b} h := by
    rw [hadd, checkedAdd_of_not_fits h, Option.map_none]

instance : Counter Inverted :=
  along Inverted.value Inverted.mk (fun {a b} h => by cases a; cases b; cases h; rfl)
    (fun _ => rfl) fun _ _ => rfl

instance : Counter Zigzag :=
  along Zigzag.value Zigzag.mk (fun {a b} h => by cases a; cases b; cases h; rfl)
    (fun _ => rfl) fun _ _ => rfl

instance : Counter Locking :=
  along Locking.value Locking.mk (fun {a b} h => by cases a; cases b; cases h; rfl)
    (fun _ => rfl) fun _ _ => rfl

end Counter

end OrderedAtomics
