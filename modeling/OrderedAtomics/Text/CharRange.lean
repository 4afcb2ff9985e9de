/-
  Sets of characters given as ranges of code points.
-/
namespace OrderedAtomics.Text

/-- The first and the last code point of a range. -/
abbrev CharRange := Nat × Nat

/-- Whether one of the ranges holds a character. -/
def CharRange.covers (ranges : List CharRange) (c : Char) : Bool :=
  ranges.any fun r => decide (r.1 ≤ c.toNat) && decide (c.toNat ≤ r.2)

end OrderedAtomics.Text
