/-
  Floating-point numbers written with a fixed number of decimal places.  The exact value of the
  number is rounded; a value half way between two neighbours goes to the even one.
-/
namespace OrderedAtomics.Decimal

/-- The whole number nearest to `num / den`, the even one of two. -/
def roundHalfEven (num den : Nat) : Nat :=
  let q := num / den
  let twice := 2 * (num % den)
  if twice < den then q
  else if den < twice then q + 1
  else if q % 2 = 0 then q
  else q + 1

/-- What the bits of a double say: `magnitude · 2 ^ exponent`, with a sign. -/
inductive Parts where
  | nan
  | infinite (negative : Bool)
  | finite (negative : Bool) (magnitude : Nat) (exponent : Int)

/-- Takes the bits of a double apart. -/
def Parts.ofBits (bits : UInt64) : Parts :=
  let n := bits.toNat
  let negative := decide (Nat.pow 2 63 ≤ n)
  let field : Nat := n / Nat.pow 2 52 % Nat.pow 2 11
  let fraction : Nat := n % Nat.pow 2 52
  if field = 2047 then
    if fraction = 0 then .infinite negative else .nan
  else if field = 0 then .finite negative fraction (-1074)
  else .finite negative (Nat.pow 2 52 + fraction) ((field : Int) - 1075)

/-- `magnitude · 2 ^ exponent · 10 ^ places`, rounded to a whole number. -/
def scaled (places magnitude : Nat) (exponent : Int) : Nat :=
  if 0 ≤ exponent then magnitude * Nat.pow 10 places * Nat.pow 2 exponent.toNat
  else roundHalfEven (magnitude * Nat.pow 10 places) (Nat.pow 2 (-exponent).toNat)

/-- The digits of `n`, with zeros before them up to a length. -/
def padded (length n : Nat) : String :=
  let digits := toString n
  String.ofList (List.replicate (length - digits.length) '0') ++ digits

/-- `n / 10 ^ places` as text. -/
def pointText (places n : Nat) : String :=
  if places = 0 then toString n
  else toString (n / Nat.pow 10 places) ++ "." ++ padded places (n % Nat.pow 10 places)

/-- The number with the given count of decimal places; a zero keeps its sign. -/
def fixed (places : Nat) (x : Float) : String :=
  match Parts.ofBits x.toBits with
  | .nan => "NaN"
  | .infinite negative => if negative then "-inf" else "inf"
  | .finite negative magnitude exponent =>
    (if negative then "-" else "") ++ pointText places (scaled places magnitude exponent)

end OrderedAtomics.Decimal
