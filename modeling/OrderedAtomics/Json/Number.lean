/-
  Numbers of JSON documents as doubles.  Digits are gathered in a 64-bit significand as long as
  they fit; further digits before the point count as a power of ten, further digits after it are
  dropped.  The significand is then scaled by one power of ten, or by several when a single one
  would be out of range, so the result may differ from the nearest double in its last bits.  A
  number too large for a double is refused.
-/
namespace OrderedAtomics.Json

/-- The value of a decimal digit. -/
def digit? (c : Char) : Option Nat := if c.isDigit then some (c.toNat - '0'.toNat) else none

/-- Whether a text goes on with a digit. -/
def startsWithDigit (cs : List Char) : Bool :=
  match cs with
  | c :: _ => c.isDigit
  | [] => false

/-- The greatest significand. -/
def significandLimit : Nat := 18446744073709551615

/-- The greatest exponent that may be written. -/
def exponentLimit : Nat := 2147483647

/-- Reads the digits before the point: the significand, the number of digits that did not fit into
it, and the rest of the text. -/
def wholeDigits (significand dropped : Nat) : List Char → Nat × Nat × List Char
  | [] => (significand, dropped, [])
  | c :: cs =>
    match digit? c with
    | none => (significand, dropped, c :: cs)
    | some d =>
      if dropped = 0 ∧ 10 * significand + d ≤ significandLimit then
        wholeDigits (10 * significand + d) 0 cs
      else wholeDigits significand (dropped + 1) cs

/-- Reads the digits after the point: the significand, the number of digits taken into it, and the
rest of the text.  Once a digit does not fit none is taken. -/
def fractionDigits (significand taken : Nat) (full : Bool) : List Char → Nat × Nat × List Char
  | [] => (significand, taken, [])
  | c :: cs =>
    match digit? c with
    | none => (significand, taken, c :: cs)
    | some d =>
      if !full && decide (10 * significand + d ≤ significandLimit) then
        fractionDigits (10 * significand + d) (taken + 1) false cs
      else fractionDigits significand taken true cs

/-- Reads the digits of an exponent; there is no value when it is beyond the limit. -/
def exponentDigits (value? : Option Nat) : List Char → Option Nat × List Char
  | [] => (value?, [])
  | c :: cs =>
    match digit? c with
    | none => (value?, c :: cs)
    | some d =>
      exponentDigits (value?.bind fun n =>
        if 10 * n + d ≤ exponentLimit then some (10 * n + d) else none) cs

/-- A power of ten, for exponents up to 308. -/
def powerOfTen (k : Nat) : Float := Float.ofScientific 1 false k

/-- The number divided by `10 ^ k`, by at most `10 ^ 308` at a time. -/
def scaleDown (x : Float) (k : Nat) : Float :=
  if k ≤ 308 then x / powerOfTen k
  else if x == 0 then x
  else scaleDown (x / powerOfTen 308) (k - 308)
termination_by k

/-- The number multiplied by `10 ^ exponent`, unless that is too large. -/
def scale? (x : Float) (exponent : Int) : Option Float :=
  if exponent = 0 then some x
  else if exponent < 0 then some (scaleDown x (-exponent).toNat)
  else if exponent ≤ 308 then
    let y := x * powerOfTen exponent.toNat
    if y.isInf then none else some y
  else if x == 0 then some x
  else none

/-- The double for a sign, a significand and an exponent of ten. -/
def assemble? (negative : Bool) (significand : Nat) (exponent : Int) : Option Float :=
  (scale? (UInt64.ofNat significand).toFloat exponent).map fun x => if negative then -x else x

/-- Reads the sign of an exponent, if there is one: whether it is a minus. -/
def exponentSign (text : List Char) : Bool × List Char :=
  match text with
  | '-' :: cs => (true, cs)
  | '+' :: cs => (false, cs)
  | cs => (false, cs)

/-- Reads an exponent, if there is one, and assembles the number. -/
def readExponent (negative : Bool) (significand : Nat) (exponent : Int) (text : List Char) :
    Option (Float × List Char) :=
  let plain := (assemble? negative significand exponent).map (·, text)
  match text with
  | [] => plain
  | e :: cs =>
    if e = 'e' ∨ e = 'E' then
      let (down, cs) := exponentSign cs
      if startsWithDigit cs then
        match exponentDigits (some 0) cs with
        | (some n, rest) =>
          (assemble? negative significand (if down then exponent - n else exponent + n)).map
            (·, rest)
        | (none, rest) =>
          if significand ≠ 0 ∧ !down then none
          else some (if negative then -0.0 else 0.0, rest)
      else none
    else plain

/-- Reads the digits after the point, if there is one, and what follows them. -/
def readFraction (negative : Bool) (significand dropped : Nat) (text : List Char) :
    Option (Float × List Char) :=
  match text with
  | '.' :: cs =>
    if startsWithDigit cs then
      let (significand, taken, rest) := fractionDigits significand 0 false cs
      readExponent negative significand ((dropped : Int) - taken) rest
    else none
  | rest => readExponent negative significand dropped rest

/-- Reads a number without its sign: a zero stands alone before the point. -/
def readUnsigned (negative : Bool) (text : List Char) : Option (Float × List Char) :=
  if !startsWithDigit text then none
  else if text.head? == some '0' && startsWithDigit text.tail then none
  else
    let (significand, dropped, rest) := wholeDigits 0 0 text
    readFraction negative significand dropped rest

/-- Reads a number. -/
def readNumber (text : List Char) : Option (Float × List Char) :=
  match text with
  | '-' :: cs => readUnsigned true cs
  | cs => readUnsigned false cs

end OrderedAtomics.Json
