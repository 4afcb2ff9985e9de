import OrderedAtomics.Json.Document

/-
  The grammar of JSON, apart from any reader.  `Spells` says which texts stand for a value, for the
  items of an array and for the members of an object; every rule puts a text together from those of
  its parts.  How a numeral is made into a double is left to the reader.

  Documents are read by another library.  `Reader.Strict` is what is relied on: the texts that the
  grammar gives a value of limited depth are read as that value, and no others are read; and
  numerals that are short enough to come out exactly do.
-/
namespace OrderedAtomics.Json

/-! ## Numerals -/

/-- A numeral: its sign, its digits before and after the point, and its exponent of ten. -/
structure Numeral where
  negative : Bool
  whole : List Char
  fraction : List Char := []
  exponent : Int := 0

/-- One decimal digit or more. -/
def Digits (text : List Char) : Prop := text ≠ [] ∧ ∀ c ∈ text, c.isDigit = true

/-- The number that decimal digits stand for. -/
def valueOf (digits : List Char) : Nat := Nat.ofDigitChars 10 digits 0

/-- How a sign is written; a plus is not. -/
def signText (negative : Bool) : List Char := if negative then ['-'] else []

/-- How digits after the point are written. -/
inductive FractionText : List Char → List Char → Prop
  | absent : FractionText [] []
  | present {digits} (h : Digits digits) : FractionText digits ('.' :: digits)

/-- How an exponent is written. -/
inductive ExponentText : Int → List Char → Prop
  | absent : ExponentText 0 []
  | plain {e digits} (he : e ∈ ['e', 'E']) (h : Digits digits) :
      ExponentText (valueOf digits) (e :: digits)
  | plus {e digits} (he : e ∈ ['e', 'E']) (h : Digits digits) :
      ExponentText (valueOf digits) (e :: '+' :: digits)
  | minus {e digits} (he : e ∈ ['e', 'E']) (h : Digits digits) :
      ExponentText (-valueOf digits) (e :: '-' :: digits)

/-- How a numeral is written; a zero before the point stands alone. -/
inductive NumeralText (n : Numeral) : List Char → Prop
  | parts {fraction exponent} (hwhole : Digits n.whole)
      (hzero : n.whole.head? = some '0' → n.whole = ['0'])
      (hfraction : FractionText n.fraction fraction)
      (hexponent : ExponentText n.exponent exponent) :
      NumeralText n (signText n.negative ++ n.whole ++ fraction ++ exponent)

/-! ## Strings -/

/-- What a character after a backslash stands for. -/
def shortEscapes : List (Char × Char) :=
  [('\x22', '\x22'), ('\\', '\\'), ('/', '/'), ('b', '\x08'), ('f', '\x0c'), ('n', '\n'),
    ('r', '\r'), ('t', '\t')]

/-- A hexadecimal digit, small or capital. -/
def HexDigit (v : Nat) (c : Char) : Prop :=
  v < 16 ∧ (c = v.digitChar ∨ c = v.digitChar.toUpper)

/-- Four hexadecimal digits. -/
inductive UnitText : Nat → List Char → Prop
  | digits {v₃ v₂ v₁ v₀ c₃ c₂ c₁ c₀} (h₃ : HexDigit v₃ c₃) (h₂ : HexDigit v₂ c₂)
      (h₁ : HexDigit v₁ c₁) (h₀ : HexDigit v₀ c₀) :
      UnitText (4096 * v₃ + 256 * v₂ + 16 * v₁ + v₀) [c₃, c₂, c₁, c₀]

/-- How a character is written after a backslash. -/
inductive EscapeText : Char → List Char → Prop
  | short {e c} (h : (e, c) ∈ shortEscapes) : EscapeText c [e]
  | unit {u text} (h : UnitText u text) (hu : u < 0xd800 ∨ 0xdfff < u) :
      EscapeText (Char.ofNat u) ('u' :: text)
  | surrogates {high low text text'} (h : UnitText high text) (h' : UnitText low text')
      (hhigh : 0xd800 ≤ high ∧ high ≤ 0xdbff) (hlow : 0xdc00 ≤ low ∧ low ≤ 0xdfff) :
      EscapeText (Char.ofNat (0x10000 + 1024 * (high - 0xd800) + (low - 0xdc00)))
        ('u' :: text ++ '\\' :: 'u' :: text')

/-- How the characters of a string are written. -/
inductive CharactersText : List Char → List Char → Prop
  | nil : CharactersText [] []
  | plain {c cs text} (hquote : c ≠ '\x22') (hslash : c ≠ '\\') (hcontrol : 0x20 ≤ c.toNat)
      (h : CharactersText cs text) : CharactersText (c :: cs) (c :: text)
  | escaped {c cs escape text} (hescape : EscapeText c escape) (h : CharactersText cs text) :
      CharactersText (c :: cs) ('\\' :: escape ++ text)

/-- How a string is written. -/
inductive StringText : String → List Char → Prop
  | quoted {cs text} (h : CharactersText cs text) :
      StringText (String.ofList cs) ('\x22' :: text ++ ['\x22'])

/-! ## Values -/

/-- Blanks only. -/
def Blank (text : List Char) : Prop := ∀ c ∈ text, c ∈ [' ', '\n', '\t', '\r']

instance (text : List Char) : Decidable (Blank text) :=
  List.decidableBAll (fun c => c ∈ [' ', '\n', '\t', '\r']) text

theorem blank_nil : Blank [] := nofun

/-- What a text may stand for. -/
inductive Phrase where
  | value (d : Document)
  | items (items : List Document)
  | members (members : List (String × Document))

/-- `Spells double? n p text`: the text stands for `p`, with `n` levels of nesting allowed and
numerals made into doubles by `double?`. -/
inductive Spells (double? : Numeral → Option Float) : Nat → Phrase → List Char → Prop
  | padded {n d before text after} (hbefore : Blank before) (h : Spells double? n (.value d) text)
      (hafter : Blank after) : Spells double? n (.value d) (before ++ text ++ after)
  | nullWord {n} : Spells double? n (.value .null) ['n', 'u', 'l', 'l']
  | trueWord {n} : Spells double? n (.value (.boolean true)) ['t', 'r', 'u', 'e']
  | falseWord {n} : Spells double? n (.value (.boolean false)) ['f', 'a', 'l', 's', 'e']
  | number {n numeral text x} (h : NumeralText numeral text) (hx : double? numeral = some x) :
      Spells double? n (.value (.number x)) text
  | text {n s text} (h : StringText s text) : Spells double? n (.value (.text s)) text
  | noItems {n gap} (h : Blank gap) :
      Spells double? (n + 1) (.value (.array [])) ('[' :: gap ++ [']'])
  | array {n items text} (h : Spells double? n (.items items) text) :
      Spells double? (n + 1) (.value (.array items)) ('[' :: text ++ [']'])
  | noMembers {n gap} (h : Blank gap) :
      Spells double? (n + 1) (.value (.object [])) ('\x7b' :: gap ++ ['\x7d'])
  | object {n members text} (h : Spells double? n (.members members) text) :
      Spells double? (n + 1) (.value (.object members)) ('\x7b' :: text ++ ['\x7d'])
  | lastItem {n d text} (h : Spells double? n (.value d) text) :
      Spells double? n (.items [d]) text
  | item {n d items text more} (h : Spells double? n (.value d) text)
      (hmore : Spells double? n (.items items) more) :
      Spells double? n (.items (d :: items)) (text ++ ',' :: more)
  | lastMember {n name d before quoted after text} (hbefore : Blank before)
      (hname : StringText name quoted) (hafter : Blank after)
      (h : Spells double? n (.value d) text) :
      Spells double? n (.members [(name, d)]) (before ++ quoted ++ after ++ ':' :: text)
  | member {n name d members before quoted after text more} (hbefore : Blank before)
      (hname : StringText name quoted) (hafter : Blank after)
      (h : Spells double? n (.value d) text) (hmore : Spells double? n (.members members) more) :
      Spells double? n (.members ((name, d) :: members))
        (before ++ quoted ++ after ++ ':' :: text ++ ',' :: more)

namespace Spells

variable {double? : Numeral → Option Float} {n : Nat} {d : Document}
  {before text after : List Char}

theorem indented (hbefore : Blank before) (h : Spells double? n (.value d) text) :
    Spells double? n (.value d) (before ++ text) := by
  rw [← List.append_nil (before ++ text)]
  exact .padded hbefore h blank_nil

theorem ended (h : Spells double? n (.value d) text) (hafter : Blank after) :
    Spells double? n (.value d) (text ++ after) :=
  .padded blank_nil h hafter

end Spells

/-! ## Readers -/

/-- A reader of documents, and how it makes a numeral into a double, if it is not too large. -/
structure Reader where
  read? : List Char → Option Document
  double? : Numeral → Option Float

/-- A double with a sign. -/
def signed (negative : Bool) (x : Float) : Float := if negative then -x else x

/-- Two to the 53rd power; the whole numbers up to here are doubles. -/
def exactLimit : Nat := 9007199254740992

/-- A reader that reads JSON, as far as it nests no deeper than the limit, and nothing else. -/
structure Reader.Strict (r : Reader) : Prop where
  read?_eq_some_iff : ∀ text d, r.read? text = some d ↔ Spells r.double? maxDepth (.value d) text
  /-- Whole numbers of 64 bits are not scaled. -/
  whole : ∀ negative digits, Digits digits → valueOf digits < UInt64.size →
    r.double? { negative, whole := digits } =
      some (signed negative (UInt64.ofNat (valueOf digits)).toFloat)
  /-- A short decimal fraction is the quotient of two numbers that are doubles. -/
  decimal : ∀ negative digits fraction, Digits digits → Digits fraction → fraction.length ≤ 22 →
    valueOf (digits ++ fraction) ≤ exactLimit →
    r.double? { negative, whole := digits, fraction } =
      some (signed negative ((UInt64.ofNat (valueOf (digits ++ fraction))).toFloat /
        Float.ofScientific 1 false fraction.length))

end OrderedAtomics.Json
