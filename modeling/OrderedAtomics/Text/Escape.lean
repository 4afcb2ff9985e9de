import OrderedAtomics.Text.GraphemeExtend
import OrderedAtomics.Text.Unprintable

/-
  Text made visible: a character that cannot be shown as itself is written as an escape that starts
  with a backslash, and a backslash is always escaped.  `escaped` is for text set in a sentence,
  `quoted` for text shown between quotes.
-/
namespace OrderedAtomics.Text

/-- The escape by code point, in lower-case hexadecimal digits. -/
def codeEscape (c : Char) : List Char :=
  ['\\', 'u', '\x7b'] ++ Nat.toDigits 16 c.toNat ++ ['\x7d']

/-- The escape of a character, if it is one of those with an escape of two characters. -/
def shortEscape? (c : Char) : Option (List Char) :=
  match c with
  | '\x00' => some ['\\', '0']
  | '\t' => some ['\\', 't']
  | '\r' => some ['\\', 'r']
  | '\n' => some ['\\', 'n']
  | '\\' => some ['\\', '\\']
  | '\x22' => some ['\\', '\x22']
  | '\x27' => some ['\\', '\x27']
  | _ => none

/-- How a character is written; `bare` says whether a mark may stand as itself after what comes
before it. -/
def escapeChar (bare : Bool) (c : Char) : List Char :=
  match shortEscape? c with
  | some e => e
  | none =>
    if !bare && isGraphemeExtend c then codeEscape c
    else if isPrintable c then [c]
    else codeEscape c

/-- Text set in a sentence: a mark is escaped only where it has nothing to attach to, at the
start. -/
def escapeChars : List Char → List Char
  | [] => []
  | c :: cs => escapeChar false c ++ cs.flatMap (escapeChar true)

/-- Text set in a sentence. -/
def escaped (s : String) : String := String.ofList (escapeChars s.toList)

/-- How a character is written between double quotes: a single quote stands as itself and every
mark is escaped. -/
def quoteChar (c : Char) : List Char :=
  if c = '\x27' then [c] else escapeChar false c

/-- Text between double quotes. -/
def quoted (s : String) : String :=
  String.ofList ('\x22' :: s.toList.flatMap quoteChar ++ ['\x22'])

end OrderedAtomics.Text
