import OrderedAtomics.Json.Number

/-
  JSON documents, read strictly: one value with blanks around it, nested at most 127 levels deep.
  Readers take the rest of the text and give back what follows; none of them skips anything but
  the four blanks of the format.

  What is done with documents takes their reader as an argument; `Document.read?` is the one that
  the jobs hand to it.
-/
namespace OrderedAtomics.Json

/-- A JSON value; the members of an object stand as written, repeated names included. -/
inductive Document where
  | null
  | boolean (b : Bool)
  | number (x : Float)
  | text (s : String)
  | array (items : List Document)
  | object (members : List (String × Document))

namespace Document

/-- The member of an object with a name; the last one when the name is repeated. -/
def member? (d : Document) (name : String) : Option Document :=
  match d with
  | .object members => (members.reverse.find? fun m => m.1 == name).map Prod.snd
  | _ => none

/-- The number, if the value is one. -/
def number? : Document → Option Float
  | .number x => some x
  | _ => none

end Document

/-- Skips blanks. -/
def skipBlanks (text : List Char) : List Char :=
  text.dropWhile fun c => c == ' ' || c == '\n' || c == '\t' || c == '\r'

/-- The value of a hexadecimal digit. -/
def hexDigit? (c : Char) : Option Nat :=
  if c.isDigit then some (c.toNat - '0'.toNat)
  else if 'a' ≤ c ∧ c ≤ 'f' then some (c.toNat - 'a'.toNat + 10)
  else if 'A' ≤ c ∧ c ≤ 'F' then some (c.toNat - 'A'.toNat + 10)
  else none

/-- Reads four hexadecimal digits. -/
def readUnit (text : List Char) : Option (Nat × List Char) :=
  match text with
  | a :: b :: c :: d :: rest => do
    let a ← hexDigit? a
    let b ← hexDigit? b
    let c ← hexDigit? c
    let d ← hexDigit? d
    return (4096 * a + 256 * b + 16 * c + d, rest)
  | _ => none

/-- Reads what follows a backslash and a `u`: one unit, or two that form a surrogate pair. -/
def readCodeEscape (text : List Char) : Option (Char × List Char) := do
  let (unit, rest) ← readUnit text
  if 0xdc00 ≤ unit ∧ unit ≤ 0xdfff then none
  else if 0xd800 ≤ unit ∧ unit ≤ 0xdbff then
    match rest with
    | '\\' :: 'u' :: rest => do
      let (low, rest) ← readUnit rest
      if 0xdc00 ≤ low ∧ low ≤ 0xdfff then
        return (Char.ofNat (0x10000 + 1024 * (unit - 0xd800) + (low - 0xdc00)), rest)
      else none
    | _ => none
  else return (Char.ofNat unit, rest)

/-- Reads what follows a backslash. -/
def readEscape (text : List Char) : Option (Char × List Char) :=
  match text with
  | '\x22' :: rest => some ('\x22', rest)
  | '\\' :: rest => some ('\\', rest)
  | '/' :: rest => some ('/', rest)
  | 'b' :: rest => some ('\x08', rest)
  | 'f' :: rest => some ('\x0c', rest)
  | 'n' :: rest => some ('\n', rest)
  | 'r' :: rest => some ('\r', rest)
  | 't' :: rest => some ('\t', rest)
  | 'u' :: rest => readCodeEscape rest
  | _ => none

/-- Reads the characters of a string up to its closing quote, at most `fuel` of them. -/
def readCharacters : Nat → List Char → Option (List Char × List Char)
  | 0, _ => none
  | _, [] => none
  | fuel + 1, c :: rest =>
    if c = '\x22' then some ([], rest)
    else if c = '\\' then do
      let (e, rest) ← readEscape rest
      let (more, rest) ← readCharacters fuel rest
      return (e :: more, rest)
    else if c.toNat < 0x20 then none
    else do
      let (more, rest) ← readCharacters fuel rest
      return (c :: more, rest)

/-- Reads a string after its opening quote. -/
def readString (text : List Char) : Option (String × List Char) := do
  let (cs, rest) ← readCharacters (text.length + 1) text
  return (String.ofList cs, rest)

/-- Takes a word off the front of a text. -/
def dropWord : List Char → List Char → Option (List Char)
  | [], text => some text
  | w :: ws, c :: cs => if w = c then dropWord ws cs else none
  | _ :: _, [] => none

mutual

/-- Reads a value; `depth` levels of nesting are left. -/
def readValue : Nat → Nat → List Char → Option (Document × List Char)
  | 0, _, _ => none
  | fuel + 1, depth, text =>
    match skipBlanks text with
    | [] => none
    | 'n' :: rest => do return (.null, ← dropWord ['u', 'l', 'l'] rest)
    | 't' :: rest => do return (.boolean true, ← dropWord ['r', 'u', 'e'] rest)
    | 'f' :: rest => do return (.boolean false, ← dropWord ['a', 'l', 's', 'e'] rest)
    | '\x22' :: rest => do
      let (s, rest) ← readString rest
      return (.text s, rest)
    | '[' :: rest =>
      match depth with
      | 0 => none
      | depth + 1 =>
        match skipBlanks rest with
        | ']' :: rest => some (.array [], rest)
        | rest => do
          let (items, rest) ← readItems fuel depth rest
          return (.array items, rest)
    | '\x7b' :: rest =>
      match depth with
      | 0 => none
      | depth + 1 =>
        match skipBlanks rest with
        | '\x7d' :: rest => some (.object [], rest)
        | rest => do
          let (members, rest) ← readMembers fuel depth rest
          return (.object members, rest)
    | c :: rest => do
      let (x, rest) ← readNumber (c :: rest)
      return (.number x, rest)

/-- Reads the items of an array that is not empty, and its closing bracket. -/
def readItems : Nat → Nat → List Char → Option (List Document × List Char)
  | 0, _, _ => none
  | fuel + 1, depth, text => do
    let (item, rest) ← readValue fuel depth text
    match skipBlanks rest with
    | ']' :: rest => return ([item], rest)
    | ',' :: rest =>
      let (items, rest) ← readItems fuel depth rest
      return (item :: items, rest)
    | _ => none

/-- Reads the members of an object that is not empty, and its closing brace. -/
def readMembers : Nat → Nat → List Char → Option (List (String × Document) × List Char)
  | 0, _, _ => none
  | fuel + 1, depth, text =>
    match skipBlanks text with
    | '\x22' :: rest => do
      let (name, rest) ← readString rest
      match skipBlanks rest with
      | ':' :: rest =>
        let (value, rest) ← readValue fuel depth rest
        match skipBlanks rest with
        | '\x7d' :: rest => return ([(name, value)], rest)
        | ',' :: rest =>
          let (members, rest) ← readMembers fuel depth rest
          return ((name, value) :: members, rest)
        | _ => none
      | _ => none
    | _ => none

end

/-- The deepest nesting that is read. -/
def maxDepth : Nat := 127

/-- Reads a document: one value and nothing else.  Every call of a reader is made for one more
character or right below such a call, so the fuel is enough. -/
def Document.read? (text : List Char) : Option Document :=
  match readValue (2 * text.length + 2) maxDepth text with
  | some (d, rest) => if (skipBlanks rest).isEmpty then some d else none
  | none => none

end OrderedAtomics.Json
