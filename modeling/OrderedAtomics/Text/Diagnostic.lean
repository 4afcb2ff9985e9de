/-
  Values as they are shown in diagnostics: bare texts, named wrappers of one value, and named
  records.  `compact` writes them on one line, `pretty` one field a line, four blanks deeper at
  each level and with a comma after every field.
-/
namespace OrderedAtomics

mutual

/-- What is shown of a value. -/
inductive Diagnostic where
  /-- A value with no parts. -/
  | atom (text : String)
  /-- A named wrapper of one value. -/
  | wrapper (name : String) (content : Diagnostic)
  /-- A named record; `complete` is false when some of its fields are not shown. -/
  | record (name : String) (fields : DiagnosticFields) (complete : Bool)

/-- The fields of a record. -/
inductive DiagnosticFields where
  | nil
  | cons (label : String) (value : Diagnostic) (rest : DiagnosticFields)

end

namespace Diagnostic

/-- A record all of whose fields are shown. -/
def ofFields (name : String) (fields : List (String × Diagnostic)) (complete : Bool := true) :
    Diagnostic :=
  .record name (fields.foldr (fun f rest => .cons f.1 f.2 rest) .nil) complete

mutual

/-- The text on one line. -/
def compact : Diagnostic → String
  | .atom text => text
  | .wrapper name content => name ++ "(" ++ compact content ++ ")"
  | .record name fields complete =>
    name ++ " \x7b " ++ compactFields fields complete ++ " \x7d"

/-- The fields of a record on one line, separated by commas. -/
def compactFields : DiagnosticFields → Bool → String
  | .nil, complete => if complete then "" else ".."
  | .cons label value .nil, true => label ++ ": " ++ compact value
  | .cons label value rest, complete =>
    label ++ ": " ++ compact value ++ ", " ++ compactFields rest complete

end

/-- The blanks before a line at a level. -/
def margin (level : Nat) : String := String.ofList (List.replicate (4 * level) ' ')

mutual

/-- The text with one field a line, for a value that stands at a level. -/
def prettyAt (level : Nat) : Diagnostic → String
  | .atom text => text
  | .wrapper name content =>
    name ++ "(\n" ++ margin (level + 1) ++ prettyAt (level + 1) content ++ ",\n" ++ margin level
      ++ ")"
  | .record name fields complete =>
    name ++ " \x7b\n" ++ prettyFields (level + 1) fields complete ++ margin level ++ "\x7d"

/-- The fields of a record, one a line. -/
def prettyFields (level : Nat) : DiagnosticFields → Bool → String
  | .nil, complete => if complete then "" else margin level ++ "..\n"
  | .cons label value rest, complete =>
    margin level ++ label ++ ": " ++ prettyAt level value ++ ",\n"
      ++ prettyFields level rest complete

end

/-- The text with one field a line. -/
def pretty (d : Diagnostic) : String := prettyAt 0 d

end Diagnostic

/-- Types whose values can be shown in diagnostics. -/
class Inspect (α : Type) where
  /-- What is shown of a value. -/
  inspect : α → Diagnostic

end OrderedAtomics
