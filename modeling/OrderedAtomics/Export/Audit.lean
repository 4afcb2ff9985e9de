import OrderedAtomics.Export.Checklist
import OrderedAtomics.Text.Blank
import OrderedAtomics.Text.JsonString
import OrderedAtomics.Text.Utf8

/-
  Holding the symbols of the built library against the checklist.  A listing names one symbol at
  the end of each line; symbols that do not belong to the surface are passed over.
-/
namespace OrderedAtomics.Export

/-- The library whose symbols are listed. -/
def libraryPath : String := "target/release/libatomics_shims.a"

/-- What comparing a listing with the checklist finds. -/
structure Audit where
  library : String
  doubleWord : Bool
  expected : Nat
  exported : Nat
  missing : List String
  unexpected : List String

namespace Audit

/-- Some object formats put one more underscore before every name; it is taken off the names of the
surface. -/
def normalize (name : List Char) : List Char :=
  match name with
  | '_' :: '_' :: 's' :: 'a' :: '_' :: rest => '_' :: 's' :: 'a' :: '_' :: rest
  | _ => name

/-- Whether a name belongs to the surface. -/
def isSurfaceName (name : List Char) : Bool :=
  match name with
  | '_' :: 's' :: 'a' :: '_' :: _ => true
  | _ => false

/-- The names of the surface among the last words of the lines, in the order of the lines. -/
def listedNames (listing : Text.Bytes) : List String :=
  (((Text.lines (Text.Utf8.decodeLossy listing)).filterMap Text.lastWord?).map normalize).filter
    isSurfaceName |>.map String.ofList

/-- The set of names of the surface in a listing. -/
def exportedNames (listing : Text.Bytes) : List String := Text.NameSet.ofList (listedNames listing)

/-- The name that tells whether a library has double words. -/
def doubleWordWitness : String := "_sa_prepare_double_word"

/-- Compares a listing with the checklist. -/
def ofListing (listing : Text.Bytes) : Audit :=
  let exported := exportedNames listing
  let doubleWord := exported.contains doubleWordWitness
  let expected := Checklist.expected doubleWord
  { library := libraryPath
    doubleWord
    expected := expected.length
    exported := exported.length
    missing := Text.NameSet.diff expected exported
    unexpected := Text.NameSet.diff exported expected }

/-- Whether the listing and the checklist agree. -/
def passes (a : Audit) : Bool := a.missing.isEmpty && a.unexpected.isEmpty

/-- A truth value in words. -/
def boolText (b : Bool) : String := if b then "true" else "false"

/-- The findings in words, a line for each name that differs. -/
def toText (a : Audit) : String :=
  a.library ++ ": " ++ toString a.exported ++ " exported, " ++ toString a.expected
    ++ " expected (double word: " ++ boolText a.doubleWord ++ ")\n"
    ++ String.join (a.missing.map fun n => "  missing    " ++ n ++ "\n")
    ++ String.join (a.unexpected.map fun n => "  unexpected " ++ n ++ "\n")

/-- A list of names as JSON, one a line. -/
def namesJson (names : List String) : String :=
  if names.isEmpty then "[]"
  else "[\n" ++ String.intercalate ",\n" (names.map fun n => "    " ++ Text.jsonString n) ++ "\n  ]"

/-- The findings as JSON, one field a line. -/
def toJson (a : Audit) : String :=
  let fields :=
    [("library", Text.jsonString a.library), ("double_word", boolText a.doubleWord),
     ("expected", toString a.expected), ("exported", toString a.exported),
     ("missing", namesJson a.missing), ("unexpected", namesJson a.unexpected)]
  "\x7b\n" ++ String.intercalate ",\n"
    (fields.map fun f => "  " ++ Text.jsonString f.1 ++ ": " ++ f.2) ++ "\n\x7d\n"

end Audit

end OrderedAtomics.Export
