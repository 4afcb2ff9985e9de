import OrderedAtomics.Bench.Results
import OrderedAtomics.Files.Tree
import OrderedAtomics.Json.Document

/-
  Gathering measurements from a directory tree.  A measurement is a file `estimates.json` in a
  directory for the saved baseline, itself in a directory for the variant, itself in one for the
  group; a file `benchmark.json` beside it may say how many elements one iteration handles.  What
  does not qualify or cannot be read is passed over.

  The files are JSON, which another library reads: `read?` stands for its reader.
-/
namespace OrderedAtomics.Bench

open OrderedAtomics.Files OrderedAtomics.Json

/-- The baseline whose measurements are gathered. -/
def baseline : String := "main"

/-- The file that holds a measurement. -/
def estimatesName : EntryName := .text "estimates.json"

/-- The file that describes a benchmark. -/
def benchmarkName : EntryName := .text "benchmark.json"

/-- The directories that hold no measurements although they stand where some would. -/
def reportName : String := "report"

/-- One measurement. -/
structure Measurement where
  group : String
  variant : String
  ops : Float

/-- The group and the variant of a file, from the components of its directory's path, the innermost
first. -/
def keyOf? (path : List Component) : Option (String × String) :=
  match path with
  | inner :: middle :: outer :: _ =>
    match inner.text?, middle.text?, outer.text? with
    | some saved, some variant, some group =>
      if saved = baseline ∧ variant ≠ reportName ∧ group ≠ reportName then some (group, variant)
      else none
    | _, _, _ => none
  | _ => none

/-- Results from measurements in the order in which they were found. -/
def resultsOf (found : List Measurement) : Results :=
  found.foldl (fun results m => Results.add results m.group m.variant m.ops) []

section Reading

variable (read? : List Char → Option Document)

/-- The mean time of an iteration in nanoseconds, if the document gives a positive one. -/
def meanTime? (content : Text.Bytes) : Option Float := do
  let text ← Text.Utf8.decode? content
  let document ← read? text
  let time ← (← (← document.member? "mean").member? "point_estimate").number?
  if time > 0.0 then some time else none

/-- The number of elements of an iteration that the file beside the measurement gives. -/
def elements? (siblings : Entries) : Option Float := do
  let text ← siblings.textOf? benchmarkName
  let document ← read? text
  (← (← document.member? "throughput").member? "Elements").number?

/-- Operations per second, for a time in nanoseconds. -/
def opsPerSecond (elements time : Float) : Float := elements * 1e9 / time

/-- The measurement in a file `estimates.json` of a directory. -/
def measure? (path : List Component) (siblings : Entries) (content : Text.Bytes) :
    Option Measurement := do
  let (group, variant) ← keyOf? path
  let time ← meanTime? read? content
  return ⟨group, variant, opsPerSecond ((elements? read? siblings).getD 1.0) time⟩

/-- The measurements in and below a directory, whose path stands with its innermost component
first; `siblings` are all entries of the directory that the entries belong to. -/
def measurements (path : List Component) (siblings : Entries) : Entries → List Measurement
  | .nil => []
  | .cons name (.directory entries) rest =>
    measurements (.name name :: path) entries entries ++ measurements path siblings rest
  | .cons _ (.closed _) rest => measurements path siblings rest
  | .cons name (.file content) rest =>
    (if name = estimatesName then (measure? read? path siblings content).toList else [])
      ++ measurements path siblings rest

/-- The results in and below a directory, whose path stands with its innermost component first. -/
def gatherFrom (path : List Component) (entries : Entries) : Results :=
  resultsOf (measurements read? path entries entries)

/-- The results in and below the directory at a path, as far as they can be reached; none if there
is no such directory. -/
def gather (entries : Entries) (root : String) : Results :=
  match entries.resolve? root with
  | some (.directory inner) =>
    gatherFrom read? (componentsOf root).reverse (inner.within (roomBelow root))
  | _ => []

end Reading

end OrderedAtomics.Bench
