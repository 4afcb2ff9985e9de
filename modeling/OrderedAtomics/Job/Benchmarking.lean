import OrderedAtomics.Bench.Gathering
import OrderedAtomics.Bench.Report
import OrderedAtomics.Job.Workspace

/-
  The jobs that run the benchmarks and report on what they measured.
-/
namespace OrderedAtomics.Job

open OrderedAtomics.Bench OrderedAtomics.Files

/-- The benchmarks, in the order in which they run. -/
def benchmarkNames : List String := ["ordering_benchmark", "resolver_benchmark"]

/-- The arguments that make a benchmark short. -/
def quickArguments : List String := ["--measurement-time", "0.1", "--noplot", "--sample-size", "10"]

/-- The arguments for one benchmark. -/
def benchmarkArguments (quick : Bool) (name : String) : List String :=
  ["bench", "--bench", name, "--", "--save-baseline", baseline]
    ++ if quick then quickArguments else []

/-- Runs one benchmark; one that fails is only warned about. -/
def benchmarkOne (quick : Bool) (name : String) : Job Unit := do
  print ("\n>>> Running " ++ name ++ "\n")
  match ← build "0" (benchmarkArguments quick name) with
  | .error e => throw { message := "Failed to run bench " ++ name, cause? := some e }
  | .ok code =>
    if code = 0 then print ("Finished " ++ name ++ " in " ++ (← get).elapsed ++ "\n")
    else warn ("Warning: Benchmark " ++ name ++ " failed\n")

/-- Compiles and runs all benchmarks. -/
def benchmarkAll (quick : Bool) : Job Unit := do
  print "Running ordering benchmarks...\n"
  print "Compiling benchmarks...\n"
  match ← build "unset" ["build", "--benches", "--release"] with
  | .error e => throw (.ofSystem e)
  | .ok code =>
    if code = 0 then benchmarkNames.forM (benchmarkOne quick)
    else throw { message := "Failed to compile benchmarks" }

/-- The directory with the measurements. -/
def criterionPath : String := "target/criterion"

/-- The directory of the report. -/
def reportDirectory : String := "benchmark_results"

/-- The file with the report. -/
def reportFile : String := "report.md"

/-- The path of the report. -/
def reportPath : String := reportDirectory ++ "/" ++ reportFile

/-- The directory of the report in a tree, made if it is missing. -/
def reportEntries (files : Entries) : Except SystemError Entries :=
  match files.find? (.text reportDirectory) with
  | none => .ok .nil
  | some (.directory entries) => .ok entries
  | some (.file _) | some (.closed false) => .error .alreadyExists
  | some (.closed true) => .error .permissionDenied

/-- The tree with a report written to its place, over an old one. -/
def placeReport (files : Entries) (text : String) : Except SystemError Entries := do
  let entries ← reportEntries files
  match entries.find? (.text reportFile) with
  | some (.directory _) | some (.closed true) => .error .isDirectory
  | some (.closed false) => .error .permissionDenied
  | _ =>
    let entries := entries.insert (.text reportFile) (.file (Text.toBytes text))
    return files.insert (.text reportDirectory) (.directory entries)

/-- The report in a tree. -/
def reportIn? (files : Entries) : Option String :=
  match files.find? (.text reportDirectory) with
  | some (.directory entries) => (entries.textOf? (.text reportFile)).map String.ofList
  | _ => none

/-- Writes the report on the measurements in the tree; without measurements there is nothing to
report. -/
def writeReport : Job Unit := do
  print "\n>>> Generating Report...\n"
  let files := (← get).files
  match files.resolve? criterionPath with
  | none => warn ("No criterion output found at " ++ criterionPath ++ "\n")
  | some _ =>
    match placeReport files (report (gather Json.Document.read? files criterionPath)) with
    | .error e => throw (.ofSystem e)
    | .ok files =>
      modify fun w => { w with files }
      print ("Report written to " ++ reportPath ++ "\n")

end OrderedAtomics.Job
