import OrderedAtomics.Command.Arguments
import OrderedAtomics.Job.Benchmarking
import OrderedAtomics.Job.LibraryAudit

/-
  Running a command line on a workspace.
-/
namespace OrderedAtomics.Command

open OrderedAtomics.Job

/-- The list of subcommands, as help shows it. -/
def subcommandsHelp : String :=
  "Commands:\n"
    ++ "  symbols  Check the exported `_sa_` symbols of the static library\n"
    ++ "  bench    Run the ordering and resolver benchmarks\n"
    ++ "  help     Print this message or the help of the given subcommand(s)\n"

/-- The text of help. -/
def helpText : Topic → String
  | .all =>
    "atomics-shims automation\n\nUsage: xtask <COMMAND>\n\n" ++ subcommandsHelp
      ++ "\nOptions:\n  -h, --help  Print help\n"
  | .symbols =>
    "Check the exported `_sa_` symbols of the static library\n\nUsage: xtask symbols [OPTIONS]\n\n"
      ++ "Options:\n      --json  Print the result as JSON\n  -h, --help  Print help\n"
  | .bench =>
    "Run the ordering and resolver benchmarks\n\nUsage: xtask bench [OPTIONS]\n\nOptions:\n"
      ++ "      --quick        Run quickly (lower sample size/time)\n"
      ++ "      --report-only  Generate report only (skip running benchmarks)\n"
      ++ "  -h, --help         Print help\n"
  | .help =>
    "Print this message or the help of the given subcommand(s)\n\nUsage: xtask help [COMMAND]...\n\n"
      ++ "Arguments:\n  [COMMAND]...  Print help for the subcommand(s)\n"

/-- Does what was asked for. -/
def perform : Request → Job Unit
  | .symbols json => auditLibrary json
  | .bench quick reportOnly => do
    if reportOnly then pure () else benchmarkAll quick
    writeReport

/-- How a command ends. -/
inductive Exit where
  /-- It did what was asked for. -/
  | done
  /-- Help was asked for and printed. -/
  | helped
  /-- It failed, and said so. -/
  | failed
  /-- The command line was wrong. -/
  | misused (e : UsageError)
  deriving DecidableEq

/-- The exit code. -/
def Exit.code : Exit → Nat
  | .done | .helped => 0
  | .failed => 1
  | .misused _ => 2

/-- Runs a command line: how it ends, and the workspace it leaves. -/
def run (arguments : List String) (w : Workspace) : Exit × Workspace :=
  match parse arguments with
  | .error (.help topic) => (.helped, { w with out := w.out ++ helpText topic })
  | .error e => (.misused e, w)
  | .ok request =>
    match (perform request).run w with
    | (.ok (), w) => (.done, w)
    | (.error f, w) => (.failed, { w with err := w.err ++ f.report })

end OrderedAtomics.Command
