import OrderedAtomics.Export.Audit
import OrderedAtomics.Job.Workspace

/-
  The job that builds the library, lists its symbols and holds them against the checklist.
-/
namespace OrderedAtomics.Job

open OrderedAtomics.Export

/-- Builds the library. -/
def buildLibrary : Job Unit := do
  match ← build "unset" ["build", "--lib", "--release"] with
  | .error e => throw (.ofSystem e)
  | .ok code =>
    if code = 0 then pure () else throw { message := "Failed to build the static library" }

/-- What the listing tool prints about the library. -/
def libraryListing : Job Text.Bytes := do
  match ← listSymbols ["-g", "--defined-only", libraryPath] with
  | .error e => throw { message := "Failed to run nm", cause? := some e }
  | .ok listing =>
    if listing.exit = 0 then return listing.output
    else throw { message := "nm failed on " ++ libraryPath }

/-- Checks the symbols of the library and prints the findings, as JSON if asked; fails unless the
library exports exactly what is expected. -/
def auditLibrary (json : Bool) : Job Unit := do
  print "Building static library...\n"
  buildLibrary
  let audit := Audit.ofListing (← libraryListing)
  print (if json then audit.toJson else audit.toText)
  if audit.passes then pure ()
  else throw { message := "Exported symbols do not match the expected surface" }

end OrderedAtomics.Job
