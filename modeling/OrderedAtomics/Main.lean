import OrderedAtomics.Command.Run

/-
  The command line program.  It starts no other program: the library is built and its symbols are
  listed beforehand, and `symbols` reads the listing from standard input; `bench` reads from there
  the paths of the files under the directory with the measurements, one a line.
-/
namespace OrderedAtomics.Command

open OrderedAtomics.Job

/-- Everything that is left on a stream. -/
partial def readAll (stream : IO.FS.Stream) (bytes : ByteArray) : IO ByteArray := do
  let more ← stream.read 65536
  if more.isEmpty then return bytes else readAll stream (bytes ++ more)

/-- The files at paths, as a tree. -/
def readFiles (paths : List String) : IO Files.Entries :=
  paths.foldlM (fun (entries : Files.Entries) (path : String) => do
    let content ← IO.FS.readBinFile path
    return entries.placeAt path (.file content.toList)) .nil

/-- The workspace for a request. -/
def workspaceFor (request : Request) : IO Workspace := do
  let input ← readAll (← IO.getStdin) ByteArray.empty
  match request with
  | .symbols _ =>
    return { buildTool? := some ⟨0, [], false⟩, listingTool? := some ⟨input.toList, 0⟩ }
  | .bench _ _ =>
    let paths := (Text.lines (Text.Utf8.decodeLossy input.toList)).map String.ofList
    return { files := ← readFiles (paths.filter fun p => p != "") }

/-- Runs the command line and writes the report, if there is one. -/
def program (arguments : List String) : IO UInt32 := do
  let workspace : Workspace ←
    match parse arguments with
    | .ok request => workspaceFor request
    | .error _ => pure {}
  let (ending, after) := Command.run arguments workspace
  IO.print after.out
  IO.eprint after.err
  match ending with
  | .misused e => IO.eprintln ("error: " ++ e.kind)
  | _ => pure ()
  match reportIn? after.files with
  | some report =>
    IO.FS.createDirAll reportDirectory
    IO.FS.writeFile reportPath report
  | none => pure ()
  return UInt32.ofNat ending.code

end OrderedAtomics.Command

/-- The program. -/
def main (arguments : List String) : IO UInt32 := OrderedAtomics.Command.program arguments
