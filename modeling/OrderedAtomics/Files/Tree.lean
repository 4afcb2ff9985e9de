import OrderedAtomics.Text.Utf8

/-
  Directory trees.  A directory lists its entries in some order, and no name twice when it was
  built by `insert`.  What may not be read is still listed.  A path longer than a fixed number of
  bytes leads nowhere, so that what lies too deep below a directory cannot be reached from it.
-/
namespace OrderedAtomics.Files

open OrderedAtomics.Text

/-- The name of a directory entry, which need not be text. -/
inductive EntryName where
  | text (s : String)
  | raw (bytes : Bytes)
  deriving DecidableEq

/-- The name as text, if it is text. -/
def EntryName.text? : EntryName → Option String
  | .text s => some s
  | .raw _ => none

/-- The length of a name in bytes. -/
def EntryName.size : EntryName → Nat
  | .text s => s.utf8ByteSize
  | .raw bytes => bytes.length

mutual

/-- A file with its content, a directory, or a file or directory that may be neither read nor
changed. -/
inductive Node where
  | file (content : Bytes)
  | directory (entries : Entries)
  | closed (isDirectory : Bool)

/-- The entries of a directory, in the order in which they are listed. -/
inductive Entries where
  | nil
  | cons (name : EntryName) (node : Node) (rest : Entries)

end

namespace Entries

/-- The entry with a name. -/
def find? : Entries → EntryName → Option Node
  | .nil, _ => none
  | .cons name node rest, wanted => if name = wanted then some node else rest.find? wanted

/-- The directory with an entry put in, in place of an old one of that name. -/
def insert (name : EntryName) (node : Node) : Entries → Entries
  | .nil => .cons name node .nil
  | .cons first old rest =>
    if first = name then .cons first node rest else .cons first old (insert name node rest)

/-- The content of the file with a name, if it is a file and text. -/
def textOf? (entries : Entries) (name : EntryName) : Option (List Char) :=
  match entries.find? name with
  | some (.file content) => Utf8.decode? content
  | _ => none

/-- The directory with a node put in at a path, its parent directories made where they are
missing.  What is in the way of a parent stays, and so does a directory in the way of a new one. -/
def place : List String → Node → Entries → Entries
  | [], _, entries => entries
  | [name], node, entries =>
    match node, entries.find? (.text name) with
    | .directory _, some (.directory _) => entries
    | _, _ => entries.insert (.text name) node
  | name :: path, node, entries =>
    match entries.find? (.text name) with
    | some (.file _) | some (.closed _) => entries
    | some (.directory inner) => entries.insert (.text name) (.directory (place path node inner))
    | none => entries.insert (.text name) (.directory (place path node .nil))

end Entries

/-- One component of a path. -/
inductive Component where
  | root
  | current
  | parent
  | name (n : EntryName)
  deriving DecidableEq

/-- The name a component gives, if it is one and text. -/
def Component.text? : Component → Option String
  | .name n => n.text?
  | _ => none

/-- The components of a path: repeated and closing slashes do not count, and neither does a dot
unless it comes first. -/
def componentsOf (path : String) : List Component :=
  let pieces := splitOnSlash path.toList
  let absolute : List Component := if path.toList.head? == some '/' then [.root] else []
  let first : List Component := if pieces.head? == some ['.'] then [.current] else []
  absolute ++ first ++ pieces.filterMap fun piece =>
    if piece = [] ∨ piece = ['.'] then none
    else if piece = ['.', '.'] then some .parent
    else some (.name (.text (String.ofList piece)))
where
  /-- The pieces between slashes. -/
  splitOnSlash : List Char → List (List Char)
    | [] => [[]]
    | c :: cs =>
      if c = '/' then [] :: splitOnSlash cs
      else
        match splitOnSlash cs with
        | [] => [[c]]
        | piece :: pieces => (c :: piece) :: pieces

/-- What stands at the end of a path that starts in the innermost of nested directories, `above`
being the ones it lies in.  Nothing outside the outermost is known. -/
def resolveFrom : List Component → List Entries → Entries → Option Node
  | [], _, here => some (.directory here)
  | .root :: _, _, _ => none
  | .current :: path, above, here => resolveFrom path above here
  | .parent :: path, above, _ =>
    match above with
    | [] => none
    | outer :: above => resolveFrom path above outer
  | .name n :: path, above, here =>
    match here.find? n with
    | none => none
    | some (.directory inner) => resolveFrom path (here :: above) inner
    | some leaf => if path = [] then some leaf else none

/-- The length in bytes of the longest path that can be followed. -/
def maxPathSize : Nat := 4095

/-- The number of bytes that a path leaves for what comes below it, slashes included; a closing
slash of the path serves for the first of those. -/
def roomBelow (path : String) : Nat :=
  maxPathSize - path.utf8ByteSize + if path.toList.getLast? = some '/' then 1 else 0

namespace Entries

/-- What stands at a path as it is written; the empty path and one that is too long lead nowhere. -/
def resolve? (entries : Entries) (path : String) : Option Node :=
  if path = "" ∨ maxPathSize < path.utf8ByteSize then none
  else resolveFrom (componentsOf path) [] entries

/-- The entries that can be reached when at most `room` bytes may follow the path of their
directory. -/
def within (room : Nat) : Entries → Entries
  | .nil => .nil
  | .cons name (.file content) rest =>
    if name.size < room then .cons name (.file content) (within room rest) else within room rest
  | .cons name (.closed isDirectory) rest =>
    if name.size < room then .cons name (.closed isDirectory) (within room rest)
    else within room rest
  | .cons name (.directory inner) rest =>
    if name.size < room then
      .cons name (.directory (within (room - (name.size + 1)) inner)) (within room rest)
    else within room rest

/-- The directory with a node put in at the end of a path that goes on from the directory `here`,
whose names stand innermost first.  Going up from a directory makes it first. -/
def placeFrom (here : List String) (node : Node) : List Component → Entries → Entries
  | [], entries => entries.place here.reverse node
  | .name (.text s) :: path, entries => placeFrom (s :: here) node path entries
  | .parent :: path, entries =>
    placeFrom here.tail node path (entries.place here.reverse (.directory .nil))
  | _ :: path, entries => placeFrom here node path entries

/-- The directory with a node put in at a path as it is written, its parent directories made where
they are missing. -/
def placeAt (path : String) (node : Node) (entries : Entries) : Entries :=
  placeFrom [] node (componentsOf path) entries

end Entries

end OrderedAtomics.Files
