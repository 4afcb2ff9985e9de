/-
  Benchmark results: for every group its variants with the operations per second of each, both
  sorted by name.
-/
namespace OrderedAtomics.Bench

/-- A list sorted by name, each name once. -/
abbrev Table (β : Type) := List (String × β)

namespace Table

variable {β : Type}

/-- What stands under a name. -/
def get? (name : String) : Table β → Option β
  | [] => none
  | (first, b) :: rest => if name = first then some b else get? name rest

/-- The table with a value put in its place, over an old one of that name. -/
def insert (name : String) (b : β) : Table β → Table β
  | [] => [(name, b)]
  | (first, old) :: rest =>
    if name < first then (name, b) :: (first, old) :: rest
    else if name = first then (first, b) :: rest
    else (first, old) :: insert name b rest

end Table

/-- Operations per second by group and variant. -/
abbrev Results := Table (Table Float)

/-- The results with one more; a later result of the same group and variant wins. -/
def Results.add (results : Results) (group variant : String) (ops : Float) : Results :=
  Table.insert group (Table.insert variant ops ((Table.get? group results).getD [])) results

end OrderedAtomics.Bench
