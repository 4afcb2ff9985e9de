import OrderedAtomics.Bench.Results
import OrderedAtomics.Decimal.Fixed

/-
  The report on benchmark results: a table for every group, each variant with its operations per
  second and its share of the fastest.
-/
namespace OrderedAtomics.Bench

/-- Operations per second with two places in the largest unit that they exceed, or without places
below a thousand. -/
def opsText (ops : Float) : String :=
  if ops > 1e9 then Decimal.fixed 2 (ops / 1e9) ++ "G"
  else if ops > 1e6 then Decimal.fixed 2 (ops / 1e6) ++ "M"
  else if ops > 1e3 then Decimal.fixed 2 (ops / 1e3) ++ "K"
  else Decimal.fixed 0 ops

/-- The greater of two numbers; what is not a number does not count. -/
def greater (x y : Float) : Float := if x.isNaN then y else if y.isNaN then x else if x < y then y
  else x

/-- The fastest of the variants, at least zero. -/
def fastest (variants : Table Float) : Float :=
  variants.foldl (fun best v => greater best v.2) 0.0

/-- A variant's share of the fastest. -/
def shareOf (fastest ops : Float) : Float := if fastest > 0.0 then ops / fastest else 0.0

/-- The row of a variant. -/
def row (fastest : Float) (variant : String) (ops : Float) : String :=
  "| " ++ variant ++ " | " ++ opsText ops ++ " | **" ++ Decimal.fixed 2 (shareOf fastest ops)
    ++ "x** |\n"

/-- The section of a group. -/
def sectionOf (group : String) (variants : Table Float) : String :=
  "\n## " ++ group ++ "\n\n| Variant | Ops/s | vs fastest |\n|---|---|---|\n"
    ++ String.join (variants.map fun v => row (fastest variants) v.1 v.2)

/-- The whole report. -/
def report (results : Results) : String :=
  "# Ordering Benchmark Report\n" ++ String.join (results.map fun g => sectionOf g.1 g.2)

end OrderedAtomics.Bench
