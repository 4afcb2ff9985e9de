import OrderedAtomics.Text.NameSet

/-
  The names a complete library exports, written down apart from the functions themselves so that
  the built library can be held against them.
-/
namespace OrderedAtomics.Export.Checklist

/-- The names of the integer types. -/
def integerTypes : List String :=
  ["int8", "int16", "int32", "int64", "int", "uint8", "uint16", "uint32", "uint64", "uint"]

/-- The orderings of loads. -/
def loads : List String := ["relaxed", "acquire", "seq_cst"]

/-- The orderings of stores. -/
def stores : List String := ["relaxed", "release", "seq_cst"]

/-- The orderings of exchanges and fetches. -/
def updates : List String := ["relaxed", "acquire", "release", "acq_rel", "seq_cst"]

/-- The orderings of a compare-exchange: when it happens, and when it does not. -/
def exchanges : List (String × String) :=
  [("relaxed", "relaxed"), ("acquire", "relaxed"), ("release", "relaxed"),
   ("acq_rel", "relaxed"), ("seq_cst", "relaxed"), ("acquire", "acquire"),
   ("acq_rel", "acquire"), ("seq_cst", "acquire"), ("seq_cst", "seq_cst")]

/-- The orderings of fences. -/
def fences : List String := ["acquire", "release", "acq_rel", "seq_cst"]

/-- The fetches of integers alone. -/
def arithmetic : List String := ["add", "sub"]

/-- The fetches of integers and booleans. -/
def bitwise : List String := ["or", "xor", "and"]

/-- The names every stored type has. -/
def basicNames (type : String) : List String :=
  ["_sa_prepare_" ++ type, "_sa_dispose_" ++ type]
    ++ loads.map (fun o => "_sa_load_" ++ o ++ "_" ++ type)
    ++ stores.map (fun o => "_sa_store_" ++ o ++ "_" ++ type)
    ++ updates.map (fun o => "_sa_exchange_" ++ o ++ "_" ++ type)
    ++ ["strong", "weak"].flatMap fun kind => exchanges.map fun o =>
      "_sa_cmpxchg_" ++ kind ++ "_" ++ o.1 ++ "_" ++ o.2 ++ "_" ++ type

/-- The names of fetches. -/
def fetchNames (type : String) (ops : List String) : List String :=
  ops.flatMap fun op => updates.map fun o => "_sa_fetch_" ++ op ++ "_" ++ o ++ "_" ++ type

/-- Every expected name, in the order of the tables above. -/
def names (doubleWords : Bool) : List String :=
  integerTypes.flatMap (fun t => basicNames t ++ fetchNames t arithmetic ++ fetchNames t bitwise)
    ++ basicNames "bool" ++ fetchNames "bool" bitwise
    ++ (if doubleWords then basicNames "double_word" else [])
    ++ fences.map (fun o => "_sa_thread_fence_" ++ o)
    ++ ["_sa_retain_n", "_sa_release_n"]

/-- The set of expected names. -/
def expected (doubleWords : Bool) : List String := Text.NameSet.ofList (names doubleWords)

end OrderedAtomics.Export.Checklist
