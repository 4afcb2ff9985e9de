import OrderedAtomics.Export.Type
import OrderedAtomics.MemoryOrder.Exchange

/-
  The functions exported to other languages: one for each type, operation and ordering, besides the
  fences and the two reference-count entry points.  The name of a function spells what it does.
-/
namespace OrderedAtomics.Export

/-- What a storage function does. -/
inductive Entry where
  | prepare
  | dispose
  | load (o : LoadOrdering)
  | store (o : StoreOrdering)
  | exchange (o : UpdateOrdering)
  | compareExchange (k : Strength) (o : ExchangeOrdering)
  | fetch (op : FetchOp) (o : UpdateOrdering)
  deriving DecidableEq

namespace Entry

/-- The middle part of the exported name. -/
def name : Entry → String
  | .prepare => "prepare"
  | .dispose => "dispose"
  | .load o => "load_" ++ o.name
  | .store o => "store_" ++ o.name
  | .exchange o => "exchange_" ++ o.name
  | .compareExchange k o => "cmpxchg_" ++ k.name ++ "_" ++ o.name
  | .fetch op o => "fetch_" ++ op.name ++ "_" ++ o.name

/-- The number of values the function takes besides the storage. -/
def arity : Entry → Nat
  | .dispose | .load _ => 0
  | .prepare | .store _ | .exchange _ | .fetch _ _ => 1
  | .compareExchange _ _ => 2

/-- The functions of a type: a fetch function only for the operations its cell has. -/
def all (t : ExportedType) : List Entry :=
  [.prepare, .dispose] ++ LoadOrdering.all.map .load ++ StoreOrdering.all.map .store
    ++ UpdateOrdering.all.map .exchange
    ++ Strength.all.flatMap (fun k => ExchangeOrdering.all.map (.compareExchange k))
    ++ (Codec.fetches t.Carrier).flatMap (fun op => UpdateOrdering.all.map (.fetch op))

end Entry

/-- An exported function. -/
inductive Symbol where
  | storage (e : Entry) (t : ExportedType)
  | threadFence (o : FenceOrdering)
  | retain
  | release
  deriving DecidableEq

namespace Symbol

/-- The exported name. -/
def name : Symbol → String
  | .storage e t => "_sa_" ++ e.name ++ "_" ++ t.name
  | .threadFence o => "_sa_thread_fence_" ++ o.name
  | .retain => "_sa_retain_n"
  | .release => "_sa_release_n"

theorem name_storage (e : Entry) (t : ExportedType) :
    (storage e t).name = "_sa_" ++ e.name ++ "_" ++ t.name := rfl

/-- Every exported function on a target with 64-bit atomics, with those for double words only where
the hardware has them.  A target without 64-bit atomics has no double words either, and exports
nothing for the two 64-bit integer types. -/
def surface (doubleWords : Bool) : List Symbol :=
  (ExportedType.all doubleWords).flatMap (fun t => (Entry.all t).map fun e => .storage e t)
    ++ FenceOrdering.all.map .threadFence ++ [.retain, .release]

/-- The storage function of a type with the given name. -/
def entryNamed (t : ExportedType) (s : String) : Option Entry :=
  (Entry.all t).find? fun e => (Symbol.storage e t).name == s

/-- The fence with the given name. -/
def fenceNamed (s : String) : Option FenceOrdering :=
  FenceOrdering.all.find? fun o => (Symbol.threadFence o).name == s

end Symbol

end OrderedAtomics.Export
