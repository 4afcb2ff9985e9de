import OrderedAtomics.FetchOp
import OrderedAtomics.MemoryOrder.Exchange

/-
  The hardware cell: a word of `w` bits, and one atomic access at a time.  An access takes any
  memory ordering; one that makes no sense for it is a fault, found before the word is touched.
  On this hardware a weak compare-exchange fails only when the values differ, as a strong one.
-/
namespace OrderedAtomics

/-- An ordering that makes no sense for an access. -/
inductive Fault where
  | releaseLoad
  | acqRelLoad
  | acquireStore
  | acqRelStore
  | releaseFailure
  | acqRelFailure
  deriving DecidableEq

/-- The wording of a fault. -/
def Fault.message : Fault → String
  | .releaseLoad => "there is no such thing as a release load"
  | .acqRelLoad => "there is no such thing as an acquire-release load"
  | .acquireStore => "there is no such thing as an acquire store"
  | .acqRelStore => "there is no such thing as an acquire-release store"
  | .releaseFailure => "there is no such thing as a release failure ordering"
  | .acqRelFailure => "there is no such thing as an acquire-release failure ordering"

namespace MemoryOrder

/-- What is wrong with an ordering on a load. -/
def loadFault? : MemoryOrder → Option Fault
  | .release => some .releaseLoad
  | .acqRel => some .acqRelLoad
  | .relaxed | .acquire | .seqCst => none

/-- What is wrong with an ordering on a store. -/
def storeFault? : MemoryOrder → Option Fault
  | .acquire => some .acquireStore
  | .acqRel => some .acqRelStore
  | .relaxed | .release | .seqCst => none

/-- What is wrong with an ordering on the load of a failed comparison. -/
def failureFault? : MemoryOrder → Option Fault
  | .release => some .releaseFailure
  | .acqRel => some .acqRelFailure
  | .relaxed | .acquire | .seqCst => none

end MemoryOrder

/-- A hardware cell of `w` bits. -/
structure Cell (w : Nat) where
  bits : BitVec w
  deriving DecidableEq

/-- What an access gives back. -/
inductive Reply (α : Type) where
  /-- Nothing. -/
  | done
  /-- A value that was stored: the current one of a load, else the previous one. -/
  | value (v : α)
  /-- The previous value of an exchange that happened, or as an error the value that was
  observed in place of the expected one. -/
  | exchanged (result : Except α α)

/-- The same reply about values under another name. -/
def Reply.map {α β : Type} (f : α → β) : Reply α → Reply β
  | .done => .done
  | .value v => .value (f v)
  | .exchanged (.ok v) => .exchanged (.ok (f v))
  | .exchanged (.error v) => .exchanged (.error (f v))

namespace Cell

variable {w : Nat}

/-- Fails with the fault, if there is one. -/
def guardOrder (fault? : Option Fault) : Except Fault Unit :=
  match fault? with
  | some f => .error f
  | none => .ok ()

/-- Reads the word. -/
def load (c : Cell w) (o : MemoryOrder) : Except Fault (BitVec w) := do
  guardOrder o.loadFault?
  return c.bits

/-- Overwrites the word. -/
def store (_ : Cell w) (v : BitVec w) (o : MemoryOrder) : Except Fault (Cell w) := do
  guardOrder o.storeFault?
  return ⟨v⟩

/-- Overwrites the word and gives back what it held. -/
def swap (c : Cell w) (v : BitVec w) (_ : MemoryOrder) : Except Fault (BitVec w × Cell w) :=
  return (c.bits, ⟨v⟩)

/-- Overwrites the word if it holds `expected`, and gives back what it held. -/
def compareExchange (c : Cell w) (_ : Strength) (expected desired : BitVec w)
    (_ failure : MemoryOrder) : Except Fault (Except (BitVec w) (BitVec w) × Cell w) := do
  guardOrder failure.failureFault?
  return if c.bits = expected then (.ok c.bits, ⟨desired⟩) else (.error c.bits, c)

/-- Combines the word with an operand and gives back what it held. -/
def fetch (c : Cell w) (op : FetchOp) (v : BitVec w) (_ : MemoryOrder) :
    Except Fault (BitVec w × Cell w) :=
  return (c.bits, ⟨op.apply c.bits v⟩)

end Cell

/-- One access to a cell, with its arguments. -/
inductive Access (w : Nat) where
  | load (o : MemoryOrder)
  | store (v : BitVec w) (o : MemoryOrder)
  | swap (v : BitVec w) (o : MemoryOrder)
  | compareExchange (k : Strength) (expected desired : BitVec w) (success failure : MemoryOrder)
  | fetch (op : FetchOp) (v : BitVec w) (o : MemoryOrder)

/-- Performs one access. -/
def Cell.perform {w : Nat} (c : Cell w) : Access w → Except Fault (Reply (BitVec w) × Cell w)
  | .load o => do return (.value (← c.load o), c)
  | .store v o => do return (.done, ← c.store v o)
  | .swap v o => do
    let (previous, c') ← c.swap v o
    return (.value previous, c')
  | .compareExchange k expected desired success failure => do
    let (result, c') ← c.compareExchange k expected desired success failure
    return (.exchanged result, c')
  | .fetch op v o => do
    let (previous, c') ← c.fetch op v o
    return (.value previous, c')

/-- Performs accesses one after the other; one that faults leaves the cell as it was. -/
def Cell.run {w : Nat} (c : Cell w) : List (Access w) →
    List (Except Fault (Reply (BitVec w)) × Cell w)
  | [] => []
  | a :: rest =>
    match c.perform a with
    | .ok (reply, c') => (.ok reply, c') :: c'.run rest
    | .error f => (.error f, c) :: c.run rest

end OrderedAtomics
