/-
  Memory orderings.  `MemoryOrder` is what a hardware cell takes; each family of operations has
  its own type that holds only the orderings the family may use, and an embedding into
  `MemoryOrder`.  Names and labels are given once, for `MemoryOrder`.
-/
namespace OrderedAtomics

/-- An ordering constraint on one access, as a hardware cell takes it. -/
inductive MemoryOrder where
  | relaxed
  | release
  | acquire
  | acqRel
  | seqCst
  deriving DecidableEq

namespace MemoryOrder

/-- Every ordering. -/
def all : List MemoryOrder := [.relaxed, .release, .acquire, .acqRel, .seqCst]

/-- The name used inside exported symbols. -/
def name : MemoryOrder → String
  | .relaxed => "relaxed"
  | .release => "release"
  | .acquire => "acquire"
  | .acqRel => "acq_rel"
  | .seqCst => "seq_cst"

/-- The name shown in diagnostics. -/
def label : MemoryOrder → String
  | .relaxed => "Relaxed"
  | .release => "Release"
  | .acquire => "Acquire"
  | .acqRel => "AcqRel"
  | .seqCst => "SeqCst"

/-- The ordering with the given label. -/
def ofLabel? (s : String) : Option MemoryOrder := all.find? fun o => o.label == s

end MemoryOrder

/-- Orderings a load may use. -/
inductive LoadOrdering where
  | relaxed
  | acquire
  | seqCst
  deriving DecidableEq

namespace LoadOrdering

/-- All load orderings, weakest first. -/
def all : List LoadOrdering := [.relaxed, .acquire, .seqCst]

/-- The ordering handed to the cell. -/
def toMemoryOrder : LoadOrdering → MemoryOrder
  | .relaxed => .relaxed
  | .acquire => .acquire
  | .seqCst => .seqCst

/-- Place in the order from weakest to strongest. -/
def rank : LoadOrdering → Nat
  | .relaxed => 0
  | .acquire => 1
  | .seqCst => 2

/-- The name used inside exported symbols. -/
def name (o : LoadOrdering) : String := o.toMemoryOrder.name

/-- The name shown in diagnostics. -/
def label (o : LoadOrdering) : String := o.toMemoryOrder.label

/-- The load ordering with the given name. -/
def ofName? (s : String) : Option LoadOrdering := all.find? fun o => o.name == s

theorem mem_all (o : LoadOrdering) : o ∈ all := by cases o <;> decide

end LoadOrdering

/-- Orderings a store may use. -/
inductive StoreOrdering where
  | relaxed
  | release
  | seqCst
  deriving DecidableEq

namespace StoreOrdering

/-- All store orderings, weakest first. -/
def all : List StoreOrdering := [.relaxed, .release, .seqCst]

/-- The ordering handed to the cell. -/
def toMemoryOrder : StoreOrdering → MemoryOrder
  | .relaxed => .relaxed
  | .release => .release
  | .seqCst => .seqCst

/-- The name used inside exported symbols. -/
def name (o : StoreOrdering) : String := o.toMemoryOrder.name

/-- The name shown in diagnostics. -/
def label (o : StoreOrdering) : String := o.toMemoryOrder.label

/-- The store ordering with the given name. -/
def ofName? (s : String) : Option StoreOrdering := all.find? fun o => o.name == s

theorem mem_all (o : StoreOrdering) : o ∈ all := by cases o <;> decide

end StoreOrdering

/-- Orderings a read-modify-write may use: all of them. -/
inductive UpdateOrdering where
  | relaxed
  | acquire
  | release
  | acqRel
  | seqCst
  deriving DecidableEq

namespace UpdateOrdering

/-- All update orderings, weakest first. -/
def all : List UpdateOrdering := [.relaxed, .acquire, .release, .acqRel, .seqCst]

/-- The ordering handed to the cell. -/
def toMemoryOrder : UpdateOrdering → MemoryOrder
  | .relaxed => .relaxed
  | .acquire => .acquire
  | .release => .release
  | .acqRel => .acqRel
  | .seqCst => .seqCst

/-- The ordering of the read half alone. -/
def loadHalf : UpdateOrdering → LoadOrdering
  | .relaxed => .relaxed
  | .acquire => .acquire
  | .release => .relaxed
  | .acqRel => .acquire
  | .seqCst => .seqCst

/-- The name used inside exported symbols. -/
def name (o : UpdateOrdering) : String := o.toMemoryOrder.name

/-- The name shown in diagnostics. -/
def label (o : UpdateOrdering) : String := o.toMemoryOrder.label

/-- The update ordering with the given name. -/
def ofName? (s : String) : Option UpdateOrdering := all.find? fun o => o.name == s

theorem mem_all (o : UpdateOrdering) : o ∈ all := by cases o <;> decide

end UpdateOrdering

/-- Orderings a standalone fence may use; a relaxed fence would have no effect. -/
inductive FenceOrdering where
  | acquire
  | release
  | acqRel
  | seqCst
  deriving DecidableEq

namespace FenceOrdering

/-- All fence orderings, weakest first. -/
def all : List FenceOrdering := [.acquire, .release, .acqRel, .seqCst]

/-- The ordering handed to the hardware. -/
def toMemoryOrder : FenceOrdering → MemoryOrder
  | .acquire => .acquire
  | .release => .release
  | .acqRel => .acqRel
  | .seqCst => .seqCst

/-- The name used inside exported symbols. -/
def name (o : FenceOrdering) : String := o.toMemoryOrder.name

/-- The name shown in diagnostics. -/
def label (o : FenceOrdering) : String := o.toMemoryOrder.label

/-- The fence ordering with the given name. -/
def ofName? (s : String) : Option FenceOrdering := all.find? fun o => o.name == s

theorem mem_all (o : FenceOrdering) : o ∈ all := by cases o <;> decide

end FenceOrdering

end OrderedAtomics
