import OrderedAtomics.Cell
import OrderedAtomics.Value.Inspect

/-
  Storage for one value of a type: a cell that holds the encoded value.  Every operation takes an
  ordering of its own family, encodes its arguments, makes one access to the cell and decodes what
  comes back.  The lemmas say what each operation does to the stored value; none of them faults.
-/
namespace OrderedAtomics

/-- A memory location that holds a value of type `α`. -/
structure Storage (α : Type) [Codec α] where
  cell : Cell (Codec.width α)

namespace Storage

variable {α : Type} [Codec α]

/-- Storage that holds `v`; there is none for a type whose cell needs a lock. -/
def prepare? (v : α) : Option (Storage α) :=
  if Codec.lockFree α then some ⟨⟨Codec.encode v⟩⟩ else none

/-- The value that is left when the storage is given up. -/
def dispose (s : Storage α) : α := Codec.decode s.cell.bits

/-- Reads the value. -/
def load (s : Storage α) (o : LoadOrdering) : Except Fault α := do
  return Codec.decode (← s.cell.load o.toMemoryOrder)

/-- Overwrites the value. -/
def store (s : Storage α) (v : α) (o : StoreOrdering) : Except Fault (Storage α) := do
  return ⟨← s.cell.store (Codec.encode v) o.toMemoryOrder⟩

/-- Overwrites the value and gives back the previous one. -/
def exchange (s : Storage α) (v : α) (o : UpdateOrdering) : Except Fault (α × Storage α) := do
  let (previous, cell) ← s.cell.swap (Codec.encode v) o.toMemoryOrder
  return (Codec.decode previous, ⟨cell⟩)

/-- Overwrites the value if it is the expected one.  Gives back the previous value, or as an
error the value that was observed instead. -/
def compareExchange (s : Storage α) (k : Strength) (expected desired : α)
    (o : ExchangeOrdering) : Except Fault (Except α α × Storage α) := do
  let (result, cell) ← s.cell.compareExchange k (Codec.encode expected) (Codec.encode desired)
    o.success.toMemoryOrder o.failure.toMemoryOrder
  return (match result with
    | .ok previous => .ok (Codec.decode previous)
    | .error observed => .error (Codec.decode observed), ⟨cell⟩)

/-- The method named after an operation: combines the value with an operand, both as they are
stored, and gives back the previous value. -/
def fetch (s : Storage α) (op : FetchOp) (operand : α) (o : UpdateOrdering) :
    Except Fault (α × Storage α) := do
  let (previous, cell) ← s.cell.fetch op (Codec.encode operand) o.toMemoryOrder
  return (Codec.decode previous, ⟨cell⟩)

/-- Adds an operand; the sum wraps. -/
def fetchAdd (s : Storage α) : α → UpdateOrdering → Except Fault (α × Storage α) := s.fetch .add

/-- Subtracts an operand; the difference wraps. -/
def fetchSub (s : Storage α) : α → UpdateOrdering → Except Fault (α × Storage α) := s.fetch .sub

/-- Sets the bits of an operand. -/
def fetchOr (s : Storage α) : α → UpdateOrdering → Except Fault (α × Storage α) := s.fetch .or

/-- Flips the bits of an operand. -/
def fetchXor (s : Storage α) : α → UpdateOrdering → Except Fault (α × Storage α) := s.fetch .xor

/-- Clears the bits that an operand lacks. -/
def fetchAnd (s : Storage α) : α → UpdateOrdering → Except Fault (α × Storage α) := s.fetch .and

/-- The method that is handed a bitwise operation. -/
def fetchBitwise (s : Storage α) (op : BitwiseOp) (operand : α) (o : UpdateOrdering) :
    Except Fault (α × Storage α) :=
  match op with
  | .or => s.fetchOr operand o
  | .xor => s.fetchXor operand o
  | .and => s.fetchAnd operand o

/-- The method that is handed any operation. -/
def fetchModify (s : Storage α) (op : FetchOp) (operand : α) (o : UpdateOrdering) :
    Except Fault (α × Storage α) :=
  match op with
  | .add => s.fetchAdd operand o
  | .sub => s.fetchSub operand o
  | .or => s.fetchOr operand o
  | .xor => s.fetchXor operand o
  | .and => s.fetchAnd operand o

/-- The storage that holds `v`, whatever its cell is like. -/
def holding (v : α) : Storage α := ⟨⟨Codec.encode v⟩⟩

@[simp] theorem dispose_holding (v : α) : (holding v).dispose = v := by
  simp [holding, dispose]

@[simp] theorem holding_dispose (s : Storage α) : holding s.dispose = s := by
  simp [holding, dispose]

@[simp] theorem load_eq (s : Storage α) (o : LoadOrdering) : s.load o = .ok s.dispose := by
  cases o <;> rfl

@[simp] theorem store_eq (s : Storage α) (v : α) (o : StoreOrdering) :
    s.store v o = .ok (holding v) := by
  cases o <;> rfl

@[simp] theorem exchange_eq (s : Storage α) (v : α) (o : UpdateOrdering) :
    s.exchange v o = .ok (s.dispose, holding v) := rfl

theorem compareExchange_eq (s : Storage α) (k : Strength) (expected desired : α)
    (o : ExchangeOrdering) : s.compareExchange k expected desired o =
      .ok (if s.dispose = expected then (.ok s.dispose, holding desired)
        else (.error s.dispose, s)) := by
  have h : s.cell.bits = Codec.encode expected ↔ s.dispose = expected := by
    constructor
    · intro h
      simp [dispose, h]
    · intro h
      simp [← h, dispose]
  obtain ⟨success, failure, _⟩ := o
  by_cases e : s.dispose = expected
  · subst e
    cases failure <;> simp [compareExchange, Cell.compareExchange, LoadOrdering.toMemoryOrder,
      MemoryOrder.failureFault?, Cell.guardOrder, bind, Except.bind, pure, Except.pure, dispose,
      holding]
  · cases failure <;> simp [compareExchange, Cell.compareExchange, LoadOrdering.toMemoryOrder,
      MemoryOrder.failureFault?, Cell.guardOrder, h, e, bind, Except.bind, pure, Except.pure] <;>
      rfl

theorem fetch_eq (s : Storage α) (op : FetchOp) (operand : α) (o : UpdateOrdering) :
    s.fetch op operand o = .ok (s.dispose,
      holding (Codec.decode (op.apply (Codec.encode s.dispose) (Codec.encode operand)))) := by
  simp only [fetch, Cell.fetch, dispose, holding, Codec.encode_decode]
  rfl

theorem fetchModify_eq (s : Storage α) (op : FetchOp) (operand : α) (o : UpdateOrdering) :
    s.fetchModify op operand o = s.fetch op operand o := by
  cases op <;> rfl

theorem fetchBitwise_eq (s : Storage α) (op : BitwiseOp) (operand : α) (o : UpdateOrdering) :
    s.fetchBitwise op operand o = s.fetch op.toFetchOp operand o := by
  cases op <;> rfl

/-- What is shown of a storage: the value it holds. -/
instance [Inspect α] : Inspect (Storage α) where
  inspect s := .wrapper "AtomicStorage" (Inspect.inspect s.dispose)

end Storage

/-- One operation on a storage, with its arguments. -/
inductive Operation (α : Type) where
  | load (o : LoadOrdering)
  | store (v : α) (o : StoreOrdering)
  | exchange (v : α) (o : UpdateOrdering)
  | compareExchange (k : Strength) (expected desired : α) (o : ExchangeOrdering)
  | fetch (op : FetchOp) (operand : α) (o : UpdateOrdering)
  | fetchModify (op : FetchOp) (operand : α) (o : UpdateOrdering)
  | fetchBitwise (op : BitwiseOp) (operand : α) (o : UpdateOrdering)

/-- Performs one operation. -/
def Storage.perform {α : Type} [Codec α] (s : Storage α) :
    Operation α → Except Fault (Reply α × Storage α)
  | .load o => do return (.value (← s.load o), s)
  | .store v o => do return (.done, ← s.store v o)
  | .exchange v o => do
    let (previous, s') ← s.exchange v o
    return (.value previous, s')
  | .compareExchange k expected desired o => do
    let (result, s') ← s.compareExchange k expected desired o
    return (.exchanged result, s')
  | .fetch op operand o => do
    let (previous, s') ← s.fetch op operand o
    return (.value previous, s')
  | .fetchModify op operand o => do
    let (previous, s') ← s.fetchModify op operand o
    return (.value previous, s')
  | .fetchBitwise op operand o => do
    let (previous, s') ← s.fetchBitwise op operand o
    return (.value previous, s')

/-- The access that an operation hands to the cell: its arguments as they are stored, and its
ordering among all orderings. -/
def Operation.access {α : Type} [Codec α] : Operation α → Access (Codec.width α)
  | .load o => .load o.toMemoryOrder
  | .store v o => .store (Codec.encode v) o.toMemoryOrder
  | .exchange v o => .swap (Codec.encode v) o.toMemoryOrder
  | .compareExchange k expected desired o => .compareExchange k (Codec.encode expected)
    (Codec.encode desired) o.success.toMemoryOrder o.failure.toMemoryOrder
  | .fetch op operand o | .fetchModify op operand o =>
    .fetch op (Codec.encode operand) o.toMemoryOrder
  | .fetchBitwise op operand o => .fetch op.toFetchOp (Codec.encode operand) o.toMemoryOrder

/-- An operation is its access, with what the cell gives back decoded. -/
theorem Storage.perform_eq_access {α : Type} [Codec α] (s : Storage α) (op : Operation α) :
    s.perform op = (s.cell.perform op.access).map fun r => (r.1.map Codec.decode, ⟨r.2⟩) := by
  cases op with
  | load o =>
    simp only [perform, load, Operation.access, Cell.perform]
    cases s.cell.load o.toMemoryOrder <;> rfl
  | store v o =>
    simp only [perform, store, Operation.access, Cell.perform]
    cases s.cell.store (Codec.encode v) o.toMemoryOrder <;> rfl
  | exchange v o => rfl
  | compareExchange k expected desired o =>
    simp only [perform, compareExchange, Operation.access, Cell.perform]
    cases s.cell.compareExchange k (Codec.encode expected) (Codec.encode desired)
      o.success.toMemoryOrder o.failure.toMemoryOrder with
    | error f => rfl
    | ok r =>
      obtain ⟨previous | observed, cell⟩ := r
      · rfl
      · rfl
  | fetch op operand o => rfl
  | fetchModify op operand o =>
    rw [perform, fetchModify_eq]
    rfl
  | fetchBitwise op operand o =>
    rw [perform, fetchBitwise_eq]
    rfl

end OrderedAtomics
