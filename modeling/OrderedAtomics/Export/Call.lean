import OrderedAtomics.Export.Symbol
import OrderedAtomics.Storage.Slot

/-
  Calls of the exported storage functions on one slot.  A compare-exchange takes the expected
  value by reference: when the exchange does not happen, the observed value is written there.  What
  a call hands to the cell of the storage is recorded beside what it gives back.
-/
namespace OrderedAtomics.Export

/-- What a call gives back. -/
inductive Outcome (α : Type) where
  | nothing
  | value (v : α)
  /-- Whether the exchange happened, and the value that is then behind the reference. -/
  | flag (happened : Bool) (expected : α)

namespace Outcome

variable {α : Type}

/-- What a function gives back for the reply of an operation. -/
def ofReply : Reply α → Outcome α
  | .value v => .value v
  | .done | .exchanged _ => .nothing

/-- What a compare-exchange gives back, with the expected value behind its reference. -/
def ofExchange (expected : α) : Reply α → Outcome α
  | .exchanged (.error observed) => .flag false observed
  | .exchanged (.ok _) | .done | .value _ => .flag true expected

end Outcome

/-- A call, with its arguments. -/
structure ForeignCall (α : Type) where
  entry : Entry
  arguments : List α

/-- A call that is over: what it gave back, the slot it left, and what it handed to the cell. -/
structure Called (α : Type) [Codec α] where
  outcome : Outcome α
  slot : Slot α
  accesses : List (Access (Codec.width α))

namespace ForeignCall

variable {α : Type} [Codec α]

/-- The storage in a slot. -/
def storageOf (slot : Slot α) : Except Refusal (Storage α) :=
  match slot with
  | some s => .ok s
  | none => .error .noStorage

/-- Turns a fault of the cell into a refusal. -/
def checked {β : Type} : Except Fault β → Except Refusal β
  | .ok b => .ok b
  | .error f => .error (.fault f)

/-- Performs an operation on the storage in a slot. -/
def operate (slot : Slot α) (op : Operation α) (outcome : Reply α → Outcome α) :
    Except Refusal (Called α) := do
  let s ← storageOf slot
  let (reply, s') ← checked (s.perform op)
  return ⟨outcome reply, some s', [op.access]⟩

/-- What a call comes to.  A call with too few arguments is refused.  A fetch function is handed its
operation by types that have them all, and is named after it for the others. -/
def run (slot : Slot α) (call : ForeignCall α) : Except Refusal (Called α) :=
  match call.entry, call.arguments with
  | .prepare, v :: _ =>
    match Storage.prepare? v with
    | some s => .ok ⟨.nothing, some s, []⟩
    | none => .error .notLockFree
  | .dispose, _ => do
    let s ← storageOf slot
    return ⟨.value s.dispose, none, []⟩
  | .load o, _ => operate slot (.load o) .ofReply
  | .store o, v :: _ => operate slot (.store v o) .ofReply
  | .exchange o, v :: _ => operate slot (.exchange v o) .ofReply
  | .compareExchange k o, expected :: desired :: _ =>
    operate slot (.compareExchange k expected desired o) (.ofExchange expected)
  | .fetch op o, v :: _ =>
    operate slot (if Codec.supportsAll α then .fetchModify op v o else .fetch op v o) .ofReply
  | _, _ => .error .unsupported

end ForeignCall

end OrderedAtomics.Export
