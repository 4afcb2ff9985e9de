import OrderedAtomics.Storage.Retry

/-
  A slot that holds a storage or nothing, and the steps a user takes on it.  A step that is refused
  leaves the slot as it was, except that what another writer stored during a failed retry loop
  stays.
-/
namespace OrderedAtomics

/-- A place for a storage. -/
abbrev Slot (α : Type) [Codec α] := Option (Storage α)

/-- One step on a slot, with its arguments. -/
inductive Step (α : Type) where
  /-- Fills the slot with new storage, in place of any old one. -/
  | prepare (v : α)
  /-- Empties the slot. -/
  | dispose
  /-- Fences; needs no storage. -/
  | fence (o : FenceOrdering)
  /-- Shows the storage. -/
  | inspect
  /-- Performs one operation. -/
  | operate (op : Operation α)
  /-- Runs a retry loop beside a scripted writer. -/
  | update (script : List (Turn α)) (o : ExchangeOrdering)

/-- What a step that is not refused gives back. -/
inductive Answer (α : Type) where
  | reply (r : Reply α)
  | updated (result : Except α α) (seen : List α)
  | shown (d : Diagnostic)

/-- Why a step is refused. -/
inductive Refusal where
  /-- The slot is empty and the step needs a storage. -/
  | noStorage
  /-- The cell of the type lacks the operation. -/
  | unsupported
  /-- The cell of the type needs a lock. -/
  | notLockFree
  /-- The function of a retry loop failed. -/
  | interrupted
  /-- The cell refused the ordering. -/
  | fault (f : Fault)
  deriving DecidableEq

/-- The wording when storage is asked for a type whose cell needs a lock. -/
def notLockFreeMessage (typeName : String) : String :=
  "atomic storage for `" ++ typeName ++ "` is not lock-free on this target"

namespace Operation

/-- Whether the cell of the type has what the operation needs.  To be handed an operation it takes
all that might be handed. -/
def supported {α : Type} [Codec α] : Operation α → Bool
  | .fetch op _ _ => Codec.supports α op
  | .fetchModify _ _ _ => Codec.supportsAll α
  | .fetchBitwise _ _ _ => Codec.supportsBitwise α
  | .load _ | .store _ _ | .exchange _ _ | .compareExchange _ _ _ _ => true

end Operation

namespace Slot

variable {α : Type} [Codec α] [Inspect α]

/-- What one step gives back, and the slot it leaves. -/
def step (slot : Slot α) : Step α → Except Refusal (Answer α) × Slot α
  | .prepare v =>
    match Storage.prepare? v with
    | some s => (.ok (.reply .done), some s)
    | none => (.error .notLockFree, slot)
  | .fence _ => (.ok (.reply .done), slot)
  | .dispose =>
    match slot with
    | none => (.error .noStorage, slot)
    | some s => (.ok (.reply (.value s.dispose)), none)
  | .inspect =>
    match slot with
    | none => (.error .noStorage, slot)
    | some s => (.ok (.shown (Inspect.inspect s)), slot)
  | .operate op =>
    match slot with
    | none => (.error .noStorage, slot)
    | some s =>
      if op.supported then
        match s.perform op with
        | .ok (reply, s') => (.ok (.reply reply), some s')
        | .error f => (.error (.fault f), slot)
      else (.error .unsupported, slot)
  | .update script o =>
    match slot with
    | none => (.error .noStorage, slot)
    | some s =>
      match s.retry o script with
      | .error f => (.error (.fault f), slot)
      | .ok ⟨.panicked, _, s'⟩ => (.error .interrupted, some s')
      | .ok ⟨.landed previous, seen, s'⟩ => (.ok (.updated (.ok previous) seen), some s')
      | .ok ⟨.declined current, seen, s'⟩ => (.ok (.updated (.error current) seen), some s')

/-- The value in the slot. -/
def value? (slot : Slot α) : Option α := slot.map Storage.dispose

end Slot

end OrderedAtomics
