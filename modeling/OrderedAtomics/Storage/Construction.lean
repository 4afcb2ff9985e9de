import OrderedAtomics.Storage.Slot

/-
  The ways to make storage.  Besides being prepared, storage is made out of a value, and made to
  hold the default of its type.  Both go through `prepare?`, where the type is asked whether its
  cell needs a lock.  An action on a slot is a step, or fills the slot in one of these ways.
-/
namespace OrderedAtomics

namespace Storage

variable {α : Type} [Codec α]

/-- Makes a value into storage. -/
def ofValue? (v : α) : Option (Storage α) := prepare? v

/-- Makes storage for a type that has a default. -/
def default? [Inhabited α] : Option (Storage α) := prepare? default

end Storage

/-- What is done with a slot. -/
inductive Action (α : Type) where
  | step (a : Step α)
  /-- Fills the slot with what a value is made into. -/
  | convert (v : α)
  /-- Fills the slot with storage of the default. -/
  | initial [Inhabited α]

namespace Slot

variable {α : Type} [Codec α]

/-- Fills the slot with storage that was made, in place of any old one; if it could not be made, the
slot stays as it was. -/
def fill (slot : Slot α) : Option (Storage α) → Except Refusal (Answer α) × Slot α
  | some s => (.ok (.reply .done), some s)
  | none => (.error .notLockFree, slot)

variable [Inspect α]

/-- What an action gives back, and the slot it leaves. -/
def act (slot : Slot α) : Action α → Except Refusal (Answer α) × Slot α
  | .step a => slot.step a
  | .convert v => slot.fill (Storage.ofValue? v)
  | @Action.initial _ _ => slot.fill Storage.default?

/-- The answers to actions taken one after the other, each with the slot it leaves. -/
def run (slot : Slot α) : List (Action α) → List (Except Refusal (Answer α) × Slot α)
  | [] => []
  | a :: rest => slot.act a :: run (slot.act a).2 rest

/-- The slot that actions leave, taken one after the other. -/
def after (slot : Slot α) (actions : List (Action α)) : Slot α :=
  actions.foldl (fun slot a => (slot.act a).2) slot

end Slot

end OrderedAtomics
