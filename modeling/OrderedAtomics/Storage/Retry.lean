import OrderedAtomics.Storage

/-
  The retry loop that applies a function to a stored value: read, compute, and compare-exchange
  weakly until the exchange happens or the function declines.  Here the loop runs beside one other
  writer that follows a script: each turn says what the writer stores while the function runs and
  what the function then does.
-/
namespace OrderedAtomics

/-- What the function of a retry loop does with the value it is given. -/
inductive Reaction (α : Type) where
  /-- It fails, and the loop with it. -/
  | panics
  /-- It proposes a new value, or declines. -/
  | returns (next? : Option α)

/-- One turn of the loop: what another writer stores meanwhile, and what the function does. -/
structure Turn (α : Type) where
  intrusion : Option α
  react : α → Reaction α

/-- How a retry loop ends. -/
inductive Ending (α : Type) where
  /-- The exchange happened; this was the previous value. -/
  | landed (previous : α)
  /-- The function declined this value. -/
  | declined (current : α)
  /-- The function failed. -/
  | panicked

/-- The end of a retry loop: how it ended, the values its function was given, in order, and the
storage it left. -/
structure Retried (α : Type) [Codec α] where
  ending : Ending α
  seen : List α
  storage : Storage α

namespace Storage

variable {α : Type} [Codec α]

/-- The storage after another writer's turn. -/
def intrude (s : Storage α) : Option α → Except Fault (Storage α)
  | some v => s.store v .relaxed
  | none => .ok s

/-- The rounds of a retry loop that holds `current` as the value last read; past the end of the
script the function declines. -/
def retryFrom (o : ExchangeOrdering) : List (Turn α) → α → Storage α → Except Fault (Retried α)
  | [], current, s => .ok ⟨.declined current, [current], s⟩
  | turn :: turns, current, s => do
    let s ← s.intrude turn.intrusion
    match turn.react current with
    | .panics => return ⟨.panicked, [current], s⟩
    | .returns none => return ⟨.declined current, [current], s⟩
    | .returns (some next) =>
      match ← s.compareExchange .weak current next o with
      | (.ok previous, s') => return ⟨.landed previous, [current], s'⟩
      | (.error observed, s') =>
        let rest ← retryFrom o turns observed s'
        return { rest with seen := current :: rest.seen }

/-- Runs the retry loop beside a scripted writer; the first read uses the failure ordering. -/
def retry (s : Storage α) (o : ExchangeOrdering) (script : List (Turn α)) :
    Except Fault (Retried α) := do
  retryFrom o script (← s.load o.failure) s

end Storage

end OrderedAtomics
