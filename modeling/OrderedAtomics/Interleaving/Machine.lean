import OrderedAtomics.Storage

/-
  Threads that share one storage.  A thread makes its calls in order; a call on the storage is one
  atomic step, and a retry loop is a load followed by rounds of a call of its function and a weak
  compare-exchange, each a step of its own.  A schedule says whose turn it is; a thread that has
  no call left does nothing.
-/
namespace OrderedAtomics

/-- One call a thread makes. -/
inductive Call (α : Type) where
  /-- One operation. -/
  | operate (op : Operation α)
  /-- A retry loop that applies a function. -/
  | update (f : α → Option α) (o : ExchangeOrdering)

/-- Where a thread is in its current call. -/
inductive Place (α : Type) where
  /-- At its start. -/
  | start
  /-- In a retry loop that last read `current`. -/
  | read (current : α)
  /-- In a retry loop whose function turned `current` into `next`. -/
  | computed (current next : α)

/-- What a finished call gave back. -/
inductive Return (α : Type) where
  | reply (r : Reply α)
  | updated (result : Except α α)

/-- Whether a call did what it was made for: an exchange that may fail happened. -/
def Return.succeeded {α : Type} : Return α → Bool
  | .reply (.exchanged (.error _)) => false
  | .updated (.error _) => false
  | _ => true

/-- A thread: the calls it has yet to finish, where it is in the first of them, and what the
finished ones gave back, the latest first. -/
structure Thread (α : Type) where
  pending : List (Call α)
  place : Place α := .start
  returned : List (Return α) := []

namespace Thread

variable {α : Type} [Codec α]

/-- The thread after its current call gave back `r`. -/
def finish (t : Thread α) (rest : List (Call α)) (r : Return α) : Thread α :=
  ⟨rest, .start, r :: t.returned⟩

/-- One step of a thread on the shared storage. -/
def step (t : Thread α) (s : Storage α) : Except Fault (Thread α × Storage α) :=
  match t.pending with
  | [] => .ok (t, s)
  | .operate op :: rest => do
    let (r, s') ← s.perform op
    return (t.finish rest (.reply r), s')
  | .update f o :: rest =>
    match t.place with
    | .start => do return ({ t with place := .read (← s.load o.failure) }, s)
    | .read current =>
      match f current with
      | none => .ok (t.finish rest (.updated (.error current)), s)
      | some next => .ok ({ t with place := .computed current next }, s)
    | .computed current next => do
      match ← s.compareExchange .weak current next o with
      | (.ok previous, s') => return (t.finish rest (.updated (.ok previous)), s')
      | (.error observed, s') => return ({ t with place := .read observed }, s')

end Thread

/-- Threads and the storage they share. -/
structure Machine (α : Type) [Codec α] where
  storage : Storage α
  threads : List (Thread α)

namespace Machine

variable {α : Type} [Codec α]

/-- Threads about to make their calls on a storage. -/
def init (s : Storage α) (programs : List (List (Call α))) : Machine α :=
  ⟨s, programs.map fun calls => { pending := calls }⟩

/-- One step of thread `i`; a thread that does not exist does nothing. -/
def step (m : Machine α) (i : Nat) : Except Fault (Machine α) :=
  match m.threads[i]? with
  | none => .ok m
  | some t => do
    let (t', s') ← t.step m.storage
    return ⟨s', m.threads.set i t'⟩

/-- The machine after a schedule. -/
def run : Machine α → List Nat → Except Fault (Machine α)
  | m, [] => .ok m
  | m, i :: schedule => do (← m.step i).run schedule

/-- Whether every thread has finished its calls. -/
def finished (m : Machine α) : Bool := m.threads.all fun t => t.pending.isEmpty

/-- What all finished calls gave back. -/
def returns (m : Machine α) : List (Return α) := m.threads.flatMap Thread.returned

/-- The schedule that lets the threads finish one after the other: alone, no call takes more than
three steps. -/
def oneByOne (m : Machine α) : List Nat :=
  m.threads.zipIdx.flatMap fun (t, i) => List.replicate (3 * t.pending.length) i

end Machine

end OrderedAtomics
