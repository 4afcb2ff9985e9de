import OrderedAtomics.Binding.Gate

/-
  One gate used by many threads at once.  At most one thread runs the source; the others wait until
  it has given a table or panicked, and then one of them may take over.  An observer reads the
  table and the mark one after the other.  Each step below is one access to what the threads share.
  A run of the source gives a table or, where there is none, panics.
-/
namespace OrderedAtomics.Binding

/-- Where a caller is in its current use of the gate. -/
inductive CallerPlace where
  /-- About to look for the table. -/
  | start
  /-- Chosen to run the source, about to set the mark. -/
  | chosen
  /-- About to run the source. -/
  | marked
  /-- Running the source, for the `i`-th time. -/
  | running (i : Nat)

/-- A thread that uses the gate: how often it still will, where it is, and what its finished uses
came to, the latest first; `none` stands for a panic. -/
structure Caller where
  remaining : Nat
  place : CallerPlace := .start
  results : List (Option Bindings) := []

/-- A thread that watches the gate: whether it has just found no table, and the stages it has
read, the latest first. -/
structure Observer where
  sawNoTable : Bool := false
  stages : List Stage := []

/-- What the threads share, and the threads. -/
structure Race where
  gate : Gate := .closed
  /-- The caller that runs the source. -/
  initializer? : Option Nat := none
  /-- How often the source was run. -/
  calls : Nat := 0
  callers : List Caller
  observers : List Observer := []

/-- Whose turn it is. -/
inductive RaceTurn where
  | caller (i : Nat)
  | observer (i : Nat)

namespace Race

/-- The caller whose current use came to `result`. -/
def finishUse (c : Caller) (result : Option Bindings) : Caller :=
  ⟨c.remaining - 1, .start, result :: c.results⟩

/-- One step of caller `i`, which is `c`. -/
def callerStep (attempts : Nat → Option Bindings) (r : Race) (i : Nat) (c : Caller) : Race :=
  match c.place with
  | .start =>
    if c.remaining = 0 then r
    else
      match r.gate.table? with
      | some t => { r with callers := r.callers.set i (finishUse c (some t)) }
      | none =>
        match r.initializer? with
        | some _ => r
        | none =>
          { r with
            initializer? := some i
            callers := r.callers.set i { c with place := .chosen } }
  | .chosen =>
    { r with
      gate := { r.gate with begun := true }
      callers := r.callers.set i { c with place := .marked } }
  | .marked =>
    { r with
      calls := r.calls + 1
      callers := r.callers.set i { c with place := .running r.calls } }
  | .running k =>
    match attempts k with
    | some t =>
      { r with
        gate := { r.gate with table? := some t }
        initializer? := none
        callers := r.callers.set i (finishUse c (some t)) }
    | none =>
      { r with
        initializer? := none
        callers := r.callers.set i (finishUse c none) }

/-- One step of observer `i`, which is `o`. -/
def observerStep (r : Race) (i : Nat) (o : Observer) : Race :=
  if o.sawNoTable then
    let stage := if r.gate.begun then .initializing else .uninitialized
    { r with observers := r.observers.set i ⟨false, stage :: o.stages⟩ }
  else if r.gate.table?.isSome then
    { r with observers := r.observers.set i ⟨false, .ready :: o.stages⟩ }
  else { r with observers := r.observers.set i ⟨true, o.stages⟩ }

/-- One step of the thread whose turn it is; a thread that does not exist does nothing. -/
def step (attempts : Nat → Option Bindings) (r : Race) : RaceTurn → Race
  | .caller i =>
    match r.callers[i]? with
    | some c => r.callerStep attempts i c
    | none => r
  | .observer i =>
    match r.observers[i]? with
    | some o => r.observerStep i o
    | none => r

/-- The race after a schedule. -/
def run (attempts : Nat → Option Bindings) (r : Race) (schedule : List RaceTurn) : Race :=
  schedule.foldl (step attempts) r

/-- Threads that each use a fresh gate once. -/
def ofThreads (n : Nat) : Race := { callers := List.replicate n { remaining := 1 } }

/-- A schedule that lets `n` threads start together and gives each five turns, which is enough when
the first run of the source gives a table. -/
def rounds (n : Nat) : List RaceTurn :=
  (List.replicate 5 ((List.range n).map RaceTurn.caller)).flatten

/-- The tables that finished uses came to. -/
def tables (r : Race) : List Bindings := r.callers.flatMap fun c => c.results.filterMap id

/-- Whether all finished uses came to one table. -/
def sameTable (r : Race) : Bool :=
  match r.tables with
  | [] => true
  | t :: rest => rest.all t.same

end Race

end OrderedAtomics.Binding
