import OrderedAtomics.Binding.Loader

/-
  The one-time gate in front of the entry points.  The first use runs a source; once the source has
  given a table the gate holds it for good.  A source that fails ends the process; one that panics
  leaves the gate without a table but marked as begun, and the next use tries again.
-/
namespace OrderedAtomics.Binding

/-- How far a gate has come. -/
inductive Stage where
  | uninitialized
  | initializing
  | ready
  deriving DecidableEq

/-- The name of a stage. -/
def Stage.name : Stage → String
  | .uninitialized => "Uninitialized"
  | .initializing => "Initializing"
  | .ready => "Ready"

/-- What one run of a source comes to. -/
inductive Attempt where
  | table (t : Bindings)
  | panic
  | failure (e : BindingError)

/-- What is reported while a gate is used. -/
inductive Event where
  /-- A scripted source was run for the `i`-th time, at this stage of its gate. -/
  | resolving (i : Nat) (inside : Stage)
  /-- A module is about to be searched. -/
  | attaching (m : BindingRequest)
  /-- The entry points are known. -/
  | resolved (t : Bindings)
  /-- They cannot be. -/
  | unresolved (e : BindingError)

/-- What produces the table: the `i`-th run, at a stage of the gate, with what it reports. -/
abbrev Source := Nat → Stage → List Event × Attempt

/-- The source that searches a loaded module, the same at each run. -/
def Loader.source (l : Loader) (m : BindingRequest) : Source := fun _ _ =>
  ([.attaching m],
    match l.resolve m with
    | .ok t => .table t
    | .error e => .failure e)

/-- The source that follows a script. -/
def scripted (attempts : Nat → Attempt) : Source := fun i inside =>
  ([.resolving i inside], attempts i)

/-- A gate: the table once there is one, and whether a run of the source was ever begun. -/
structure Gate where
  table? : Option Bindings
  begun : Bool

namespace Gate

/-- A gate nobody has used. -/
def closed : Gate := ⟨none, false⟩

/-- How far the gate has come. -/
def stage (g : Gate) : Stage :=
  if g.table?.isSome then .ready else if g.begun then .initializing else .uninitialized

/-- A gate shown with the name of its source; the mark is not shown. -/
def inspect (g : Gate) (sourceName : String) : Diagnostic :=
  let shown : Diagnostic :=
    match g.table? with
    | none => .atom "None"
    | some t => .wrapper "Some" (Inspect.inspect t)
  .ofFields "LazySymbols" [("source", .atom sourceName), ("table", shown)] false

end Gate

/-- What a use of a gate comes to. -/
inductive Entered where
  /-- It gets the table. -/
  | table (t : Bindings)
  /-- The `i`-th run of the source panicked. -/
  | panicked (i : Nat)
  /-- The process ends. -/
  | aborted (e : BindingError)

/-- A gate in use: how often its source was run, and what was reported, the latest first. -/
structure GateLog where
  gate : Gate
  calls : Nat
  events : List Event

namespace GateLog

/-- A gate nobody has used. -/
def fresh : GateLog := ⟨.closed, 0, []⟩

/-- One use of the gate. -/
def enter (source : Source) (g : GateLog) : Entered × GateLog :=
  match g.gate.table? with
  | some t => (.table t, g)
  | none =>
    let begun : Gate := ⟨none, true⟩
    let (reported, attempt) := source g.calls begun.stage
    let events := reported.reverse ++ g.events
    match attempt with
    | .table t => (.table t, ⟨⟨some t, true⟩, g.calls + 1, .resolved t :: events⟩)
    | .panic => (.panicked g.calls, ⟨begun, g.calls + 1, events⟩)
    | .failure e => (.aborted e, ⟨begun, g.calls + 1, .unresolved e :: events⟩)

end GateLog

/-- What is written when a process ends because its entry points cannot be resolved. -/
def abortMessage (e : BindingError) : String :=
  "atomics-shims: cannot resolve reference-count entry points: " ++ e.message ++ "\n"

end OrderedAtomics.Binding
