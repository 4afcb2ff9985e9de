import OrderedAtomics.Binding.Gate

/-
  One gate in use by one caller: the caller gets the table, calls the entry points on a count, or
  looks at the gate.
-/
namespace OrderedAtomics.Binding

/-- A step that needs the table. -/
inductive Use where
  | get
  | retain (n : UInt32)
  | release (n : UInt32)

/-- One step of the caller. -/
inductive GateStep where
  | use (u : Use)
  /-- Looks at the gate. -/
  | look

/-- A gate in use, and the count its entry points are called on. -/
structure Session where
  log : GateLog
  count : Int

/-- What a step of the caller comes to. -/
inductive StepResult where
  /-- The table, for a caller that asked for it. -/
  | got (t : Bindings)
  /-- Nothing to give back. -/
  | done
  /-- The `i`-th run of the source panicked. -/
  | panicked (i : Nat)
  /-- The process ends. -/
  | aborted (e : BindingError)

namespace Session

/-- A gate nobody has used, and a count at zero. -/
def fresh : Session := ⟨.fresh, 0⟩

/-- What a use does once it has the table. -/
def apply (s : Session) (t : Bindings) : Use → StepResult × Session
  | .get => (.got t, s)
  | .retain n => (.done, { s with count := t.retain.effect s.count n })
  | .release n => (.done, { s with count := t.release.effect s.count n })

/-- One step of the caller. -/
def step (source : Source) (s : Session) : GateStep → StepResult × Session
  | .look => (.done, s)
  | .use u =>
    match s.log.enter source with
    | (.table t, log) => apply { s with log } t u
    | (.panicked i, log) => (.panicked i, { s with log })
    | (.aborted e, log) => (.aborted e, { s with log })

/-- The results of steps taken one after the other, each with the session it leaves; nothing
follows the end of the process. -/
def run (source : Source) (s : Session) : List GateStep → List (StepResult × Session)
  | [] => []
  | a :: rest =>
    match s.step source a with
    | (.aborted e, s') => [(.aborted e, s')]
    | (r, s') => (r, s') :: run source s' rest

end Session

/-! The functions of a process that reach the entry points: two of its own, and two exported to
other languages, which forward to them.  All of them share the gate of the process. -/

/-- Raises a count by `n`. -/
def retainN (n : UInt32) : Use := .retain n

/-- Lowers a count by `n`. -/
def releaseN (n : UInt32) : Use := .release n

/-- The exported form of `retainN`. -/
def foreignRetainN (n : UInt32) : Use := retainN n

/-- The exported form of `releaseN`. -/
def foreignReleaseN (n : UInt32) : Use := releaseN n

/-- The name of one of these functions. -/
inductive EntryPoint where
  | retain
  | release
  | foreignRetain
  | foreignRelease
  deriving DecidableEq

/-- What a call of an entry point asks of the gate of the process. -/
def EntryPoint.use (n : UInt32) : EntryPoint → Use
  | .retain => retainN n
  | .release => releaseN n
  | .foreignRetain => foreignRetainN n
  | .foreignRelease => foreignReleaseN n

/-- The source of the gate of a process. -/
def processSource (l : Loader) : Source := l.source .configured

end OrderedAtomics.Binding
