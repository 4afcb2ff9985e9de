import OrderedAtomics.Binding.Error

/-
  Resolving two entry points by name from a module that is already loaded.  The loader is taken as
  given: which modules are loaded, and what each of them and the process as a whole exports.
-/
namespace OrderedAtomics.Binding

/-- A function on a reference count, found at an address: what it makes of the count when it is
called with `n`. -/
structure CountFunction where
  address : Nat
  effect : Int → UInt32 → Int

/-- What a module exports. -/
abbrev Exports := String → Option CountFunction

/-- The modules loaded in a process, and what the process exports as a whole. -/
structure Loader where
  resident? : String → Option Exports
  globalExports : Exports

/-- The two resolved entry points. -/
structure Bindings where
  retain : CountFunction
  release : CountFunction

namespace Bindings

/-- Whether the two entry points are different functions. -/
def distinct (t : Bindings) : Bool := t.retain.address != t.release.address

/-- Whether two tables hold the same functions. -/
def same (t u : Bindings) : Bool :=
  t.retain.address == u.retain.address && t.release.address == u.release.address

/-- Addresses are not shown. -/
instance : Inspect Bindings where
  inspect _ := .ofFields "SymbolTable" [("retain_n", .atom "0xADDR"), ("release_n", .atom "0xADDR")]

end Bindings

/-- Where to look: a module, or the whole process, and the names of the two entry points. -/
structure BindingRequest where
  moduleName? : Option String
  retainSymbol : String
  releaseSymbol : String
  deriving DecidableEq

namespace BindingRequest

/-- Where to look unless something else is configured. -/
def configured : BindingRequest := ⟨none, "rt_retain_n", "rt_release_n"⟩

instance : Inspect BindingRequest where
  inspect m :=
    let shown : Diagnostic :=
      match m.moduleName? with
      | none => .atom "None"
      | some name => .wrapper "Some" (.atom (Text.quoted name))
    .ofFields "ResidentModule"
      [("module", shown), ("retain_symbol", .atom (Text.quoted m.retainSymbol)),
       ("release_symbol", .atom (Text.quoted m.releaseSymbol))]

end BindingRequest

namespace Loader

/-- Refuses a name with a NUL, which the loader would take to end there. -/
def checkName (name : String) : Except BindingError Unit :=
  if '\x00' ∈ name.toList then .error (.invalidName name) else .ok ()

/-- The exports of a module, or of the whole process. -/
def exportsOf (l : Loader) : Option String → Except BindingError Exports
  | none => .ok l.globalExports
  | some name => do
    checkName name
    match l.resident? name with
    | some exports => .ok exports
    | none => .error (.notResident name)

/-- The function exported under a name. -/
def functionNamed (exports : Exports) (name : String) : Except BindingError CountFunction := do
  checkName name
  match exports name with
  | some f => .ok f
  | none => .error (.missingSymbol name)

/-- Resolves both entry points; the first thing that is wrong is the error. -/
def resolve (l : Loader) (m : BindingRequest) : Except BindingError Bindings := do
  let exports ← l.exportsOf m.moduleName?
  let retain ← functionNamed exports m.retainSymbol
  let release ← functionNamed exports m.releaseSymbol
  return ⟨retain, release⟩

end Loader

end OrderedAtomics.Binding
