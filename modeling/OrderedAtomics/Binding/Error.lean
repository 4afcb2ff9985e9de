import OrderedAtomics.Text.Diagnostic
import OrderedAtomics.Text.Escape

/-
  Why the reference-count entry points could not be resolved, and how that is worded.
-/
namespace OrderedAtomics.Binding

/-- Why resolving failed. -/
inductive BindingError where
  /-- The module is not loaded in this process. -/
  | notResident (moduleName : String)
  /-- The module is loaded but does not export the symbol. -/
  | missingSymbol (symbol : String)
  /-- A module or symbol name contains a NUL. -/
  | invalidName (name : String)
  /-- The platform cannot look up symbols. -/
  | unsupported
  deriving DecidableEq

namespace BindingError

/-- The name of the kind of error. -/
def kind : BindingError → String
  | .notResident _ => "NotResident"
  | .missingSymbol _ => "MissingSymbol"
  | .invalidName _ => "InvalidName"
  | .unsupported => "Unsupported"

/-- The name that the error is about. -/
def subject? : BindingError → Option String
  | .notResident m => some m
  | .missingSymbol s => some s
  | .invalidName n => some n
  | .unsupported => none

/-- The error of a kind about a name. -/
def ofKind? (kind subject : String) : Option BindingError :=
  if kind = "NotResident" then some (.notResident subject)
  else if kind = "MissingSymbol" then some (.missingSymbol subject)
  else if kind = "InvalidName" then some (.invalidName subject)
  else if kind = "Unsupported" then some .unsupported
  else none

/-- The wording.  Only the invalid name is escaped: it holds at least one character that cannot
be shown. -/
def message : BindingError → String
  | .notResident m => "runtime module `" ++ m ++ "` is not loaded in this process"
  | .missingSymbol s => "symbol `" ++ s ++ "` is not exported by the runtime module"
  | .invalidName n => "`" ++ Text.escaped n ++ "` contains an interior NUL byte"
  | .unsupported => "resident-module symbol lookup is not supported on this platform"

instance : Inspect BindingError where
  inspect
    | .notResident m => .ofFields "NotResident" [("module", .atom (Text.quoted m))]
    | .missingSymbol s => .ofFields "MissingSymbol" [("symbol", .atom (Text.quoted s))]
    | .invalidName n => .ofFields "InvalidName" [("name", .atom (Text.quoted n))]
    | .unsupported => .atom "Unsupported"

end BindingError

end OrderedAtomics.Binding
