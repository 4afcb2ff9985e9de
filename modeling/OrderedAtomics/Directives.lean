import OrderedAtomics.Text.Blank
import OrderedAtomics.Text.Utf8

/-
  Which targets have a lock-free compare-exchange of two pointers' width, and what the build is
  told about it.  A target is described by the strings of the build's environment; features and
  atomic widths are lists separated by commas, of which whole entries count.
-/
namespace OrderedAtomics

/-- What the environment of a build says about its target. -/
structure Target where
  pointerWidth : String
  arch : String
  features : String
  atomicWidths : String

/-- Whether a comma-separated list has an entry. -/
def lists (list entry : String) : Bool :=
  (Text.splitWhere (· == ',') list.toList).contains entry.toList

/-- Whether the target can exchange two pointers at once without a lock. -/
def Target.hasDoubleWord (t : Target) : Bool :=
  if t.pointerWidth = "32" then lists t.atomicWidths "64"
  else if t.pointerWidth = "64" then
    if t.arch = "x86_64" then lists t.features "cmpxchg16b"
    else if t.arch = "aarch64" then true
    else if t.arch = "s390x" then true
    else if t.arch = "powerpc64" then lists t.features "quadword-atomics"
    else false
  else false

/-- An environment: the bytes of each variable that is set. -/
structure Environment where
  value? : String → Option Text.Bytes

namespace Environment

/-- The text of a variable; one that is not set or not text reads as empty. -/
def textOf (env : Environment) (name : String) : String :=
  match (env.value? name).bind Text.Utf8.decode? with
  | some cs => String.ofList cs
  | none => ""

/-- The target that an environment describes. -/
def target (env : Environment) : Target where
  pointerWidth := env.textOf "CARGO_CFG_TARGET_POINTER_WIDTH"
  arch := env.textOf "CARGO_CFG_TARGET_ARCH"
  features := env.textOf "CARGO_CFG_TARGET_FEATURE"
  atomicWidths := env.textOf "CARGO_CFG_TARGET_HAS_ATOMIC"

/-- Whether double words are switched off; any value does it. -/
def doubleWordDisabled (env : Environment) : Bool := (env.value? "ATOMICS_DISABLE_DWORD").isSome

end Environment

/-- The directives that every build is given. -/
def fixedDirectives : List String :=
  ["cargo:rerun-if-changed=build.rs",
   "cargo:rerun-if-changed=build/target.rs",
   "cargo:rerun-if-env-changed=ATOMICS_REFCOUNT_MODULE",
   "cargo:rerun-if-env-changed=ATOMICS_RETAIN_N_SYMBOL",
   "cargo:rerun-if-env-changed=ATOMICS_RELEASE_N_SYMBOL",
   "cargo:rerun-if-env-changed=ATOMICS_DISABLE_DWORD",
   "cargo:rustc-check-cfg=cfg(atomics_dword)"]

/-- The directive that switches double words on. -/
def doubleWordDirective : String := "cargo:rustc-cfg=atomics_dword"

/-- What running the build step comes to: its exit code and the lines it prints. -/
structure BuildStep where
  exit : Nat
  lines : List String
  deriving DecidableEq

/-- The build step in an environment: it always succeeds, and its last line switches double words
on where they are supported and not disabled. -/
def buildStep (env : Environment) : BuildStep where
  exit := 0
  lines := fixedDirectives ++
    if !env.doubleWordDisabled && env.target.hasDoubleWord then [doubleWordDirective] else []

end OrderedAtomics
