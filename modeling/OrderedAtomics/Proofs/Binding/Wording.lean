import OrderedAtomics.Binding.Error
import OrderedAtomics.Proofs.Text.Unescape
import Mathlib.Data.List.Basic

/-
  The wording of a binding error says which error it is.  The four kinds begin differently, and what
  stands between a beginning and its end is the name that the error is about, as it is or escaped.
  So a reader that looks for the beginnings and the ends finds the error again
  (`ofMessage?_message`).  Names may hold anything, also what looks like the end of a wording or
  like an escape.
-/
namespace OrderedAtomics.Binding

namespace BindingError

/-- What stands in a text between a beginning and an end. -/
def between? (opening closing : String) (text : List Char) : Option (List Char) := do
  (← text.dropPrefix? opening.toList).dropSuffix? closing.toList

/-- The error that a wording stands for. -/
def ofMessage? (text : String) : Option BindingError :=
  ((between? "runtime module `" "` is not loaded in this process" text.toList).map
      fun name => notResident (String.ofList name)) <|>
    ((between? "symbol `" "` is not exported by the runtime module" text.toList).map
      fun name => missingSymbol (String.ofList name)) <|>
    (((between? "`" "` contains an interior NUL byte" text.toList).bind
      fun name => Text.unescape (String.ofList name)).map invalidName) <|>
    if text = unsupported.message then some unsupported else none

theorem between?_eq_some_iff {opening closing : String} {text inner : List Char} :
    between? opening closing text = some inner ↔
      text = opening.toList ++ (inner ++ closing.toList) := by
  simp only [between?, bind, Option.bind_eq_some_iff, List.dropPrefix?_eq_some_iff,
    List.dropSuffix?_eq_some_iff, beq_iff_eq]
  constructor
  · rintro ⟨rest, ⟨_, rfl, rfl⟩, _, rfl, rfl⟩
    rfl
  · intro h
    exact ⟨inner ++ closing.toList, ⟨_, h, rfl⟩, _, rfl, rfl⟩

/-- What begins differently is not read. -/
theorem between?_eq_none {opening closing : String} {text : List Char}
    (h : ¬ opening.toList <+: text) : between? opening closing text = none := by
  rw [Option.eq_none_iff_forall_ne_some]
  intro inner hinner
  exact h ⟨_, (between?_eq_some_iff.mp hinner).symm⟩

variable (name : String)

theorem message_notResident : (notResident name).message =
    "runtime module `" ++ name ++ "` is not loaded in this process" := rfl

theorem message_missingSymbol : (missingSymbol name).message =
    "symbol `" ++ name ++ "` is not exported by the runtime module" := rfl

theorem message_invalidName : (invalidName name).message =
    "`" ++ Text.escaped name ++ "` contains an interior NUL byte" := rfl

theorem ofMessage?_message (e : BindingError) : ofMessage? e.message = some e := by
  cases e with
  | notResident name =>
    have h : between? "runtime module `" "` is not loaded in this process"
        (notResident name).message.toList = some name.toList := by
      simp [between?_eq_some_iff, message_notResident]
    rw [ofMessage?, h, Option.map_some, String.ofList_toList]
    rfl
  | missingSymbol name =>
    have hmodule : between? "runtime module `" "` is not loaded in this process"
        (missingSymbol name).message.toList = none :=
      between?_eq_none (by simp [message_missingSymbol])
    have h : between? "symbol `" "` is not exported by the runtime module"
        (missingSymbol name).message.toList = some name.toList := by
      simp [between?_eq_some_iff, message_missingSymbol]
    rw [ofMessage?, hmodule, h, Option.map_some, String.ofList_toList]
    rfl
  | invalidName name =>
    have hmodule : between? "runtime module `" "` is not loaded in this process"
        (invalidName name).message.toList = none :=
      between?_eq_none (by simp [message_invalidName])
    have hsymbol : between? "symbol `" "` is not exported by the runtime module"
        (invalidName name).message.toList = none :=
      between?_eq_none (by simp [message_invalidName])
    have h : between? "`" "` contains an interior NUL byte"
        (invalidName name).message.toList = some (Text.escaped name).toList := by
      simp [between?_eq_some_iff, message_invalidName]
    rw [ofMessage?, hmodule, hsymbol, h, Option.bind_some, String.ofList_toList,
      Text.unescape_escaped]
    rfl
  | unsupported => rfl

/-- The wording of an invalid name has no control characters, whatever the name holds. -/
theorem free_message_invalidName :
    Text.ControlFree (invalidName name).message.toList := by
  have hopening : Text.ControlFree "`".toList := by decide
  have hclosing : Text.ControlFree "` contains an interior NUL byte".toList := by decide
  rw [message_invalidName, String.toList_append, String.toList_append]
  exact (hopening.append (Text.free_escaped name)).append hclosing

/-- **The wording identifies the failure.** The error can be read off its wording, so that no two
errors are worded alike, of the same kind or not, whatever their names hold.  In particular an
invalid name can be recovered from its escaped form, and its wording has no control characters. -/
theorem message_identifies_failure (e e' : BindingError) :
    ofMessage? e.message = some e ∧ (e.message = e'.message ↔ e = e') ∧
      Text.unescape (Text.escaped name) = some name ∧
      Text.ControlFree (invalidName name).message.toList := by
  refine ⟨ofMessage?_message e, ⟨fun h => ?_, fun h => h ▸ rfl⟩, Text.unescape_escaped name,
    free_message_invalidName name⟩
  have hread : some e = some e' := by
    rw [← ofMessage?_message e, ← ofMessage?_message e', h]
  exact Option.some.inj hread

end BindingError

end OrderedAtomics.Binding
