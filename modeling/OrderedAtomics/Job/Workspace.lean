import OrderedAtomics.Files.Tree

/-
  What a job works on: a directory tree, the build tools that can be started, the log they keep,
  and what was written to standard output and standard error.  The tools follow a script that says
  how each run ends.
-/
namespace OrderedAtomics.Job

open OrderedAtomics.Files

/-- Failures of the operating system. -/
inductive SystemError where
  | notFound
  | alreadyExists
  | isDirectory
  | permissionDenied
  deriving DecidableEq

/-- The wording of a system error. -/
def SystemError.message : SystemError → String
  | .notFound => "No such file or directory (os error 2)"
  | .alreadyExists => "File exists (os error 17)"
  | .isDirectory => "Is a directory (os error 21)"
  | .permissionDenied => "Permission denied (os error 13)"

/-- Why a job failed, and what lies behind it. -/
structure Failure where
  message : String
  cause? : Option SystemError := none

namespace Failure

/-- A system error as it is. -/
def ofSystem (e : SystemError) : Failure := ⟨e.message, none⟩

/-- The messages from the failure to its cause. -/
def chain (f : Failure) : List String := f.message :: (f.cause?.map SystemError.message).toList

/-- The failure on one line. -/
def line (f : Failure) : String := String.intercalate ": " f.chain

/-- The failure as it is printed at the end of a command. -/
def report (f : Failure) : String :=
  "Error: " ++ f.message ++
    match f.cause? with
    | none => "\n"
    | some e => "\n\nCaused by:\n    " ++ e.message ++ "\n"

end Failure

/-- How a run of a program ends, as one byte; zero stands for success. -/
abbrev ExitCode := UInt8

/-- The build tool: how building ends, how each benchmark ends (zero unless it is listed), and
whether the tool is gone after its first run. -/
structure BuildTool where
  buildExit : ExitCode
  benchmarkExits : List (String × ExitCode)
  vanishes : Bool

/-- How a run of the build tool ends. -/
def BuildTool.exit (tool : BuildTool) (arguments : List String) : ExitCode :=
  match arguments with
  | "bench" :: _ :: name :: _ =>
    match tool.benchmarkExits.find? fun b => b.1 == name with
    | some b => b.2
    | none => tool.buildExit
  | _ => tool.buildExit

/-- The tool that lists symbols: what it prints and how it ends. -/
structure ListingTool where
  output : Text.Bytes
  exit : ExitCode

/-- What a job works on; `elapsed` is how the duration of a benchmark is shown. -/
structure Workspace where
  files : Entries := .nil
  buildTool? : Option BuildTool := none
  listingTool? : Option ListingTool := none
  elapsed : String := ""
  log : List String := []
  out : String := ""
  err : String := ""

end OrderedAtomics.Job

namespace OrderedAtomics

open OrderedAtomics.Job

/-- A job: it changes a workspace and may fail; what it did before it failed stays. -/
abbrev Job (β : Type) := ExceptT Failure (StateM Workspace) β

namespace Job

/-- Writes to standard output. -/
def print (s : String) : Job Unit := modify fun w => { w with out := w.out ++ s }

/-- Writes to standard error. -/
def warn (s : String) : Job Unit := modify fun w => { w with err := w.err ++ s }

/-- Starts the build tool and gives back how it ended.  The variable that switches incremental
builds is part of what is logged. -/
def build (incremental : String) (arguments : List String) : Job (Except SystemError ExitCode) := do
  match (← get).buildTool? with
  | none => return .error .notFound
  | some tool =>
    modify fun w => { w with
      log := w.log ++ [incremental ++ "|" ++ String.intercalate " " arguments]
      buildTool? := if tool.vanishes then none else some tool }
    return .ok (tool.exit arguments)

/-- Starts the listing tool and gives back what it printed and how it ended. -/
def listSymbols (arguments : List String) : Job (Except SystemError ListingTool) := do
  match (← get).listingTool? with
  | none => return .error .notFound
  | some tool =>
    modify fun w => { w with log := w.log ++ ["nm|" ++ String.intercalate " " arguments] }
    return .ok tool

/-- The outcome of a job on a workspace, and the workspace it leaves. -/
def run {β : Type} (t : Job β) (w : Workspace) : Except Failure β × Workspace :=
  StateT.run (ExceptT.run t) w

section Run

variable {β γ : Type} {w w' : Workspace}

theorem run_bind {t : Job β} {f : β → Job γ} {b : β} (h : run t w = (.ok b, w')) :
    run (t >>= f) w = run (f b) w' := by
  unfold run at h ⊢
  rw [ExceptT.run_bind, StateT.run_bind, h]
  rfl

/-- What goes on to succeed has succeeded so far. -/
theorem ok_of_bind {t : Job β} {f : β → Job γ} {c : γ} (h : run (t >>= f) w = (.ok c, w')) :
    ∃ b w'', run t w = (.ok b, w'') ∧ run (f b) w'' = (.ok c, w') := by
  obtain ⟨outcome, w'', ht⟩ : ∃ outcome w'', run t w = (outcome, w'') := ⟨_, _, rfl⟩
  cases outcome with
  | error failure =>
    have hfails : run (t >>= f) w = (.error failure, w'') := by
      unfold run at ht ⊢
      rw [ExceptT.run_bind, StateT.run_bind, ht]
      rfl
    rw [hfails] at h
    cases h
  | ok b =>
    rw [run_bind ht] at h
    exact ⟨b, w'', ht, h⟩

theorem run_get : run get w = (.ok w, w) := rfl

theorem run_print (s : String) : run (print s) w = (.ok (), { w with out := w.out ++ s }) := rfl

theorem run_build {tool : BuildTool} (h : w.buildTool? = some tool) (incremental : String)
    (arguments : List String) :
    run (build incremental arguments) w = (.ok (.ok (tool.exit arguments)),
      { w with
        log := w.log ++ [incremental ++ "|" ++ String.intercalate " " arguments]
        buildTool? := if tool.vanishes then none else some tool }) := by
  rw [build, run_bind run_get]
  split
  · next hnone => simp [h] at hnone
  · next tool' hsome =>
    rw [h, Option.some.injEq] at hsome
    rw [hsome]
    rfl

theorem run_build_none (h : w.buildTool? = none) (incremental : String)
    (arguments : List String) :
    run (build incremental arguments) w = (.ok (.error .notFound), w) := by
  rw [build, run_bind run_get]
  split
  · rfl
  · next tool hsome => simp [h] at hsome

theorem run_listSymbols {tool : ListingTool} (h : w.listingTool? = some tool)
    (arguments : List String) :
    run (listSymbols arguments) w = (.ok (.ok tool),
      { w with log := w.log ++ ["nm|" ++ String.intercalate " " arguments] }) := by
  rw [listSymbols, run_bind run_get]
  split
  · next hnone => simp [h] at hnone
  · next tool' hsome =>
    rw [h, Option.some.injEq] at hsome
    rw [hsome]
    rfl

theorem run_listSymbols_none (h : w.listingTool? = none) (arguments : List String) :
    run (listSymbols arguments) w = (.ok (.error .notFound), w) := by
  rw [listSymbols, run_bind run_get]
  split
  · rfl
  · next tool hsome => simp [h] at hsome

end Run

end Job

end OrderedAtomics
