import OrderedAtomics.Directives
import OrderedAtomics.Proofs.Text.Utf8

/-
  What the build step makes of its environment.  A variable that describes the target is read as the
  text it is set to, and as empty where it is not set or its bytes are no text (`Shows`), so that an
  environment describes exactly one target (`describes_iff`).  Of the variable that switches double
  words off only the presence counts.  The build step depends on nothing else.
-/
namespace OrderedAtomics

namespace Environment

/-- A variable is set to a text. -/
def Holds (env : Environment) (name text : String) : Prop :=
  env.value? name = some (Text.toBytes text)

/-- A variable is read as a text: as the one it is set to, or as empty if it is set to none. -/
def Shows (env : Environment) (name text : String) : Prop :=
  env.Holds name text ∨ text = "" ∧ ∀ t, ¬env.Holds name t

/-- A target whose four properties are what the environment shows. -/
def Describes (env : Environment) (t : Target) : Prop :=
  env.Shows "CARGO_CFG_TARGET_POINTER_WIDTH" t.pointerWidth ∧
    env.Shows "CARGO_CFG_TARGET_ARCH" t.arch ∧
    env.Shows "CARGO_CFG_TARGET_FEATURE" t.features ∧
    env.Shows "CARGO_CFG_TARGET_HAS_ATOMIC" t.atomicWidths

/-- The variables that describe the target. -/
def targetVariables : List String :=
  ["CARGO_CFG_TARGET_POINTER_WIDTH", "CARGO_CFG_TARGET_ARCH", "CARGO_CFG_TARGET_FEATURE",
   "CARGO_CFG_TARGET_HAS_ATOMIC"]

/-- Two environments that differ at most in variables that a build has no use for, and in what the
switch is set to. -/
def Alike (env env' : Environment) : Prop :=
  (∀ name ∈ targetVariables, env'.value? name = env.value? name) ∧
    (env'.value? "ATOMICS_DISABLE_DWORD" = none ↔ env.value? "ATOMICS_DISABLE_DWORD" = none)

variable {env env' : Environment} {name text : String}

theorem holds_iff :
    env.Holds name text ↔
      (env.value? name).bind Text.Utf8.decode? = some text.toList := by
  unfold Holds
  rw [Option.bind_eq_some_iff]
  constructor
  · intro h
    refine ⟨_, h, Text.Utf8.decode?_eq_some_iff.mpr ?_⟩
    rw [String.ofList_toList]
  · rintro ⟨bytes, hvalue, hread⟩
    rw [hvalue, Text.Utf8.decode?_eq_some_iff.mp hread, String.ofList_toList]

/-- A variable is read as one text and no other. -/
theorem shows_iff : env.Shows name text ↔ text = env.textOf name := by
  unfold Shows textOf
  simp only [holds_iff]
  cases h : (env.value? name).bind Text.Utf8.decode? with
  | none => simp
  | some cs =>
    simp only [Option.some.injEq]
    constructor
    · rintro (rfl | ⟨-, hnot⟩)
      · exact String.ofList_toList.symm
      · exact absurd (String.toList_ofList).symm (hnot (String.ofList cs))
    · rintro rfl
      exact .inl String.toList_ofList.symm

/-- An environment describes one target and no other. -/
theorem describes_iff {t : Target} : env.Describes t ↔ t = env.target := by
  unfold Describes target
  rw [shows_iff, shows_iff, shows_iff, shows_iff]
  constructor
  · rintro ⟨hwidth, harch, hfeatures, hatomics⟩
    rw [← hwidth, ← harch, ← hfeatures, ← hatomics]
  · rintro rfl
    exact ⟨rfl, rfl, rfl, rfl⟩

theorem Alike.target (h : env.Alike env') : env'.target = env.target := by
  have htext : ∀ name ∈ targetVariables, env'.textOf name = env.textOf name := by
    intro name hname
    unfold textOf
    rw [h.1 name hname]
  unfold Environment.target
  rw [htext _ (by decide), htext _ (by decide), htext _ (by decide), htext _ (by decide)]

theorem doubleWordDisabled_iff :
    env.doubleWordDisabled = false ↔ env.value? "ATOMICS_DISABLE_DWORD" = none := by
  rw [doubleWordDisabled, Option.isSome_eq_false_iff, Option.isNone_iff_eq_none]

theorem Alike.doubleWordDisabled (h : env.Alike env') :
    env'.doubleWordDisabled = env.doubleWordDisabled := by
  unfold Environment.doubleWordDisabled
  rw [Bool.eq_iff_iff, Option.isSome_iff_ne_none, Option.isSome_iff_ne_none]
  exact not_congr h.2

end Environment

/-- **The build step does what its environment says.** It succeeds in every environment, and prints
seven directives in this order and then the one that switches double words on, exactly if the switch
is not set, to whatever bytes, and the one target that the environment describes has them.
Environments that are alike for it, whatever else they contain, give the same output. -/
theorem buildStep_follows_environment (env : Environment) :
    ∃ t, (∀ t', env.Describes t' ↔ t' = t) ∧ (buildStep env).exit = 0 ∧
      (buildStep env).lines =
        ["cargo:rerun-if-changed=build.rs",
          "cargo:rerun-if-changed=build/target.rs",
          "cargo:rerun-if-env-changed=ATOMICS_REFCOUNT_MODULE",
          "cargo:rerun-if-env-changed=ATOMICS_RETAIN_N_SYMBOL",
          "cargo:rerun-if-env-changed=ATOMICS_RELEASE_N_SYMBOL",
          "cargo:rerun-if-env-changed=ATOMICS_DISABLE_DWORD",
          "cargo:rustc-check-cfg=cfg(atomics_dword)"] ++
        (if env.value? "ATOMICS_DISABLE_DWORD" = none ∧ t.hasDoubleWord = true
          then ["cargo:rustc-cfg=atomics_dword"] else []) ∧
      ∀ env', env.Alike env' → buildStep env' = buildStep env := by
  refine ⟨env.target, fun _ => Environment.describes_iff, rfl, ?_, ?_⟩
  · unfold buildStep
    simp only [Bool.and_eq_true, Bool.not_eq_true', Environment.doubleWordDisabled_iff]
    rfl
  · intro env' h
    unfold buildStep
    rw [h.target, h.doubleWordDisabled]

/-- A build for a target with the instruction, in which the switch is set to a byte that is no text
or not set at all, and another variable to anything. -/
def crossBuild (switch? other? : Option Text.Bytes) : Environment where
  value? name :=
    if name = "CARGO_CFG_TARGET_POINTER_WIDTH" then some (Text.toBytes "64")
    else if name = "CARGO_CFG_TARGET_ARCH" then some (Text.toBytes "x86_64")
    else if name = "CARGO_CFG_TARGET_FEATURE" then some (Text.toBytes "fxsr,cmpxchg16b")
    else if name = "CARGO_CFG_TARGET_HAS_ATOMIC" then some [0x36, 0xff]
    else if name = "ATOMICS_DISABLE_DWORD" then switch?
    else if name = "PATH" then other?
    else none

theorem buildStep_follows_environment_switch :
    (buildStep (crossBuild none none)).lines.getLast? = some "cargo:rustc-cfg=atomics_dword" ∧
    (buildStep (crossBuild (some [0xff]) none)).lines.getLast? =
      some "cargo:rustc-check-cfg=cfg(atomics_dword)" ∧
    buildStep (crossBuild (some []) (some [0x2f])) = buildStep (crossBuild (some [0xff]) none) := by
  have hshows : ∀ switch? other?, (crossBuild switch? other?).Describes
      ⟨"64", "x86_64", "fxsr,cmpxchg16b", ""⟩ := by
    intro switch? other?
    -- the widths are no text, and read as empty
    have hwidths : (crossBuild switch? other?).Shows "CARGO_CFG_TARGET_HAS_ATOMIC" "" := by
      rw [Environment.shows_iff]
      rfl
    exact ⟨.inl rfl, .inl rfl, .inl rfl, hwidths⟩
  obtain ⟨t, hone, -, hlines, -⟩ := buildStep_follows_environment (crossBuild none none)
  obtain ⟨t', hone', -, hlines', halike⟩ :=
    buildStep_follows_environment (crossBuild (some [0xff]) none)
  refine ⟨?_, ?_, ?_⟩
  · rw [hlines, ← (hone _).mp (hshows none none)]
    rfl
  · rw [hlines', ← (hone' _).mp (hshows _ _)]
    rfl
  · refine halike _ ⟨?_, by decide⟩
    simp only [Environment.targetVariables, List.forall_mem_cons]
    exact ⟨rfl, rfl, rfl, rfl, List.forall_mem_nil _⟩

end OrderedAtomics
