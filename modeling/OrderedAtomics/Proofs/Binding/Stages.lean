import OrderedAtomics.Proofs.Binding.SingleResolution

/-
  When a gate says that it is initializing.  The mark is set before each run of the source and never
  taken back, so that it stands for three things that may have happened (`Marked`): a caller attends
  to a run, a run panicked, or there is a table.  The stage therefore says that the source is being
  run only as long as no run has panicked.  After one that has, it says so until there is a table,
  also while nobody runs the source.

  An observer reads the table and the mark at different times.  Without the mark there is no caller
  that could publish a table (`Marked.stays_unready`), so that a gate which is found without a table
  and later with the mark was initializing in between (`Marked.initializing_before`), and what the
  two reads answer is a stage the gate was at (`look_answers`).
-/
namespace OrderedAtomics.Binding

theorem Gate.stage_eq_initializing_iff {g : Gate} :
    g.stage = .initializing ↔ g.table? = none ∧ g.begun = true := by
  unfold Gate.stage
  cases g.table? <;> cases g.begun <;> simp

/-- Whether a caller at this place has set the mark for a run that is not over. -/
def CallerPlace.attends : CallerPlace → Bool
  | .marked | .running _ => true
  | .start | .chosen => false

namespace Race

variable {attempts : Nat → Option Bindings} {r r' : Race} {i : Nat} {c d : Caller}

/-- Some caller attends to a run of the source. -/
def Underway (r : Race) : Prop :=
  ∃ (i : Nat) (c : Caller), r.callers[i]? = some c ∧ c.place.attends = true

theorem underway_set (hc : r.callers[i]? = some c) (hd : d.place.attends = true)
    {g : Gate} {initializer? : Option Nat} {calls : Nat} {observers : List Observer} :
    Underway ⟨g, initializer?, calls, r.callers.set i d, observers⟩ := by
  obtain ⟨hi, -⟩ := List.getElem?_eq_some_iff.mp hc
  exact ⟨i, d, List.getElem?_set_self hi, hd⟩

/-- A caller that attends to no run before or after a step does not count. -/
theorem underway_set_iff (hc : r.callers[i]? = some c) (hplace : c.place.attends = false)
    (hd : d.place.attends = false)
    {g : Gate} {initializer? : Option Nat} {calls : Nat} {observers : List Observer} :
    Underway ⟨g, initializer?, calls, r.callers.set i d, observers⟩ ↔ r.Underway := by
  constructor
  · rintro ⟨j, b, hb, hattends⟩
    rcases getElem?_set_cases hb with ⟨-, rfl⟩ | ⟨-, hb⟩
    · rw [hd] at hattends
      cases hattends
    · exact ⟨j, b, hb, hattends⟩
  · rintro ⟨j, b, hb, hattends⟩
    have hne : i ≠ j := by
      rintro rfl
      rw [hc, Option.some.injEq] at hb
      rw [← hb, hplace] at hattends
      cases hattends
    exact ⟨j, b, (List.getElem?_set_ne hne).trans hb, hattends⟩

/-- A race in which the mark of the gate stands for something that has happened. -/
structure Marked (attempts : Nat → Option Bindings) (r : Race) : Prop where
  sound : Sound attempts r
  begun_iff : r.gate.begun = true ↔ r.Underway ∨ 0 < r.panics ∨ r.gate.table?.isSome = true

namespace Marked

theorem moves (h : Marked attempts r) (hm : Moves attempts r r') : Marked attempts r' := by
  refine ⟨h.sound.moves hm, ?_⟩
  cases hm with
  | idle | looks => exact h.begun_iff
  | finds hc hp ht =>
    have htable : r.gate.table?.isSome = true := by rw [ht]; rfl
    exact iff_of_true (h.begun_iff.mpr (.inr (.inr htable))) (.inr (.inr htable))
  | @chosen i c hc ht hi =>
    have hstart : c.place = .start := (h.sound.alone i c hc).resolve_right (by rw [hi]; nofun)
    rw [panics_place hc, underway_set_iff hc (by rw [hstart]; rfl) rfl]
    exact h.begun_iff
  | marks hc hp => exact iff_of_true rfl (.inl (underway_set hc rfl))
  | @begins i c hc hp =>
    have hunderway : r.Underway := ⟨i, c, hc, by rw [hp]; rfl⟩
    exact iff_of_true (h.begun_iff.mpr (.inl hunderway)) (.inl (underway_set hc rfl))
  | @publishes i c k t hc hp ha =>
    have hunderway : r.Underway := ⟨i, c, hc, by rw [hp]; rfl⟩
    exact iff_of_true (h.begun_iff.mpr (.inl hunderway)) (.inr (.inr rfl))
  | @panics i c k hc hp ha =>
    have hunderway : r.Underway := ⟨i, c, hc, by rw [hp]; rfl⟩
    refine iff_of_true (h.begun_iff.mpr (.inl hunderway)) (.inr (.inl ?_))
    rw [panics_finish hc]
    exact Nat.succ_pos _

theorem meeting (attempts : Nat → Option Bindings) (uses : List Nat) (watchers : Nat) :
    Marked attempts (meeting uses watchers) := by
  have hsound : Sound attempts (Race.meeting uses watchers) := sound_meeting uses watchers
  refine ⟨hsound, iff_of_false nofun ?_⟩
  rintro (⟨i, c, hc, hattends⟩ | hpanics | htable)
  · obtain ⟨n, -, rfl⟩ := List.mem_map.mp (List.mem_of_getElem? hc)
    cases hattends
  · -- no more runs have panicked than were begun
    exact absurd hsound.calls_range.1 (Nat.not_le_of_lt hpanics)
  · cases htable

/-- While a caller attends to a run there is no table. -/
theorem unready_of_underway (h : Marked attempts r) (hr : r.Underway) : r.gate.table? = none := by
  obtain ⟨i, c, hc, hattends⟩ := hr
  have hp : c.place ≠ .start := by
    intro hstart
    rw [hstart] at hattends
    cases hattends
  exact (h.sound.situation.at_place h.sound.alone hc hp).1

end Marked

/-- **A gate is initializing while its source is run, and after a panic.** In a race of any callers
for a fresh gate, at any time, the stage is initializing exactly if some caller attends to a run of
the source, or a run has panicked and there is no table yet. -/
theorem initializing_iff (attempts : Nat → Option Bindings) (uses : List Nat) (watchers : Nat)
    (schedule : List RaceTurn) :
    let r := (meeting uses watchers).run attempts schedule
    r.gate.stage = .initializing ↔ r.Underway ∨ 0 < r.panics ∧ r.gate.table? = none := by
  intro r
  have h : Marked attempts r :=
    run_induction (.meeting attempts uses watchers) Marked.moves schedule
  rw [Gate.stage_eq_initializing_iff, h.begun_iff]
  constructor
  · rintro ⟨ht, hunderway | hpanics | htable⟩
    · exact .inl hunderway
    · exact .inr ⟨hpanics, ht⟩
    · rw [ht] at htable
      cases htable
  · rintro (hunderway | ⟨hpanics, ht⟩)
    · exact ⟨h.unready_of_underway hunderway, .inl hunderway⟩
    · exact ⟨ht, .inr (.inl hpanics)⟩

/-- The only use of a gate panics, and then an observer looks: nobody runs the source or is about
to, and the stage is initializing. -/
theorem initializing_idle :
    let r := (meeting [1] 1).run (fun _ => none)
      [.caller 0, .caller 0, .caller 0, .caller 0, .observer 0, .observer 0]
    r.gate.stage = .initializing ∧ (∀ c ∈ r.callers, c.place = .start ∧ c.remaining = 0) ∧
      ∀ o ∈ r.observers, o.stages = [.initializing] := by
  intro r
  refine ⟨rfl, ?_, ?_⟩
  · intro c hc
    rw [List.mem_singleton.mp hc]
    exact ⟨rfl, rfl⟩
  · intro o ho
    rw [List.mem_singleton.mp ho]
    rfl

/-! ## What the two reads of an observer answer -/

theorem callerStep_observers (attempts : Nat → Option Bindings) (r : Race) (i : Nat) (c : Caller) :
    (r.callerStep attempts i c).observers = r.observers := by
  unfold callerStep
  repeat' split
  all_goals rfl

/-- Nobody but an observer itself changes what it has read. -/
theorem step_observer_of_ne {turn : RaceTurn} (h : .observer i ≠ turn) :
    (r.step attempts turn).observers[i]? = r.observers[i]? := by
  cases turn with
  | caller j =>
    simp only [step]
    cases r.callers[j]? with
    | none => rfl
    | some c => exact congrArg (·[i]?) (callerStep_observers attempts r j c)
  | observer j =>
    simp only [step]
    cases r.observers[j]? with
    | none => rfl
    | some o =>
      dsimp only
      rw [observerStep_eq]
      exact List.getElem?_set_ne fun hij => h (congrArg _ hij.symm)

theorem run_observer_of_not_mem {schedule : List RaceTurn} (h : .observer i ∉ schedule) :
    (r.run attempts schedule).observers[i]? = r.observers[i]? := by
  induction schedule generalizing r with
  | nil => rfl
  | cons turn schedule ih =>
    obtain ⟨hne, hrest⟩ := not_or.mp (mt List.mem_cons.mpr h)
    exact (ih hrest).trans (step_observer_of_ne hne)

theorem step_observer (attempts : Nat → Option Bindings) {o : Observer}
    (ho : r.observers[i]? = some o) : r.step attempts (.observer i) =
      { r with observers := r.observers.set i (o.look r.gate) } := by
  simp only [step, ho]
  exact observerStep_eq r i o

namespace Marked

theorem run (h : Marked attempts r) (schedule : List RaceTurn) :
    Marked attempts (r.run attempts schedule) :=
  run_induction h moves schedule

theorem table_of_unmarked (h : Marked attempts r) (hbegun : r.gate.begun ≠ true) :
    r.gate.table? = none := by
  have hnone := mt h.begun_iff.mpr hbegun
  rw [not_or, not_or] at hnone
  simpa using hnone.2.2

/-- A gate without the mark has no table, nor will the next step give it one. -/
theorem stays_unready (h : Marked attempts r) (hbegun : r.gate.begun ≠ true)
    (hm : Moves attempts r r') : r'.gate.table? = none := by
  have htable := h.table_of_unmarked hbegun
  cases hm with
  | idle | looks | finds | chosen | marks | begins | panics => exact htable
  | @publishes i c k t hc hp =>
    have hunderway : r.Underway := ⟨i, c, hc, by rw [hp]; rfl⟩
    exact absurd (h.begun_iff.mpr (.inl hunderway)) hbegun

/-- A gate that has no table, and later the mark, was initializing in between. -/
theorem initializing_before {schedule : List RaceTurn} (h : Marked attempts r)
    (htable : r.gate.table? = none) (hbegun : (r.run attempts schedule).gate.begun = true) :
    ∃ part, part <+: schedule ∧ (r.run attempts part).gate.stage = .initializing := by
  induction schedule generalizing r with
  | nil => exact ⟨[], List.prefix_rfl, Gate.stage_eq_initializing_iff.mpr ⟨htable, hbegun⟩⟩
  | cons turn schedule ih =>
    by_cases hnow : r.gate.begun = true
    · exact ⟨[], List.nil_prefix, Gate.stage_eq_initializing_iff.mpr ⟨htable, hnow⟩⟩
    · have hm := step_moves attempts r turn
      obtain ⟨part, hpart, hstage⟩ := ih (h.moves hm) (h.stays_unready hnow hm) hbegun
      exact ⟨turn :: part, (List.prefix_cons_inj turn).mpr hpart, hstage⟩

end Marked

/-- What an observer answers, in any race.  Its first read answers that the gate is ready if there
is a table by then.  If there is none, its second read, however much later, answers initializing
exactly if by then a caller attends to a run of the source, a run has panicked or there is a table,
and uninitialized otherwise.  Either way the answer is a stage that the gate was at between the two
reads. -/
theorem look_answers (attempts : Nat → Option Bindings) (uses : List Nat) (watchers : Nat)
    (before between : List RaceTurn) {i : Nat} {o : Observer}
    (ho : ((meeting uses watchers).run attempts before).observers[i]? = some o)
    (hfirst : o.sawNoTable = false) (hbetween : .observer i ∉ between) :
    let r := (meeting uses watchers).run attempts before
    let after := fun schedule => r.run attempts (.observer i :: schedule)
    if r.gate.table?.isSome then
      (after between).observers[i]? = some ⟨false, .ready :: o.stages⟩ ∧ r.gate.stage = .ready
    else ∃ stage, (after (between ++ [.observer i])).observers[i]? =
        some ⟨false, stage :: o.stages⟩ ∧
      stage ≠ .ready ∧
      (stage = .initializing ↔ (after between).Underway ∨ 0 < (after between).panics ∨
        (after between).gate.table?.isSome) ∧
      ∃ part, part <+: between ∧ (after part).gate.stage = stage := by
  intro r after
  have hmarked : Marked attempts r := (Marked.meeting attempts uses watchers).run before
  obtain ⟨hi, -⟩ := List.getElem?_eq_some_iff.mp ho
  -- the first read
  have hstep := step_observer attempts ho
  have hkept : (after between).observers[i]? = some (o.look r.gate) := by
    refine (run_observer_of_not_mem hbetween).trans ?_
    rw [hstep]
    exact List.getElem?_set_self hi
  split
  · rename_i htable
    refine ⟨?_, by unfold Gate.stage; rw [if_pos htable]⟩
    rw [hkept]
    unfold Observer.look
    rw [hfirst, if_neg Bool.false_ne_true, if_pos htable]
  · rename_i htable
    have hnone : r.gate.table? = none := by simpa using htable
    have hlook : o.look r.gate = ⟨true, o.stages⟩ := by
      unfold Observer.look
      rw [hfirst, if_neg Bool.false_ne_true, if_neg htable]
    have hread : Marked attempts (r.step attempts (.observer i)) :=
      hmarked.moves (step_moves attempts r _)
    have hunread : (r.step attempts (.observer i)).gate.table? = none := by
      rw [hstep]
      exact hnone
    -- the second read
    have hlater : Marked attempts (after between) := hread.run between
    have hlast : after (between ++ [.observer i]) =
        (after between).step attempts (.observer i) := by
      simp only [after, run, List.foldl_cons, List.foldl_append, List.foldl_nil]
    have hj : i < (after between).observers.length := (List.getElem?_eq_some_iff.mp hkept).1
    rw [hlook] at hkept
    refine ⟨if (after between).gate.begun then .initializing else .uninitialized, ?_, ?_, ?_, ?_⟩
    · rw [hlast, step_observer attempts hkept]
      exact List.getElem?_set_self hj
    · split <;> nofun
    · rw [← hlater.begun_iff]
      cases (after between).gate.begun <;> simp
    · split
      · rename_i hbegun
        exact hread.initializing_before hunread hbegun
      · rename_i hbegun
        refine ⟨between, List.prefix_rfl, ?_⟩
        unfold Gate.stage
        rw [hlater.table_of_unmarked hbegun, if_neg (by nofun), if_neg hbegun]

end Race

end OrderedAtomics.Binding
