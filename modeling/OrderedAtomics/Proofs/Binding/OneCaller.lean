import OrderedAtomics.Binding.Session
import Mathlib

/-
  A gate in use by one caller, in closed form.  Only a use runs the source, and only while there is
  no table, so the `k`-th use meets the `k`-th attempt until one gives a table or ends the process,
  and every later use finds the table.  `waiting`, `settled` and `ended` are all the sessions there
  are; `step_waiting` and `step_settled` lead from one to the next.  `Entry` says everything that an
  entry of a run can be, given the uses made before it (`entry_of_run`), and `run_getElem?_eq_none`
  says when there is none.
-/
namespace OrderedAtomics.Binding

/-! ## Uses and what they come to -/

/-- The use that a step makes of the gate. -/
def GateStep.use? : GateStep → Option Use
  | .use u => some u
  | .look => none

/-- The uses among some steps. -/
def GateStep.uses (steps : List GateStep) : List Use := steps.filterMap use?

namespace Use

/-- What a use gives back once there is a table. -/
def answer (t : Bindings) : Use → StepResult
  | .get => .got t
  | .retain _ | .release _ => .done

/-- What a use makes of a count through the functions of a table. -/
def effect (t : Bindings) (count : Int) : Use → Int
  | .get => count
  | .retain n => t.retain.effect count n
  | .release n => t.release.effect count n

/-- What uses make of a count, one after the other. -/
def tally (t : Bindings) (count : Int) (uses : List Use) : Int := uses.foldl (effect t) count

/-- What a use adds to a count where retaining `n` adds `up n` and releasing `n` adds `down n`. -/
def change (up down : UInt32 → Int) : Use → Int
  | .get => 0
  | .retain n => up n
  | .release n => down n

theorem answer_ne_aborted (t : Bindings) (u : Use) (e : BindingError) :
    u.answer t ≠ .aborted e := by
  cases u <;> nofun

theorem tally_append (t : Bindings) (count : Int) (uses : List Use) (u : Use) :
    tally t count (uses ++ [u]) = u.effect t (tally t count uses) := by
  unfold tally
  rw [List.foldl_append]
  rfl

/-- Functions that add what they are called with, or anything else of their own, add up. -/
theorem tally_eq_sum {t : Bindings} {up down : UInt32 → Int}
    (hup : ∀ count n, t.retain.effect count n = count + up n)
    (hdown : ∀ count n, t.release.effect count n = count + down n) (count : Int)
    (uses : List Use) : tally t count uses = count + (uses.map (change up down)).sum := by
  induction uses generalizing count with
  | nil => simp [tally]
  | cons u uses ih =>
    have hfirst : u.effect t count = count + u.change up down := by
      cases u with
      | get => simp [effect, change]
      | retain n => exact hup count n
      | release n => exact hdown count n
    show tally t (u.effect t count) uses = _
    rw [ih, hfirst, List.map_cons, List.sum_cons]
    omega

end Use

/-- The table that an attempt gives. -/
def Attempt.table? : Attempt → Option Bindings
  | .table t => some t
  | _ => none

namespace Source

/-- What the `k`-th run comes to when the gate is initializing. -/
def attempt (source : Source) (k : Nat) : Attempt := (source k .initializing).2

/-- What the first `n` runs report, the latest first. -/
def reported (source : Source) : Nat → List Event
  | 0 => []
  | n + 1 => (source n .initializing).1.reverse ++ reported source n

/-- The first `n` runs all panic. -/
def Panics (source : Source) (n : Nat) : Prop := ∀ k < n, source.attempt k = .panic

variable {source : Source} {n : Nat}

theorem panics_zero : source.Panics 0 := by
  intro k hk
  omega

theorem Panics.succ (h : source.Panics n) (hn : source.attempt n = .panic) :
    source.Panics (n + 1) := by
  intro k hk
  rcases Nat.lt_succ_iff_lt_or_eq.mp hk with hk | rfl
  · exact h k hk
  · exact hn

/-- A run that does not panic is not among those that do. -/
theorem Panics.le_of_ne (h : source.Panics n) {k : Nat} (hk : source.attempt k ≠ .panic) :
    n ≤ k := by
  apply Nat.le_of_not_lt
  intro hlt
  exact hk (h k hlt)

/-- The runs that panic go on, or end with one that gives a table or fails. -/
theorem panics_or_ends (source : Source) (n : Nat) :
    source.Panics n ∨ ∃ k < n, source.Panics k ∧
      ((∃ t, source.attempt k = .table t) ∨ ∃ e, source.attempt k = .failure e) := by
  induction n with
  | zero => exact .inl panics_zero
  | succ n ih =>
    rcases ih with h | ⟨k, hk, hends⟩
    · cases hn : source.attempt n with
      | panic => exact .inl (h.succ hn)
      | table t => exact .inr ⟨n, by omega, h, .inl ⟨t, hn⟩⟩
      | failure e => exact .inr ⟨n, by omega, h, .inr ⟨e, hn⟩⟩
    · exact .inr ⟨k, by omega, hends⟩

end Source

/-! ## The sessions there are -/

namespace Session

variable (source : Source) (count : Int)

/-- The session after `n` uses that all panicked. -/
def waiting (n : Nat) : Session :=
  ⟨⟨⟨none, decide (0 < n)⟩, n, source.reported n⟩, count⟩

/-- The session once run `a` has given the table. -/
def settled (a : Nat) (t : Bindings) : Session :=
  ⟨⟨⟨some t, true⟩, a + 1, .resolved t :: source.reported (a + 1)⟩, count⟩

/-- The session that a failure of run `k` ends. -/
def ended (k : Nat) (e : BindingError) : Session :=
  ⟨⟨⟨none, true⟩, k + 1, .unresolved e :: source.reported (k + 1)⟩, count⟩

variable {source count}

theorem step_settled (a : Nat) (t : Bindings) (u : Use) :
    (settled source count a t).step source (.use u) =
      (u.answer t, settled source (u.effect t count) a t) := by
  cases u <;> rfl

/-- A use without a table is the next run of the source. -/
theorem step_waiting (n : Nat) (u : Use) :
    (waiting source count n).step source (.use u) =
      match source.attempt n with
      | .table t => (u.answer t, settled source (u.effect t count) n t)
      | .panic => (.panicked n, waiting source count (n + 1))
      | .failure e => (.aborted e, ended source count n e) := by
  have hrun : source n (Gate.stage ⟨none, true⟩) = ((source n .initializing).1, source.attempt n) :=
    rfl
  simp only [step, GateLog.enter, waiting]
  rw [hrun]
  cases source.attempt n with
  | table t => cases u <;> rfl
  | panic => simp [Source.reported]
  | failure e => rfl

/-! ## Runs -/

/-- The session after some steps, unless they end the process. -/
def after (source : Source) (s : Session) : List GateStep → Option Session
  | [] => some s
  | a :: rest =>
    match s.step source a with
    | (.aborted _, _) => none
    | (_, s') => after source s' rest

/-- Each entry of a run is the step from the session that the steps before it leave. -/
theorem run_getElem? (s : Session) (steps : List GateStep) (i : Nat) :
    (run source s steps)[i]? =
      steps[i]?.bind fun a => (after source s (steps.take i)).map fun s' => s'.step source a := by
  induction steps generalizing s i with
  | nil => rfl
  | cons a rest ih =>
    have hrun : run source s (a :: rest) = match s.step source a with
        | (.aborted e, s') => [(.aborted e, s')]
        | (r, s') => (r, s') :: run source s' rest := rfl
    have hafter : ∀ i, after source s ((a :: rest).take (i + 1)) = match s.step source a with
        | (.aborted _, _) => none
        | (_, s') => after source s' (rest.take i) := fun i => rfl
    rw [hrun]
    cases i with
    | zero =>
      show _ = some (s.step source a)
      rcases s.step source a with ⟨r, s'⟩
      cases r <;> rfl
    | succ i =>
      rw [hafter]
      rcases s.step source a with ⟨r, s'⟩
      cases r with
      | aborted e =>
        show none = rest[i]?.bind fun _ => none
        cases rest[i]? <;> rfl
      | got t => exact ih s' i
      | done => exact ih s' i
      | panicked k => exact ih s' i

theorem after_settled (a : Nat) (t : Bindings) (steps : List GateStep) :
    after source (settled source count a t) steps =
      some (settled source (Use.tally t count (GateStep.uses steps)) a t) := by
  induction steps generalizing count with
  | nil => rfl
  | cons step rest ih =>
    cases step with
    | look => exact ih
    | use u =>
      have hstep : after source (settled source count a t) (.use u :: rest) =
          after source (settled source (u.effect t count) a t) rest := by
        rw [after, step_settled]
        cases u <;> rfl
      rw [hstep, ih]
      rfl

/-- One more use that panics. -/
theorem after_panic {n : Nat} (h : source.attempt n = .panic) (u : Use) (rest : List GateStep) :
    after source (waiting source count n) (.use u :: rest) =
      after source (waiting source count (n + 1)) rest := by
  rw [after, step_waiting, h]

theorem uses_look (rest : List GateStep) : GateStep.uses (.look :: rest) = GateStep.uses rest := rfl

theorem uses_use (u : Use) (rest : List GateStep) :
    GateStep.uses (.use u :: rest) = u :: GateStep.uses rest := rfl

/-- Steps whose uses all panic.  Here and below the induction is on the steps, from any number `n`
of uses that were made before. -/
theorem after_panics {n : Nat} {steps : List GateStep}
    (h : source.Panics (n + (GateStep.uses steps).length)) :
    after source (waiting source count n) steps =
      some (waiting source count (n + (GateStep.uses steps).length)) := by
  induction steps generalizing n with
  | nil => rfl
  | cons step rest ih =>
    cases step with
    | look =>
      rw [uses_look] at h ⊢
      exact ih h
    | use u =>
      rw [uses_use, List.length_cons] at h ⊢
      have hn : n + ((GateStep.uses rest).length + 1) = n + 1 + (GateStep.uses rest).length := by
        omega
      rw [hn] at h ⊢
      rw [after_panic (h n (by omega))]
      exact ih h

/-- Steps among whose uses is the one that gets a table. -/
theorem after_table {n a : Nat} {t : Bindings} {steps : List GateStep} (hp : source.Panics a)
    (ha : source.attempt a = .table t) (hn : n ≤ a) (h : a < n + (GateStep.uses steps).length) :
    after source (waiting source count n) steps =
      some (settled source (Use.tally t count ((GateStep.uses steps).drop (a - n))) a t) := by
  induction steps generalizing n with
  | nil => exact absurd h (by simp [GateStep.uses]; omega)
  | cons step rest ih =>
    cases step with
    | look => exact ih hn h
    | use u =>
      rw [uses_use] at h ⊢
      rcases Nat.lt_or_eq_of_le hn with hlt | rfl
      · have hd : a - n = a - (n + 1) + 1 := by omega
        rw [after_panic (hp n hlt), hd, List.drop_succ_cons]
        rw [List.length_cons] at h
        exact ih hlt (by omega)
      · have hstep : after source (waiting source count n) (.use u :: rest) =
            after source (settled source (u.effect t count) n t) rest := by
          rw [after, step_waiting, ha]
          cases u <;> rfl
        rw [hstep, after_settled, Nat.sub_self]
        rfl

/-- Steps among whose uses is one that ends the process. -/
theorem after_failure {n k : Nat} {e : BindingError} {steps : List GateStep} (hp : source.Panics k)
    (hk : source.attempt k = .failure e) (hn : n ≤ k) (h : k < n + (GateStep.uses steps).length) :
    after source (waiting source count n) steps = none := by
  induction steps generalizing n with
  | nil => exact absurd h (by simp [GateStep.uses]; omega)
  | cons step rest ih =>
    cases step with
    | look => exact ih hn h
    | use u =>
      rw [uses_use, List.length_cons] at h
      rcases Nat.lt_or_eq_of_le hn with hlt | rfl
      · rw [after_panic (hp n hlt)]
        exact ih hlt (by omega)
      · rw [after, step_waiting, hk]

/-! ## Everything an entry can be -/

variable (source count) in
/-- What a step is and leaves, when these uses were made before it. -/
inductive Entry (before : List Use) : GateStep → StepResult × Session → Prop
  /-- Nobody has got a table. -/
  | looksWaiting (hp : source.Panics before.length) :
      Entry before .look (.done, waiting source count before.length)
  /-- The use panics. -/
  | panics {u} (hp : source.Panics (before.length + 1)) :
      Entry before (.use u) (.panicked before.length, waiting source count (before.length + 1))
  /-- The use ends the process. -/
  | fails {u e} (hp : source.Panics before.length)
      (hk : source.attempt before.length = .failure e) :
      Entry before (.use u) (.aborted e, ended source count before.length e)
  /-- The use gets the table. -/
  | gets {u t} (hp : source.Panics before.length)
      (ha : source.attempt before.length = .table t) :
      Entry before (.use u) (u.answer t, settled source (u.effect t count) before.length t)
  /-- There is a table. -/
  | looksSettled {a t} (hp : source.Panics a) (ha : source.attempt a = .table t)
      (hlt : a < before.length) :
      Entry before .look (.done, settled source (Use.tally t count (before.drop a)) a t)
  /-- The use finds the table. -/
  | finds {u a t} (hp : source.Panics a) (ha : source.attempt a = .table t)
      (hlt : a < before.length) :
      Entry before (.use u)
        (u.answer t, settled source (u.effect t (Use.tally t count (before.drop a))) a t)

theorem entry_waiting {before : List Use} (hp : source.Panics before.length) (step : GateStep) :
    Entry source count before step
      ((waiting source count before.length).step source step) := by
  cases step with
  | look => exact .looksWaiting hp
  | use u =>
    rw [step_waiting]
    cases hk : source.attempt before.length with
    | table t => exact .gets hp hk
    | panic => exact .panics (hp.succ hk)
    | failure e => exact .fails hp hk

theorem entry_settled {before : List Use} {a : Nat} {t : Bindings} (hp : source.Panics a)
    (ha : source.attempt a = .table t) (hlt : a < before.length) (step : GateStep) :
    Entry source count before step
      ((settled source (Use.tally t count (before.drop a)) a t).step source step) := by
  cases step with
  | look => exact .looksSettled hp ha hlt
  | use u =>
    rw [step_settled]
    exact .finds hp ha hlt

/-- The session before a step, if there is still a process. -/
theorem after_cases (source : Source) (count : Int) (steps : List GateStep) :
    (source.Panics (GateStep.uses steps).length ∧
      after source ⟨.fresh, count⟩ steps =
        some (waiting source count (GateStep.uses steps).length)) ∨
    (∃ a t, a < (GateStep.uses steps).length ∧ source.Panics a ∧ source.attempt a = .table t ∧
      after source ⟨.fresh, count⟩ steps =
        some (settled source (Use.tally t count ((GateStep.uses steps).drop a)) a t)) ∨
    ∃ k e, k < (GateStep.uses steps).length ∧ source.Panics k ∧ source.attempt k = .failure e ∧
      after source ⟨.fresh, count⟩ steps = none := by
  have hfresh : (⟨.fresh, count⟩ : Session) = waiting source count 0 := rfl
  rw [hfresh]
  rcases source.panics_or_ends (GateStep.uses steps).length with
    h | ⟨k, hk, hp, ⟨t, ht⟩ | ⟨e, he⟩⟩
  · left
    have hn : 0 + (GateStep.uses steps).length = (GateStep.uses steps).length := by omega
    rw [← hn] at h ⊢
    exact ⟨h, after_panics h⟩
  · exact .inr (.inl ⟨k, t, hk, hp, ht, after_table hp ht (by omega) (by omega)⟩)
  · exact .inr (.inr ⟨k, e, hk, hp, he, after_failure hp he (by omega) (by omega)⟩)

variable {steps : List GateStep} {i : Nat}

/-- What stands in a run is a step and what it leaves. -/
theorem entry_of_run {x : StepResult × Session}
    (hx : (run source ⟨.fresh, count⟩ steps)[i]? = some x) :
    ∃ step, steps[i]? = some step ∧
      Entry source count (GateStep.uses (steps.take i)) step x := by
  rw [run_getElem?] at hx
  obtain ⟨step, hstep, hx⟩ := Option.bind_eq_some_iff.mp hx
  obtain ⟨s, hs, rfl⟩ := Option.map_eq_some_iff.mp hx
  refine ⟨step, hstep, ?_⟩
  rcases after_cases source count (steps.take i) with
    ⟨hp, h⟩ | ⟨a, t, hlt, hp, ha, h⟩ | ⟨k, e, hlt, hp, hk, h⟩
  · cases hs.symm.trans h
    exact entry_waiting hp step
  · cases hs.symm.trans h
    exact entry_settled hp ha hlt step
  · cases hs.symm.trans h

/-- A step does not happen where an earlier use has ended the process. -/
theorem run_getElem?_eq_none (hi : i < steps.length) :
    (run source ⟨.fresh, count⟩ steps)[i]? = none ↔
      ∃ k e, k < (GateStep.uses (steps.take i)).length ∧ source.Panics k ∧
        source.attempt k = .failure e := by
  rw [run_getElem?, List.getElem?_eq_getElem hi, Option.bind_some, Option.map_eq_none_iff]
  rcases after_cases source count (steps.take i) with
    ⟨hp, h⟩ | ⟨a, t, hlt, hp, ha, h⟩ | ⟨k, e, hlt, hp, hk, h⟩
  · rw [h]
    refine iff_of_false nofun ?_
    rintro ⟨k, e, hlt, -, hk⟩
    rw [hp k hlt] at hk
    cases hk
  · rw [h]
    refine iff_of_false nofun ?_
    rintro ⟨k, e, -, hp', hk⟩
    have hle : a ≤ k := hp.le_of_ne (by rw [hk]; nofun)
    have hge : k ≤ a := hp'.le_of_ne (by rw [ha]; nofun)
    rw [Nat.le_antisymm hge hle, ha] at hk
    cases hk
  · exact iff_of_true h ⟨k, e, hlt, hp, hk⟩

/-! ## What follows for a script -/

theorem uses_take_succ {step : GateStep} (h : steps[i]? = some step) :
    GateStep.uses (steps.take (i + 1)) = GateStep.uses (steps.take i) ++ step.use?.toList := by
  unfold GateStep.uses
  rw [List.take_add_one, h, List.filterMap_append]
  cases step <;> rfl

theorem length_uses_take_mono {i j : Nat} (h : i ≤ j) :
    (GateStep.uses (steps.take i)).length ≤ (GateStep.uses (steps.take j)).length :=
  ((List.take_sublist_take_left h).filterMap _).length_le

theorem stage_waiting_ne (n : Nat) : (waiting source count n).log.gate.stage ≠ .ready := by
  unfold waiting Gate.stage
  cases n <;> simp

namespace Entry

variable {before : List Use} {step : GateStep} {x : StepResult × Session}

/-- Up to the first attempt that gives a table the gate is not ready and the count untouched. -/
theorem untouched (h : Entry source count before step x)
    (hnone : ∀ j ≤ before.length, (source.attempt j).table? = none) :
    x.2.log.gate.stage ≠ .ready ∧ x.2.count = count := by
  cases h with
  | looksWaiting hp | panics hp => exact ⟨stage_waiting_ne _, rfl⟩
  | fails hp hk => exact ⟨nofun, rfl⟩
  | gets hp ha =>
    have := hnone _ (Nat.le_refl _)
    rw [ha] at this
    cases this
  | looksSettled hp ha hlt | finds hp ha hlt =>
    have := hnone _ (Nat.le_of_lt hlt)
    rw [ha] at this
    cases this

/-- From the use that gets the first table on, that table is there. -/
theorem settled_of_table (h : Entry source count before step x) {a : Nat} {t : Bindings}
    (ha : source.attempt a = .table t) (hnone : ∀ j < a, (source.attempt j).table? = none)
    (hlt : a < (before ++ step.use?.toList).length) :
    x.2 = settled source (Use.tally t count ((before ++ step.use?.toList).drop a)) a t ∧
      ∀ u, step = .use u → x.1 = u.answer t := by
  have hne : source.attempt a ≠ .panic := by rw [ha]; nofun
  -- Runs that panic end at `a`, whichever entry this is.
  have hfirst : ∀ {b t'}, source.Panics b → source.attempt b = .table t' → b = a ∧ t' = t := by
    intro b t' hp hb
    have hle : b ≤ a := hp.le_of_ne hne
    have hge : a ≤ b := by
      apply Nat.le_of_not_lt
      intro hba
      have := hnone b hba
      rw [hb] at this
      cases this
    cases Nat.le_antisymm hle hge
    rw [hb] at ha
    exact ⟨rfl, Attempt.table.inj ha⟩
  cases h with
  | looksWaiting hp =>
    have hlt' : a < before.length := by simpa [GateStep.use?] using hlt
    exact absurd (hp a hlt') hne
  | panics hp =>
    have hlt' : a < before.length + 1 := by simpa [GateStep.use?] using hlt
    exact absurd (hp a hlt') hne
  | fails hp hk =>
    have hlt' : a < before.length + 1 := by simpa [GateStep.use?] using hlt
    have hle := hp.le_of_ne hne
    cases Nat.le_antisymm hle (Nat.le_of_lt_succ hlt')
    rw [hk] at ha
    cases ha
  | gets hp hb =>
    obtain ⟨rfl, rfl⟩ := hfirst hp hb
    rw [List.drop_left]
    refine ⟨rfl, ?_⟩
    rintro u' ⟨⟩
    rfl
  | looksSettled hp hb hlt' =>
    obtain ⟨rfl, rfl⟩ := hfirst hp hb
    simp only [GateStep.use?, Option.toList_none, List.append_nil]
    exact ⟨trivial, nofun⟩
  | finds hp hb hlt' =>
    obtain ⟨rfl, rfl⟩ := hfirst hp hb
    rw [List.drop_append_of_le_length (Nat.le_of_lt hlt')]
    refine ⟨?_, ?_⟩
    · show settled _ _ _ _ = settled _ (Use.tally _ _ (_ ++ [_])) _ _
      rw [Use.tally_append]
    · rintro u' ⟨⟩
      rfl

end Entry

/-- The session that a step finds. -/
theorem sessions_getElem? (s s' : Session) (steps : List GateStep) {i : Nat}
    (hi : i ≤ steps.length) (h : after source s (steps.take i) = some s') :
    (s :: (run source s steps).map Prod.snd)[i]? = some s' := by
  induction steps generalizing s i with
  | nil =>
    cases Nat.le_zero.mp hi
    exact h
  | cons a rest ih =>
    cases i with
    | zero => exact h
    | succ i =>
      rw [List.take_succ_cons, after] at h
      rw [List.getElem?_cons_succ, run]
      generalize s.step source a = x at h ⊢
      obtain ⟨r, s₁⟩ := x
      cases r with
      | aborted e => cases h
      | got t => exact ih s₁ (Nat.le_of_succ_le_succ hi) h
      | done => exact ih s₁ (Nat.le_of_succ_le_succ hi) h
      | panicked k => exact ih s₁ (Nat.le_of_succ_le_succ hi) h

/-- A look finds a session and leaves it. -/
theorem look_of_run {x : StepResult × Session} (hstep : steps[i]? = some .look)
    (hx : (run source ⟨.fresh, count⟩ steps)[i]? = some x) :
    x.1 = .done ∧
      ((⟨.fresh, count⟩ : Session) :: (run source ⟨.fresh, count⟩ steps).map Prod.snd)[i]? =
        some x.2 := by
  rw [run_getElem?, hstep, Option.bind_some] at hx
  obtain ⟨s, hs, rfl⟩ := Option.map_eq_some_iff.mp hx
  have hi : i < steps.length := (List.getElem?_eq_some_iff.mp hstep).1
  exact ⟨rfl, sessions_getElem? _ _ _ (Nat.le_of_lt hi) hs⟩

/-- Nothing follows an entry that ends the process. -/
theorem length_of_aborted {x : StepResult × Session} {e : BindingError}
    (hx : (run source ⟨.fresh, count⟩ steps)[i]? = some x) (he : x.1 = .aborted e) :
    (run source ⟨.fresh, count⟩ steps).length = i + 1 := by
  have hlt : i < (run source ⟨.fresh, count⟩ steps).length :=
    (List.getElem?_eq_some_iff.mp hx).1
  have hnone : (run source ⟨.fresh, count⟩ steps)[i + 1]? = none := by
    obtain ⟨step, hstep, hentry⟩ := entry_of_run hx
    by_cases hi : i + 1 < steps.length
    · refine (run_getElem?_eq_none hi).mpr ?_
      rw [uses_take_succ hstep]
      cases hentry with
      | fails hp hk => exact ⟨_, _, by simp [GateStep.use?], hp, hk⟩
      | looksWaiting | panics | looksSettled => cases he
      | gets | finds => exact absurd he (Use.answer_ne_aborted _ _ _)
    · rw [run_getElem?, List.getElem?_eq_none (by omega)]
      rfl
  have hle := List.getElem?_eq_none_iff.mp hnone
  omega

end Session

/-! ## A script -/

/-- The run of a scripted source that an event tells of, and the stage which that run saw. -/
def Event.run? : Event → Option (Nat × Stage)
  | .resolving k inside => some (k, inside)
  | _ => none

/-- The runs of a scripted source that were reported, in order. -/
def GateLog.runs (g : GateLog) : List (Nat × Stage) := g.events.reverse.filterMap Event.run?

namespace Session

variable {attempts : Nat → Attempt} {count : Int} {steps : List GateStep} {i : Nat}

theorem runs_reported (attempts : Nat → Attempt) (n : Nat) :
    ((scripted attempts).reported n).reverse.filterMap Event.run? =
      (List.range n).map fun k => (k, .initializing) := by
  induction n with
  | zero => rfl
  | succ n ih =>
    have hlast : (scripted attempts).reported (n + 1) =
        .resolving n .initializing :: (scripted attempts).reported n := rfl
    rw [hlast, List.reverse_cons, List.filterMap_append, ih, List.range_succ, List.map_append]
    rfl

/-- The runs of a scripted source are those that are counted, and each saw the gate initializing. -/
theorem Entry.runs_eq {before : List Use} {step : GateStep} {x : StepResult × Session}
    (h : Entry (scripted attempts) count before step x) :
    x.2.log.runs = (List.range x.2.log.calls).map fun k => (k, .initializing) := by
  -- What ends a run of the source is reported last and is no run itself.
  have hlast : ∀ event n, Event.run? event = none →
      (event :: (scripted attempts).reported n).reverse.filterMap Event.run? =
        (List.range n).map fun k => (k, .initializing) := by
    intro event n hevent
    rw [List.reverse_cons, List.filterMap_append, runs_reported,
      List.filterMap_cons_none hevent, List.filterMap_nil, List.append_nil]
  cases h with
  | looksWaiting | panics => exact runs_reported attempts _
  | fails | gets | looksSettled | finds => exact hlast _ _ rfl

/-- The first attempt that does not panic decides whether a later step happens. -/
theorem run_scripted_eq_none (hi : i < steps.length) :
    (run (scripted attempts) ⟨.fresh, count⟩ steps)[i]? = none ↔
      ∃ k e, k < (GateStep.uses (steps.take i)).length ∧ attempts k = .failure e ∧
        ∀ j < k, (attempts j).table? = none := by
  rw [run_getElem?_eq_none hi]
  constructor
  · rintro ⟨k, e, hlt, hp, hk⟩
    refine ⟨k, e, hlt, hk, ?_⟩
    intro j hj
    have hpanic : attempts j = .panic := hp j hj
    rw [hpanic]
    rfl
  · rintro ⟨k, e, hlt, hk, hnone⟩
    rcases (scripted attempts).panics_or_ends (k + 1) with
      h | ⟨k', hk', hp, ⟨t, ht⟩ | ⟨e', he'⟩⟩
    · have hpanic : attempts k = .panic := h k (Nat.lt_succ_self k)
      rw [hpanic] at hk
      cases hk
    · have ht' : attempts k' = .table t := ht
      rcases Nat.lt_succ_iff_lt_or_eq.mp hk' with hlt' | rfl
      · have := hnone k' hlt'
        rw [ht'] at this
        cases this
      · rw [ht'] at hk
        cases hk
    · exact ⟨k', e', by omega, hp, he'⟩

/-- **The uses of one caller follow the script.** The gate is fresh, and the count is anything.  A
step happens unless an earlier use met a failure before any table.  Up to the first attempt that
gives a table the `k`-th use is the `k`-th attempt: with a panic it fails and changes nothing but
the gate, which is initializing; with a failure it is the last step, the gate was never ready and
no entry point was called.  From then on the source is not run again, the gate is ready, every use
has this table, and the count is what the functions of the table made of it, a sum where they add.
A look gives nothing and changes nothing.  Each run of the source saw the gate initializing. -/
theorem uses_follow_script (attempts : Nat → Attempt) (count : Int) (steps : List GateStep) :
    let results := run (scripted attempts) ⟨.fresh, count⟩ steps
    let before := fun i => GateStep.uses (steps.take i)
    (∀ i < steps.length, results[i]? = none ↔ ∃ k e, k < (before i).length ∧
      attempts k = .failure e ∧ ∀ j < k, (attempts j).table? = none) ∧
    (∀ i u k r s, steps[i]? = some (.use u) → (before i).length = k →
      (∀ j ≤ k, (attempts j).table? = none) → results[i]? = some (r, s) →
        s.log.calls = k + 1 ∧ s.log.gate.stage = .initializing ∧ s.count = count ∧
        (attempts k = .panic ∧ r = .panicked k ∨
          ∃ e, attempts k = .failure e ∧ r = .aborted e ∧ results.length = i + 1 ∧
            ∀ x ∈ results, x.2.log.gate.stage ≠ .ready ∧ x.2.count = count)) ∧
    (∀ a t, attempts a = .table t → (∀ j < a, (attempts j).table? = none) →
      ∀ i step r s, steps[i]? = some step → a < (before (i + 1)).length →
        results[i]? = some (r, s) →
          s.log.calls = a + 1 ∧ s.log.gate.stage = .ready ∧ s.log.gate.table? = some t ∧
          (∀ u, step = .use u → r = u.answer t) ∧
          s.count = Use.tally t count ((before (i + 1)).drop a) ∧
          ∀ up down, (∀ c n, t.retain.effect c n = c + up n) →
            (∀ c n, t.release.effect c n = c + down n) →
              s.count = count + (((before (i + 1)).drop a).map (Use.change up down)).sum) ∧
    (∀ (i : Nat) r s, steps[i]? = some .look → results[i]? = some (r, s) →
      r = .done ∧ ((⟨.fresh, count⟩ : Session) :: results.map Prod.snd)[i]? = some s) ∧
    ∀ x ∈ results, x.2.log.runs = (List.range x.2.log.calls).map fun k => (k, .initializing) := by
  intro results before
  refine ⟨fun i hi => run_scripted_eq_none hi, ?_, ?_, ?_, ?_⟩
  · intro i u k r s hstep hk hnone hx
    obtain ⟨step, hstep', hentry⟩ := entry_of_run hx
    cases hstep.symm.trans hstep'
    subst hk
    cases hentry with
    | panics hp => exact ⟨rfl, rfl, rfl, .inl ⟨hp _ (Nat.lt_succ_self _), rfl⟩⟩
    | fails hp he =>
      refine ⟨rfl, rfl, rfl, .inr ⟨_, he, rfl, length_of_aborted hx rfl, ?_⟩⟩
      intro x hmem
      obtain ⟨j, hj⟩ := List.mem_iff_getElem?.mp hmem
      obtain ⟨step, -, hentry⟩ := entry_of_run hj
      have hji : j ≤ i := by
        have hlt : j < results.length := (List.getElem?_eq_some_iff.mp hj).1
        have hlength : results.length = i + 1 := length_of_aborted hx rfl
        omega
      refine hentry.untouched ?_
      intro l hl
      exact hnone l (Nat.le_trans hl (length_uses_take_mono hji))
    | gets hp ha =>
      have := hnone _ (Nat.le_refl _)
      rw [show attempts _ = .table _ from ha] at this
      cases this
    | finds hp ha hlt =>
      have := hnone _ (Nat.le_of_lt hlt)
      rw [show attempts _ = .table _ from ha] at this
      cases this
  · intro a t ha hnone i step r s hstep hlt hx
    obtain ⟨step', hstep', hentry⟩ := entry_of_run hx
    cases hstep.symm.trans hstep'
    have hbefore : before (i + 1) = before i ++ step.use?.toList := uses_take_succ hstep
    rw [hbefore] at hlt ⊢
    obtain ⟨hs, hr⟩ := hentry.settled_of_table ha hnone hlt
    dsimp only at hs hr
    rw [hs]
    refine ⟨rfl, rfl, rfl, hr, rfl, ?_⟩
    intro up down hup hdown
    exact Use.tally_eq_sum hup hdown count _
  · intro i r s hstep hx
    exact look_of_run hstep hx
  · intro x hmem
    obtain ⟨i, hi⟩ := List.mem_iff_getElem?.mp hmem
    obtain ⟨step, -, hentry⟩ := entry_of_run hi
    exact hentry.runs_eq

/-- Entry points that count down where they should count up, and the other way round. -/
def swapped : Bindings :=
  ⟨⟨2, fun count n => count - n.toNat⟩, ⟨1, fun count n => count + n.toNat⟩⟩

/-- A panic, then a table. -/
def secondTable (k : Nat) : Attempt := if k = 0 then .panic else .table swapped

/-- The first use panics, and the others have the table of the second attempt; the last step stands
after retaining 5 and releasing 2 on a count of 10. -/
theorem uses_follow_script_swapped :
    ∃ r s, (run (scripted secondTable) ⟨.fresh, 10⟩
        [.look, .use (.retain 1), .look, .use (.retain 5), .use .get, .use (.release 2)])[5]? =
          some (r, s) ∧
      s.log.calls = 2 ∧ s.log.gate.stage = .ready ∧ r = .done ∧ s.count = 7 ∧
      s.log.runs = [(0, .initializing), (1, .initializing)] := by
  obtain ⟨-, -, htable, -, hruns⟩ := uses_follow_script secondTable 10
    [.look, .use (.retain 1), .look, .use (.retain 5), .use .get, .use (.release 2)]
  have hnone : ∀ j < 1, (secondTable j).table? = none := by
    intro j hj
    rw [Nat.lt_one_iff.mp hj]
    rfl
  obtain ⟨hcalls, hstage, -, hanswer, -, hsum⟩ :=
    htable 1 swapped rfl hnone 5 _ _ _ rfl (by decide) rfl
  refine ⟨_, _, rfl, hcalls, hstage, hanswer _ rfl, ?_, ?_⟩
  · exact hsum (fun n => -n.toNat) (fun n => n.toNat) (fun c n => rfl) (fun c n => rfl)
  · exact hruns _ (List.mem_of_getElem? (i := 5) rfl)

end Session

end OrderedAtomics.Binding
