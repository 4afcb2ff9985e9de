import OrderedAtomics.Proofs.Binding.OneCaller

/-
  The entry points of a process share one gate.  The source that searches a loaded module comes to
  the same at each run, so a process is one of two: where the names resolve, the first call of any
  entry point is the one resolution there is (`entry_resolved`), and where they do not, it is
  the last thing the process does (`entry_unresolved`).  Which entry point is called only
  decides whether the count goes up or down.
-/
namespace OrderedAtomics.Binding

/-- What a process does: it calls an entry point on a count, or asks how far its gate is. -/
inductive ProcessStep where
  | call (p : EntryPoint) (n : UInt32)
  | query

namespace ProcessStep

/-- What the step is to the gate. -/
def toGateStep : ProcessStep → GateStep
  | .call p n => .use (p.use n)
  | .query => .look

/-- Whether the step calls an entry point. -/
def isCall : ProcessStep → Bool
  | .call _ _ => true
  | .query => false

/-- What the step is to add to the count. -/
def change : ProcessStep → Int
  | .call .retain n | .call .foreignRetain n => n.toNat
  | .call .release n | .call .foreignRelease n => -n.toNat
  | .query => 0

/-- The uses of the gate among some steps. -/
def uses (steps : List ProcessStep) : List Use := GateStep.uses (steps.map toGateStep)

theorem uses_call (p : EntryPoint) (n : UInt32) (steps : List ProcessStep) :
    uses (.call p n :: steps) = p.use n :: uses steps := rfl

theorem uses_query (steps : List ProcessStep) : uses (.query :: steps) = uses steps := rfl

theorem length_uses_pos {steps : List ProcessStep} :
    0 < (uses steps).length ↔ steps.any isCall = true := by
  induction steps with
  | nil => simp [uses, GateStep.uses]
  | cons step steps ih =>
    cases step with
    | call p n => simp [uses_call, isCall]
    | query =>
      rw [uses_query, ih]
      simp [isCall]

/-- What the uses change is what the steps are to add, where the functions count. -/
theorem sum_change_uses (steps : List ProcessStep) :
    ((uses steps).map (Use.change (fun n => n.toNat) fun n => -n.toNat)).sum =
      (steps.map change).sum := by
  induction steps with
  | nil => rfl
  | cons step steps ih =>
    cases step with
    | call p n =>
      rw [uses_call, List.map_cons, List.sum_cons, ih, List.map_cons, List.sum_cons]
      cases p <;> rfl
    | query =>
      rw [uses_query, ih, List.map_cons, List.sum_cons]
      simp [change]

end ProcessStep

namespace Session

variable {l : Loader} {m : BindingRequest} {t : Bindings} {e : BindingError} {count : Int}
  {before : List Use} {step : GateStep} {x : StepResult × Session}

theorem attempt_resolved (h : l.resolve m = .ok t) (k : Nat) :
    (l.source m).attempt k = .table t := by
  unfold Source.attempt Loader.source
  rw [h]

theorem attempt_unresolved (h : l.resolve m = .error e) (k : Nat) :
    (l.source m).attempt k = .failure e := by
  unfold Source.attempt Loader.source
  rw [h]

/-- A search never panics, so no run of the source comes before the one that decides. -/
theorem panics_source {n : Nat} (hp : (l.source m).Panics n) : n = 0 := by
  have hne : (l.source m).attempt 0 ≠ .panic := by
    unfold Source.attempt Loader.source
    cases l.resolve m <;> nofun
  have hle := hp.le_of_ne hne
  omega

/-- Where the names resolve, the first use resolves them and all later ones find the table. -/
theorem entry_resolved (h : l.resolve m = .ok t) (hentry : Entry (l.source m) count before step x) :
    let uses := before ++ step.use?.toList
    x.2.log.gate.stage = (if 0 < uses.length then .ready else .uninitialized) ∧
      x.2.log.events = (if 0 < uses.length then [.resolved t, .attaching m] else []) ∧
      x.1 = (match step with
        | .look => .done
        | .use u => u.answer t) ∧
      x.2.count = Use.tally t count uses := by
  intro uses
  by_cases hlt : 0 < uses.length
  · obtain ⟨hs, hr⟩ := hentry.settled_of_table (attempt_resolved h 0) nofun hlt
    rw [hs, if_pos hlt, if_pos hlt]
    refine ⟨rfl, rfl, ?_, rfl⟩
    cases step with
    | look => cases hentry <;> rfl
    | use u => exact hr u rfl
  · rw [if_neg hlt, if_neg hlt]
    have hnil : uses = [] := List.length_eq_zero_iff.mp (by omega)
    obtain ⟨rfl, huse⟩ := List.append_eq_nil_iff.mp hnil
    cases step with
    | use u => cases huse
    | look =>
      cases hentry with
      | looksWaiting hp => exact ⟨rfl, rfl, rfl, rfl⟩
      | looksSettled hp ha hlt' => cases hlt'

/-- Where the names do not resolve, the first use is the last step. -/
theorem entry_unresolved (h : l.resolve m = .error e)
    (hentry : Entry (l.source m) count before step x) :
    before = [] ∧ x.2.count = count ∧
      match step with
      | .look => x.1 = .done ∧ x.2.log.gate.stage = .uninitialized ∧ x.2.log.events = []
      | .use _ => x.1 = .aborted e ∧ x.2.log.gate.stage = .initializing ∧
          x.2.log.events = [.unresolved e, .attaching m] := by
  cases hentry with
  | looksWaiting hp =>
    cases List.length_eq_zero_iff.mp (panics_source hp)
    exact ⟨rfl, rfl, rfl, rfl, rfl⟩
  | panics hp => exact absurd (panics_source hp) (Nat.succ_ne_zero _)
  | fails hp hk =>
    cases List.length_eq_zero_iff.mp (panics_source hp)
    rw [attempt_unresolved h] at hk
    cases hk
    exact ⟨rfl, rfl, rfl, rfl, rfl⟩
  | gets hp ha | looksSettled hp ha | finds hp ha =>
    rw [attempt_unresolved h] at ha
    cases ha

end Session

/-! ## The process -/

namespace ProcessStep

/-- What the gate sees of the steps up to the `i`-th. -/
theorem uses_take_succ {steps : List ProcessStep} {i : Nat} {step : ProcessStep}
    (h : steps[i]? = some step) :
    uses (steps.take (i + 1)) =
      GateStep.uses ((steps.map toGateStep).take i) ++ step.toGateStep.use?.toList := by
  have hstep : (steps.map toGateStep)[i]? = some step.toGateStep := by
    rw [List.getElem?_map, h]
    rfl
  unfold uses
  rw [List.map_take, Session.uses_take_succ hstep]

theorem answer_call (t : Bindings) (p : EntryPoint) (n : UInt32) : (p.use n).answer t = .done := by
  cases p <;> rfl

end ProcessStep

/-- **The entry points share one resolution.** A process calls its entry points, in any order, on
a count, and asks how far the gate is; `m` is what is configured.  Where the names resolve, every
step happens.  The gate is uninitialized up to the first call, whichever entry point that is of,
and ready from then on; what is reported is one search and one table, all with that call.  Each
call applies the function of its name, so that where these count, the count has moved by all that
was retained less all that was released.  Where the names do not resolve, the first call reports
one search and one error and ends the process, and the count is untouched. -/
theorem entry_points_share_resolution (l : Loader) (m : BindingRequest) (count : Int)
    (steps : List ProcessStep) :
    let results := Session.run (l.source m) ⟨.fresh, count⟩ (steps.map ProcessStep.toGateStep)
    let called := fun i => (steps.take i).any ProcessStep.isCall
    ∀ i step, steps[i]? = some step →
      match l.resolve m with
      | .ok t => ∃ s, results[i]? = some (.done, s) ∧
          s.log.gate.stage = (if called (i + 1) then .ready else .uninitialized) ∧
          s.log.events = (if called (i + 1) then [.resolved t, .attaching m] else []) ∧
          s.count = Use.tally t count (ProcessStep.uses (steps.take (i + 1))) ∧
          ((∀ c n, t.retain.effect c n = c + n.toNat) →
            (∀ c n, t.release.effect c n = c - n.toNat) →
              s.count = count + ((steps.take (i + 1)).map ProcessStep.change).sum)
      | .error e =>
        if called i then results[i]? = none
        else ∃ r s, results[i]? = some (r, s) ∧ s.count = count ∧
          match step with
          | .query => r = .done ∧ s.log.gate.stage = .uninitialized ∧ s.log.events = []
          | .call _ _ => r = .aborted e ∧ s.log.events = [.unresolved e, .attaching m] := by
  intro results called i step hi
  have hlt : i < (steps.map ProcessStep.toGateStep).length := by
    rw [List.length_map]
    exact (List.getElem?_eq_some_iff.mp hi).1
  have hstep : (steps.map ProcessStep.toGateStep)[i]? = some step.toGateStep := by
    rw [List.getElem?_map, hi]
    rfl
  have hcalled : ∀ j, called j = decide (0 < (ProcessStep.uses (steps.take j)).length) := by
    intro j
    rw [Bool.eq_iff_iff, decide_eq_true_iff]
    exact ProcessStep.length_uses_pos.symm
  cases hresolve : l.resolve m with
  | ok t =>
    have hsome : results[i]? ≠ none := by
      intro hnone
      obtain ⟨k, e, -, -, hk⟩ := (Session.run_getElem?_eq_none hlt).mp hnone
      rw [Session.attempt_resolved hresolve] at hk
      cases hk
    obtain ⟨x, hx⟩ := Option.ne_none_iff_exists'.mp hsome
    obtain ⟨step', hstep', hentry⟩ := Session.entry_of_run hx
    cases hstep.symm.trans hstep'
    obtain ⟨hstage, hevents, hr, hcount⟩ := Session.entry_resolved hresolve hentry
    rw [← ProcessStep.uses_take_succ hi] at hstage hevents hcount
    have hdone : x.1 = .done := by
      rw [hr]
      cases step with
      | call p n => exact ProcessStep.answer_call t p n
      | query => rfl
    refine ⟨x.2, ?_, ?_, ?_, hcount, ?_⟩
    · rw [hx, ← hdone]
    · simpa [hcalled] using hstage
    · simpa [hcalled] using hevents
    · intro hretain hrelease
      have hdown : ∀ (c : Int) (n : UInt32), t.release.effect c n = c + -(n.toNat : Int) := by
        intro c n
        rw [hrelease]
        omega
      rw [hcount, Use.tally_eq_sum hretain hdown, ProcessStep.sum_change_uses]
  | error e =>
    dsimp only
    split
    · rename_i h
      refine (Session.run_getElem?_eq_none hlt).mpr ⟨0, e, ?_, Source.panics_zero, ?_⟩
      · rw [← List.map_take]
        exact ProcessStep.length_uses_pos.mpr h
      · exact Session.attempt_unresolved hresolve 0
    · rename_i h
      have hsome : results[i]? ≠ none := by
        intro hnone
        obtain ⟨k, e', hk, -, -⟩ := (Session.run_getElem?_eq_none hlt).mp hnone
        rw [← List.map_take] at hk
        exact h (ProcessStep.length_uses_pos.mp (by unfold ProcessStep.uses; omega))
      obtain ⟨x, hx⟩ := Option.ne_none_iff_exists'.mp hsome
      obtain ⟨step', hstep', hentry⟩ := Session.entry_of_run hx
      cases hstep.symm.trans hstep'
      obtain ⟨-, hcount, hrest⟩ := Session.entry_unresolved hresolve hentry
      refine ⟨x.1, x.2, hx, hcount, ?_⟩
      cases step with
      | query => exact hrest
      | call p n => exact ⟨hrest.1, hrest.2.2⟩

/-- Functions that count up and down. -/
def countingBindings : Bindings :=
  ⟨⟨1, fun count n => count + n.toNat⟩, ⟨2, fun count n => count - n.toNat⟩⟩

/-- A process that exports them under the configured names. -/
def countingLoader : Loader where
  resident? _ := none
  globalExports name :=
    if name = "rt_retain_n" then some countingBindings.retain
    else if name = "rt_release_n" then some countingBindings.release
    else none

/-- A process that exports nothing. -/
def silentLoader : Loader := ⟨fun _ => none, fun _ => none⟩

/-- A question, a release, and then calls of all entry points. -/
def mixedCalls : List ProcessStep :=
  [.query, .call .foreignRelease 2, .call .retain 7, .query, .call .release 1,
    .call .foreignRetain 3]

/-- With the functions the count ends at 7, resolved by the first release; without them that
release ends the process. -/
theorem entry_points_share_resolution_mixed :
    (∃ s, (Session.run (processSource countingLoader) .fresh
        (mixedCalls.map ProcessStep.toGateStep))[5]? = some (.done, s) ∧
      s.log.gate.stage = .ready ∧
      s.log.events = [.resolved countingBindings, .attaching .configured] ∧ s.count = 7) ∧
    ∃ r s, (Session.run (processSource silentLoader) .fresh
        (mixedCalls.map ProcessStep.toGateStep))[1]? = some (r, s) ∧ s.count = 0 ∧
      r = .aborted (.missingSymbol "rt_retain_n") ∧
      s.log.events = [.unresolved (.missingSymbol "rt_retain_n"), .attaching .configured] := by
  have hcounting : countingLoader.resolve .configured = .ok countingBindings := by rfl
  have hsilent : silentLoader.resolve .configured = .error (.missingSymbol "rt_retain_n") := by rfl
  constructor
  · have h := entry_points_share_resolution countingLoader .configured 0 mixedCalls 5 _ rfl
    rw [hcounting] at h
    obtain ⟨s, hs, hstage, hevents, -, hsum⟩ := h
    exact ⟨s, hs, hstage, hevents, hsum (fun c n => rfl) fun c n => rfl⟩
  · have h := entry_points_share_resolution silentLoader .configured 0 mixedCalls 1 _ rfl
    rw [hsilent] at h
    exact h

end OrderedAtomics.Binding
