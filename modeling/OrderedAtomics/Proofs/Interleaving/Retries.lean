import OrderedAtomics.Proofs.Interleaving.Course
import Mathlib.Algebra.BigOperators.Fin
import Mathlib.Algebra.Order.BigOperators.Group.Finset

/-
  Retries are paid for by the progress of other threads.  A thread can only fail when the value it
  holds is not the stored one any more; then it is stale, which costs one change by another thread,
  and after failing it is not (`Thread.Goes.stale`).  So the failures of a thread, and one more if
  it is stale, are at most as many as the changes by others (`Paid`, kept by every step).  Summed up
  over the threads this bounds all failures by the changes, these by the calls, and so the length of
  a run (`Accounts.length_le`), and threads that lose no turns come to an end.
-/
namespace OrderedAtomics

/-! ## Who pays -/

namespace Trace

/-- How often an exchange has failed. -/
def failures (tr : Trace) : Nat := tr.countP fun x => x.2 = .misses

/-- How often an exchange has changed the value. -/
def changes (tr : Trace) : Nat := tr.countP fun x => x.2 = .lands true

/-- How often exchanges of other threads have changed the value. -/
def foreignChanges (i : Nat) (tr : Trace) : Nat :=
  tr.countP fun x => x.1 ≠ i ∧ x.2 = .lands true

theorem foreignChanges_concat_self (i : Nat) (tr : Trace) (e : Event) :
    foreignChanges i (tr ++ [(i, e)]) = foreignChanges i tr := by
  simp [foreignChanges]

theorem foreignChanges_concat_other {i j : Nat} (h : i ≠ j) (tr : Trace) (e : Event) :
    foreignChanges j (tr ++ [(i, e)]) =
      foreignChanges j tr + if e = .lands true then 1 else 0 := by
  simp [foreignChanges, h, List.countP_append, List.countP_singleton]

end Trace

namespace Thread

variable {α : Type} [Codec α] {t t' : Thread α} {v v' : α} {e : Event}

/-- One if the thread holds a value that is not the stored one any more. -/
def stale (t : Thread α) (v : α) : Nat :=
  match t.place with
  | .start => 0
  | .read current | .computed current _ => if v = current then 0 else 1

theorem stale_le (t : Thread α) (v : α) : t.stale v ≤ 1 := by
  unfold stale
  split
  · omega
  all_goals split <;> omega

/-- A failure is paid for by what made the thread stale. -/
theorem Goes.stale (h : t.Goes v e t' v') :
    t'.stale v' + (if e = .misses then 1 else 0) ≤ t.stale v := by
  cases h with
  | loads | declines | proposes | lands => simp [Thread.stale]
  | misses hv => simp [Thread.stale, hv]

theorem Goes.value (h : t.Goes v e t' v') : v' = v ∨ e = .lands true := by
  cases h with
  | loads | declines | proposes | misses => exact .inl rfl
  | lands => simpa using Decidable.em _

end Thread

/-! ## All threads -/

namespace Trace

theorem foreignChanges_add_own (i : Nat) (tr : Trace) :
    tr.foreignChanges i + (tr.own i).count (.lands true) = tr.changes := by
  unfold changes
  induction tr using List.reverseRecOn with
  | nil => rfl
  | append_singleton tr x ih =>
    obtain ⟨j, e⟩ := x
    have hlast : List.countP (fun x : Nat × Event => x.2 = .lands true) [(j, e)] =
        if e = .lands true then 1 else 0 := by
      simp [List.countP_singleton]
    rw [List.countP_append, hlast, ← ih]
    by_cases hj : j = i
    · rw [hj, foreignChanges_concat_self, own_concat_self, List.count_append, List.count_singleton]
      simp only [beq_iff_eq, Nat.add_assoc]
    · rw [foreignChanges_concat_other hj, own_concat_other hj]
      omega

/-- The events of a run are those of its threads. -/
theorem sum_own {n : Nat} {tr : Trace} (h : ∀ x ∈ tr, x.1 < n) (p : Event → Bool) :
    ∑ i : Fin n, (tr.own i).countP p = tr.countP fun x => p x.2 := by
  induction tr using List.reverseRecOn with
  | nil => simp [own]
  | append_singleton tr x ih =>
    obtain ⟨j, e⟩ := x
    have hj : j < n := h (j, e) List.mem_concat_self
    -- of the terms of the sum, only that of thread `j` sees the event
    have hconcat : ∀ i : Fin n, (own i (tr ++ [(j, e)])).countP p =
        (own i tr).countP p + if i = ⟨j, hj⟩ then [e].countP p else 0 := by
      intro i
      by_cases hi : i = ⟨j, hj⟩
      · rw [if_pos hi, hi, own_concat_self, List.countP_append]
      · have hne : j ≠ i := fun heq => hi (Fin.ext heq.symm)
        rw [if_neg hi, own_concat_other hne, Nat.add_zero]
    rw [Finset.sum_congr rfl fun i _ => hconcat i, Finset.sum_add_distrib,
      ih fun x hx => h x (List.mem_append_left _ hx), Finset.sum_ite_eq',
      if_pos (Finset.mem_univ _), List.countP_append]
    rfl

end Trace

namespace Machine

variable {α : Type} [Codec α] {m m' : Machine α} {i : Nat} {e : Event} {tr : Trace}
  {programs : List (List (Call α))}

/-- The failures of each thread are paid for by others, and so is the next one where it may fail. -/
def Paid (m : Machine α) (tr : Trace) : Prop :=
  ∀ i t, m.threads[i]? = some t →
    (tr.own i).count .misses + t.stale m.storage.dispose ≤ tr.foreignChanges i

theorem Paid.set (hm : m.Paid tr) {t t' : Thread α} (ht : m.threads[i]? = some t)
    {s' : Storage α} (h : t.Goes m.storage.dispose e t' s'.dispose) :
    Paid ⟨s', m.threads.set i t'⟩ (tr ++ [(i, e)]) := by
  intro j u hu
  rcases getElem?_set_cases hu with ⟨rfl, rfl⟩ | ⟨hne, hu⟩
  · have hold := hm j t ht
    have hstale := h.stale
    rw [Trace.own_concat_self, Trace.foreignChanges_concat_self, List.count_append,
      List.count_singleton]
    simp only [beq_iff_eq]
    omega
  · -- another thread gets stale, if at all, by a change that it has not made
    have hold := hm j u hu
    rw [Trace.own_concat_other (Ne.symm hne), Trace.foreignChanges_concat_other (Ne.symm hne)]
    dsimp only
    rcases h.value with hvalue | rfl
    · rw [hvalue]
      omega
    · have hone := u.stale_le s'.dispose
      rw [if_pos rfl]
      omega

/-- What holds of threads that make retry loops, and of all that has happened. -/
structure Accounts (programs : List (List (Call α))) (m : Machine α) (tr : Trace) : Prop where
  retries : m.Issues Call.Retries
  threads : m.threads.length = programs.length
  events : ∀ x ∈ tr, x.1 < programs.length
  paid : m.Paid tr
  courses : ∀ i calls t, programs[i]? = some calls → m.threads[i]? = some t →
    ∃ loops k, Course calls t loops k (tr.own i)

theorem accounts_init (s : Storage α) (h : ∀ call ∈ programs.flatten, call.Retries) :
    Accounts programs (init s programs) [] := by
  have hthread : ∀ (i : Nat) (t : Thread α), (init s programs).threads[i]? = some t →
      ∃ calls, programs[i]? = some calls ∧ t = ⟨calls, .start, []⟩ := by
    intro i t ht
    rw [init, List.getElem?_map] at ht
    obtain ⟨calls, hcalls, rfl⟩ := Option.map_eq_some_iff.mp ht
    exact ⟨calls, hcalls, rfl⟩
  refine ⟨issues_init h s, List.length_map _, List.forall_mem_nil _, ?_, ?_⟩
  · intro i t ht
    obtain ⟨calls, -, rfl⟩ := hthread i t ht
    exact Nat.zero_le _
  · intro i calls t hcalls ht
    obtain ⟨calls', hcalls', rfl⟩ := hthread i t ht
    cases hcalls.symm.trans hcalls'
    exact ⟨[], 0, rfl, rfl, Nat.zero_add _, fun _ => rfl⟩

theorem Accounts.moves (ha : Accounts programs m tr) (h : m.Moves i m')
    (he : m.event? i = some e) : Accounts programs m' (tr ++ [(i, e)]) := by
  obtain ⟨t, t', s', ht, rfl, hgoes⟩ := h.goes ha.retries he
  refine ⟨h.issues ha.retries, ?_, ?_, ha.paid.set ht hgoes, ?_⟩
  · rw [List.length_set, ha.threads]
  · intro x hx
    rcases List.mem_append.mp hx with hx | hx
    · exact ha.events x hx
    · rw [List.mem_singleton.mp hx, ← ha.threads]
      exact lt_of_event he
  · intro j calls u hcalls hu
    rcases getElem?_set_cases hu with ⟨rfl, rfl⟩ | ⟨hne, hu⟩
    · obtain ⟨loops, k, hcourse⟩ := ha.courses j calls t hcalls ht
      rw [Trace.own_concat_self]
      exact hcourse.goes hgoes
    · rw [Trace.own_concat_other (Ne.symm hne)]
      exact ha.courses j calls u hcalls hu

theorem run_accounts (s : Storage α) (h : ∀ call ∈ programs.flatten, call.Retries)
    {schedule : List Nat} (hrun : (init s programs).run schedule = .ok m) :
    Accounts programs m ((init s programs).trace schedule) :=
  trace_induction (fun ha hmoves he => ha.moves hmoves he) (accounts_init s h) hrun

/-! ## Totals -/

/-- Every thread is there, with all that is known of it. -/
theorem Accounts.thread (ha : Accounts programs m tr) (i : Fin programs.length) :
    (tr.own i).count .misses + (tr.own i).count (.lands true) ≤ tr.changes ∧
      (tr.own i).length ≤ 3 * programs[i].length + 2 * (tr.own i).count .misses ∧
      (tr.own i).count (.lands true) ≤ programs[i].length := by
  have hi : (i : Nat) < m.threads.length := by
    rw [ha.threads]
    exact i.isLt
  have ht := List.getElem?_eq_getElem hi
  obtain ⟨loops, k, hcourse⟩ := ha.courses i programs[i] _ (List.getElem?_eq_getElem i.isLt) ht
  refine ⟨?_, hcourse.length_le, hcourse.count_changes_le⟩
  have hpaid := ha.paid i _ ht
  have hadd := Trace.foreignChanges_add_own i tr
  omega

theorem Accounts.sum_misses (ha : Accounts programs m tr) :
    ∑ i : Fin programs.length, (tr.own i).count .misses = tr.failures :=
  Trace.sum_own ha.events _

theorem Accounts.sum_changes (ha : Accounts programs m tr) :
    ∑ i : Fin programs.length, (tr.own i).count (.lands true) = tr.changes :=
  Trace.sum_own ha.events _

/-- In the whole run, every change makes each of the other threads fail at most once. -/
theorem Accounts.failures_le (ha : Accounts programs m tr) :
    tr.failures ≤ (programs.length - 1) * tr.changes := by
  have hsum : ∑ i : Fin programs.length,
      ((tr.own i).count .misses + (tr.own i).count (.lands true)) ≤
        ∑ _i : Fin programs.length, tr.changes :=
    Finset.sum_le_sum fun i _ => (ha.thread i).1
  rw [Finset.sum_add_distrib, ha.sum_misses, ha.sum_changes, Finset.sum_const, Finset.card_univ,
    Fintype.card_fin, smul_eq_mul] at hsum
  rw [Nat.sub_one_mul]
  omega

/-- A run takes three steps for each call, and two for each time that one of its changes makes
another thread fail. -/
theorem Accounts.length_le (ha : Accounts programs m tr) :
    tr.length ≤ (2 * programs.length + 1) * programs.flatten.length := by
  have hcalls : ∑ i : Fin programs.length, programs[i].length = programs.flatten.length := by
    rw [List.length_flatten]
    exact Fin.sum_univ_fun_getElem programs List.length
  have hlength : ∑ i : Fin programs.length, (tr.own i).length = tr.length := by
    have hall := Trace.sum_own ha.events fun _ => true
    simpa only [List.countP_true] using hall
  have hsteps : tr.length ≤ 3 * programs.flatten.length + 2 * tr.failures := by
    rw [← hlength, ← hcalls, ← ha.sum_misses, Finset.mul_sum, Finset.mul_sum,
      ← Finset.sum_add_distrib]
    exact Finset.sum_le_sum fun i _ => (ha.thread i).2.1
  have hfew : tr.changes ≤ programs.flatten.length := by
    rw [← ha.sum_changes, ← hcalls]
    exact Finset.sum_le_sum fun i _ => (ha.thread i).2.2
  have hfailures : tr.failures ≤ (programs.length - 1) * programs.flatten.length :=
    ha.failures_le.trans (Nat.mul_le_mul_left _ hfew)
  have hone : programs.flatten.length ≤ programs.length * programs.flatten.length := by
    cases programs with
    | nil => exact Nat.zero_le _
    | cons calls programs => exact Nat.le_mul_of_pos_left _ (Nat.succ_pos _)
  rw [Nat.sub_one_mul] at hfailures
  rw [Nat.add_mul, Nat.mul_assoc]
  omega

/-! ## Coming to an end -/

/-- As long as calls are left, every turn goes to a thread that has one. -/
def diligent : Machine α → List Nat → Bool
  | _, [] => true
  | m, i :: schedule =>
    match m.step i with
    | .ok m' => (m.finished || (m.event? i).isSome) && m'.diligent schedule
    | .error _ => false

theorem diligent_concat {schedule : List Nat} (hrun : m.run schedule = .ok m') (i : Nat) :
    m.diligent (schedule ++ [i]) =
      (m.diligent schedule && (m'.finished || (m'.event? i).isSome)) := by
  induction schedule generalizing m with
  | nil =>
    have heq : m = m' := Except.ok.inj hrun
    subst heq
    obtain ⟨m₁, h1, -⟩ := step_moves m i
    simp [diligent, h1]
  | cons j schedule ih =>
    obtain ⟨m₁, h1, -⟩ := step_moves m j
    rw [run, h1] at hrun
    rw [List.cons_append, diligent, diligent, h1]
    dsimp only
    rw [ih hrun, Bool.and_assoc]

theorem event_of_unfinished (h : m.finished = false) : ∃ i e, m.event? i = some e := by
  obtain ⟨t, ht, hpending⟩ := List.all_eq_false.mp h
  obtain ⟨i, hi⟩ := List.mem_iff_getElem?.mp ht
  refine ⟨i, Option.ne_none_iff_exists'.mp fun hnone => hpending ?_⟩
  rw [(event?_eq_none_iff hi).mp hnone]
  rfl

/-- Once all calls are finished, nothing happens. -/
theorem Moves.eq_of_finished (h : m.Moves i m') (hm : m.finished = true) : m' = m := by
  refine h.eq_of_no_event (event?_idle fun t ht => ?_)
  exact List.isEmpty_iff.mp (List.all_eq_true.mp hm t (List.mem_of_getElem? ht))

/-- Of a diligent schedule that leaves calls unfinished, no turn is lost. -/
theorem length_trace {schedule : List Nat} (hd : m.diligent schedule = true)
    (hrun : m.run schedule = .ok m') (hm' : m'.finished = false) :
    (m.trace schedule).length = schedule.length := by
  induction schedule using List.reverseRecOn generalizing m' with
  | nil => rfl
  | append_singleton schedule i ih =>
    obtain ⟨m₁, hbefore, hstep⟩ := run_concat hrun
    have hm₁ : m₁.finished = false := by
      rw [Bool.eq_false_iff]
      intro hfinished
      rw [(moves_of_step hstep).eq_of_finished hfinished, hfinished] at hm'
      cases hm'
    rw [diligent_concat hbefore, hm₁, Bool.false_or, Bool.and_eq_true] at hd
    obtain ⟨e, he⟩ := Option.isSome_iff_exists.mp hd.2
    rw [trace_concat hbefore, List.length_append, List.length_append, ih hd.1 hbefore hm₁, he]
    rfl

/-- Threads that make retry loops, and lose no turns, have finished after this many. -/
theorem finished_of_diligent (s : Storage α) (h : ∀ call ∈ programs.flatten, call.Retries)
    {schedule : List Nat} (hd : (init s programs).diligent schedule = true)
    (hrun : (init s programs).run schedule = .ok m)
    (hlength : (2 * programs.length + 1) * programs.flatten.length ≤ schedule.length) :
    m.finished = true := by
  rw [← Bool.not_eq_false]
  intro hm
  -- one more turn would take more steps than there can be
  obtain ⟨i, e, he⟩ := event_of_unfinished hm
  obtain ⟨m', hstep, -⟩ := step_moves m i
  have hbound := (run_accounts s h (run_extend hrun hstep)).length_le
  have hlast : ((some e).map (i, ·)).toList.length = 1 := rfl
  rw [trace_concat hrun, List.length_append, length_trace hd hrun hm, he, hlast] at hbound
  omega

/-- **Retries are paid for by the progress of others.** Threads make retry loops on one storage,
under any schedule.  The events of a thread are those of the loops that it has ended, one for each
call, and of the one it is in; a loop calls its function once more than it fails, and then declines
or lands.  A thread fails at most as often as exchanges of others have changed the value, so that
all failures together are at most as many as each change can cause elsewhere.  The steps of a run
are bounded, and so many turns, none of them lost, finish all calls. -/
theorem retries_paid_by_others (s : Storage α) (programs : List (List (Call α)))
    (h : ∀ call ∈ programs.flatten, call.Retries) (schedule : List Nat) :
    ∃ m tr, (init s programs).run schedule = .ok m ∧ (init s programs).trace schedule = tr ∧
      (∀ i calls, programs[i]? = some calls →
        (tr.own i).count .misses ≤ tr.foreignChanges i ∧
        ∃ t loops k, m.threads[i]? = some t ∧ Course calls t loops k (tr.own i) ∧
          ∀ l ∈ loops, l.events.countP Event.invokes = l.events.count .misses + 1) ∧
      tr.failures ≤ (programs.length - 1) * tr.changes ∧
      tr.length ≤ (2 * programs.length + 1) * programs.flatten.length ∧
      ((init s programs).diligent schedule = true →
        (2 * programs.length + 1) * programs.flatten.length ≤ schedule.length →
        m.finished = true) := by
  obtain ⟨m, hrun⟩ := run_ok (init s programs) schedule
  have ha := run_accounts s h hrun
  refine ⟨m, _, hrun, rfl, ?_, ha.failures_le, ha.length_le,
    fun hd hlength => finished_of_diligent s h hd hrun hlength⟩
  intro i calls hcalls
  obtain ⟨hi, -⟩ := List.getElem?_eq_some_iff.mp hcalls
  rw [← ha.threads] at hi
  have ht := List.getElem?_eq_getElem hi
  have hpaid := ha.paid i _ ht
  obtain ⟨loops, k, hcourse⟩ := ha.courses i calls _ hcalls ht
  exact ⟨by omega, _, loops, k, ht, hcourse, fun l _ => l.countP_invokes⟩

/-- A retry loop that turns 5 into 9 and declines all else, and one that always lands. -/
def overtaken : List (List (Call (MachineInt .unsigned 8))) :=
  [[.update (fun v => if v = ⟨5⟩ then some ⟨9⟩ else none)
      ⟨.acqRel, UpdateOrdering.acqRel.loadHalf, Nat.le_refl _⟩],
   [.update (fun _ => some ⟨7⟩) ⟨.relaxed, UpdateOrdering.relaxed.loadHalf, Nat.le_refl _⟩]]

/-- The second loop runs while the first is about to exchange, which fails once and then declines;
the last turns come after both have finished. -/
theorem retries_paid_by_others_overtaken :
    ∃ m tr, (init (.holding ⟨5⟩) overtaken).run [0, 0, 1, 1, 1, 0, 0, 0, 1, 0] = .ok m ∧
      (init (.holding ⟨5⟩) overtaken).trace [0, 0, 1, 1, 1, 0, 0, 0, 1, 0] = tr ∧
      tr.own 0 = [.loads, .proposes, .misses, .declines] ∧
      (tr.own 0).count .misses ≤ tr.foreignChanges 0 ∧ tr.foreignChanges 0 = 1 ∧
      m.finished = true := by
  obtain ⟨m, tr, hrun, htrace, hthreads, -, -, hfinished⟩ :=
    retries_paid_by_others (.holding ⟨5⟩) overtaken
      (List.forall_mem_cons.mpr ⟨trivial, List.forall_mem_singleton.mpr trivial⟩)
      [0, 0, 1, 1, 1, 0, 0, 0, 1, 0]
  have hpaid := (hthreads 0 _ rfl).1
  refine ⟨m, tr, hrun, htrace, ?_, hpaid, ?_, hfinished rfl (Nat.le_refl 10)⟩
  · rw [← htrace]
    rfl
  · rw [← htrace]
    rfl

end Machine

end OrderedAtomics
