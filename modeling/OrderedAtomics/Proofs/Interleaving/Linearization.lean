import OrderedAtomics.Proofs.Interleaving.Serial

/-
  Threads that interleave their steps on one storage are linearizable.  An operation takes effect
  in its one step.  A retry loop takes effect when its compare-exchange happens, and otherwise when
  it reads the value that its function declines, be that by its first load or by a compare-exchange
  that failed; this may be long before the loop ends.  `order` lists the threads by when their
  calls take effect, and `settled` forgets where a thread is in its code, but for a call that has
  taken effect and not ended, which it counts as made.  A step either changes nothing there or is
  the turn of its thread in the serial program (`step_settled`), so a run is the serial run of its
  order (`run_settled`, `run_linearizable`).
-/
namespace OrderedAtomics

/-! ## Steps of a thread -/

namespace Thread

variable {α : Type} [Codec α] (rest : List (Call α)) (returned : List (Return α)) (s : Storage α)

theorem step_operate (op : Operation α) (place : Place α) :
    step ⟨.operate op :: rest, place, returned⟩ s =
      .ok (⟨rest, .start, .reply (Register.perform s.dispose op).1 :: returned⟩,
        .holding (Register.perform s.dispose op).2) := by
  dsimp only [step]
  rw [Storage.perform_eq]
  rfl

variable {f : α → Option α} (o : ExchangeOrdering) {current next : α}

theorem step_load :
    step ⟨.update f o :: rest, .start, returned⟩ s =
      .ok (⟨.update f o :: rest, .read s.dispose, returned⟩, s) := by
  dsimp only [step]
  rw [Storage.load_eq]
  rfl

theorem step_decline (h : f current = none) :
    step ⟨.update f o :: rest, .read current, returned⟩ s =
      .ok (⟨rest, .start, .updated (.error current) :: returned⟩, s) := by
  simp only [step, h, finish]

theorem step_propose (h : f current = some next) :
    step ⟨.update f o :: rest, .read current, returned⟩ s =
      .ok (⟨.update f o :: rest, .computed current next, returned⟩, s) := by
  simp only [step, h]

theorem step_land (h : s.dispose = current) :
    step ⟨.update f o :: rest, .computed current next, returned⟩ s =
      .ok (⟨rest, .start, .updated (.ok current) :: returned⟩, .holding next) := by
  dsimp only [step]
  rw [Storage.compareExchange_eq, if_pos h, h]
  rfl

theorem step_miss (h : s.dispose ≠ current) :
    step ⟨.update f o :: rest, .computed current next, returned⟩ s =
      .ok (⟨.update f o :: rest, .read s.dispose, returned⟩, s) := by
  dsimp only [step]
  rw [Storage.compareExchange_eq, if_neg h]
  rfl

end Thread

/-! ## When a call takes effect -/

namespace Thread

variable {α : Type}

/-- The thread as a caller who makes whole calls; a retry loop that has read a value its function
declines counts as made. -/
def settled (t : Thread α) : Caller α :=
  match t.pending, t.place with
  | .update f _ :: rest, .read current =>
    match f current with
    | none => ⟨rest, .updated (.error current) :: t.returned⟩
    | some _ => ⟨t.pending, t.returned⟩
  | _, _ => ⟨t.pending, t.returned⟩

/-- A retry loop about to exchange holds what its function made of the value last read. -/
def Sound (t : Thread α) : Prop :=
  match t.pending, t.place with
  | .update f _ :: _, .computed current next => f current = some next
  | _, _ => True

theorem settled_start (pending : List (Call α)) (returned : List (Return α)) :
    settled ⟨pending, .start, returned⟩ = ⟨pending, returned⟩ := by
  unfold settled
  split
  · rename_i h; cases h
  · rfl

theorem settled_nil (place : Place α) (returned : List (Return α)) :
    settled ⟨[], place, returned⟩ = ⟨[], returned⟩ := rfl

theorem settled_operate (op : Operation α) (rest : List (Call α)) (place : Place α)
    (returned : List (Return α)) :
    settled ⟨.operate op :: rest, place, returned⟩ = ⟨.operate op :: rest, returned⟩ := rfl

section Update

variable {f : α → Option α} {current next : α} (o : ExchangeOrdering) (rest : List (Call α))
  (returned : List (Return α))

theorem settled_computed :
    settled ⟨.update f o :: rest, .computed current next, returned⟩ =
      ⟨.update f o :: rest, returned⟩ := rfl

theorem settled_declined (h : f current = none) :
    settled ⟨.update f o :: rest, .read current, returned⟩ =
      ⟨rest, .updated (.error current) :: returned⟩ := by
  simp only [settled, h]

theorem settled_proposed (h : f current = some next) :
    settled ⟨.update f o :: rest, .read current, returned⟩ =
      ⟨.update f o :: rest, returned⟩ := by
  simp only [settled, h]

end Update

theorem sound_start (pending : List (Call α)) (returned : List (Return α)) :
    Sound ⟨pending, .start, returned⟩ := by
  unfold Sound
  split
  · rename_i h; cases h
  · trivial

theorem sound_read (pending : List (Call α)) (current : α) (returned : List (Return α)) :
    Sound ⟨pending, .read current, returned⟩ := by
  unfold Sound
  split
  · rename_i h; cases h
  · trivial

variable [Codec α]

/-- Whether the current call takes effect in the thread's next step, on storage that holds `v`:
an operation does, a retry loop does when its compare-exchange happens or when the value it reads
is one that its function declines. -/
def takesEffect (t : Thread α) (v : α) : Bool :=
  match t.pending, t.place with
  | .operate _ :: _, _ => true
  | .update f _ :: _, .start => (f v).isNone
  | .update f _ :: _, .computed current _ => decide (v = current) || (f v).isNone
  | _, _ => false

/-- What a step from `t` to `t'` is to the caller: its turn if the call takes effect in it, and
nothing otherwise. -/
def Follows (t : Thread α) (s : Storage α) (t' : Thread α) (s' : Storage α) : Prop :=
  if t.takesEffect s.dispose then t.settled.step s.dispose = some (t'.settled, s'.dispose)
  else t'.settled = t.settled ∧ s' = s

/-- A retry loop that reads a value takes effect if its function declines the value, and else
goes on as before. -/
theorem follows_read (t : Thread α) {f : α → Option α} {o : ExchangeOrdering}
    {rest : List (Call α)} {returned : List (Return α)} {s : Storage α}
    (hset : t.settled = ⟨.update f o :: rest, returned⟩)
    (heff : t.takesEffect s.dispose = (f s.dispose).isNone) :
    t.Follows s ⟨.update f o :: rest, .read s.dispose, returned⟩ s := by
  unfold Follows
  rw [heff, hset]
  cases hf : f s.dispose with
  | none =>
    rw [settled_declined o rest returned hf]
    simp only [Option.isNone_none, if_true, Caller.step, Call.perform, hf]
  | some next =>
    rw [settled_proposed o rest returned hf]
    exact ⟨rfl, rfl⟩

/-- One step of a thread never faults, and its caller follows. -/
theorem step_follows (t : Thread α) (s : Storage α) (hs : t.Sound) :
    ∃ t' s', t.step s = .ok (t', s') ∧ t'.Sound ∧ t.Follows s t' s' := by
  obtain ⟨pending, place, returned⟩ := t
  cases pending with
  | nil => exact ⟨⟨[], place, returned⟩, s, rfl, hs, rfl, rfl⟩
  | cons call rest =>
    cases call with
    | operate op =>
      refine ⟨_, _, step_operate rest returned s op place, sound_start _ _, ?_⟩
      show Caller.step _ _ = _
      rw [settled_operate, settled_start, Storage.dispose_holding]
      rfl
    | update f o =>
      cases place with
      | start =>
        refine ⟨_, _, step_load rest returned s o, sound_read _ _ _, ?_⟩
        exact follows_read _ (settled_start _ _) rfl
      | read current =>
        cases hf : f current with
        | none =>
          refine ⟨_, _, step_decline rest returned s o hf, sound_start _ _, ?_, rfl⟩
          rw [settled_start, settled_declined o rest returned hf]
        | some next =>
          refine ⟨_, _, step_propose rest returned s o hf, hf, ?_, rfl⟩
          rw [settled_computed, settled_proposed o rest returned hf]
      | computed current next =>
        have hf : f current = some next := hs
        by_cases e : s.dispose = current
        · refine ⟨_, _, step_land rest returned s o e, sound_start _ _, ?_⟩
          have heff : takesEffect ⟨.update f o :: rest, .computed current next, returned⟩
              s.dispose = true := by simp [takesEffect, e]
          unfold Follows
          rw [if_pos heff, settled_computed, settled_start, Storage.dispose_holding, e]
          simp only [Caller.step, Call.perform, hf]
        · refine ⟨_, _, step_miss rest returned s o e, sound_read _ _ _, ?_⟩
          exact follows_read _ (settled_computed o rest returned) (by simp [takesEffect, e])

end Thread

/-! ## The order of effects -/

namespace Machine

variable {α : Type} [Codec α]

/-- Whether the current call of thread `i` takes effect in its next step. -/
def takesEffect (m : Machine α) (i : Nat) : Bool :=
  match m.threads[i]? with
  | some t => t.takesEffect m.storage.dispose
  | none => false

/-- The threads whose calls take effect along a schedule, one entry a call, in the order in which
they do. -/
def order : Machine α → List Nat → List Nat
  | _, [] => []
  | m, i :: schedule =>
    match m.step i with
    | .ok m' => if m.takesEffect i then i :: m'.order schedule else m'.order schedule
    | .error _ => []

/-- The threads as callers on a register. -/
def settled (m : Machine α) : Serial α := ⟨m.storage.dispose, m.threads.map Thread.settled⟩

/-- Every thread is sound. -/
def Sound (m : Machine α) : Prop := ∀ t ∈ m.threads, t.Sound

theorem sound_init (s : Storage α) (programs : List (List (Call α))) :
    (init s programs).Sound := by
  intro t ht
  obtain ⟨calls, -, rfl⟩ := List.mem_map.mp ht
  exact Thread.sound_start _ _

theorem settled_init (s : Storage α) (programs : List (List (Call α))) :
    (init s programs).settled = Serial.init s.dispose programs := by
  unfold settled init Serial.init
  rw [List.map_map]
  congr 1
  exact List.map_congr_left fun calls _ => Thread.settled_start calls []

/-- Finished threads are callers who have made all their calls. -/
theorem settled_finished {m : Machine α} (h : m.finished = true) :
    m.settled = ⟨m.storage.dispose, m.threads.map fun t => ⟨[], t.returned⟩⟩ := by
  unfold settled
  congr 1
  apply List.map_congr_left
  intro t ht
  have hp : t.pending = [] := List.isEmpty_iff.mp (List.all_eq_true.mp h t ht)
  obtain ⟨pending, place, returned⟩ := t
  cases hp
  exact Thread.settled_nil place returned

/-- One step never faults; it is the turn of a caller or nothing. -/
theorem step_settled (m : Machine α) (i : Nat) (hm : m.Sound) :
    ∃ m', m.step i = .ok m' ∧ m'.Sound ∧
      if m.takesEffect i then m.settled.step i = some m'.settled else m'.settled = m.settled := by
  cases ht : m.threads[i]? with
  | none =>
    refine ⟨m, ?_, hm, ?_⟩
    · simp only [step, ht]
    · simp [takesEffect, ht]
  | some t =>
    obtain ⟨t', s', hstep, hsound, hfollows⟩ :=
      t.step_follows m.storage (hm t (List.mem_of_getElem? ht))
    refine ⟨⟨s', m.threads.set i t'⟩, ?_, ?_, ?_⟩
    · simp only [step, ht]
      rw [hstep]
      rfl
    · intro u hu
      rcases List.mem_or_eq_of_mem_set hu with hu | rfl
      · exact hm u hu
      · exact hsound
    · have hc : m.settled.callers[i]? = some t.settled := by
        rw [settled, List.getElem?_map, ht]
        rfl
      have heff : m.takesEffect i = t.takesEffect m.storage.dispose := by
        simp only [takesEffect, ht]
      have hset : (⟨s', m.threads.set i t'⟩ : Machine α).settled =
          ⟨s'.dispose, m.settled.callers.set i t'.settled⟩ :=
        congrArg (Serial.mk s'.dispose) List.map_set
      rw [heff, hset]
      unfold Thread.Follows at hfollows
      split at hfollows
      · rename_i h
        rw [if_pos h]
        exact Serial.step_eq hc hfollows
      · rename_i h
        obtain ⟨hi, he⟩ := List.getElem?_eq_some_iff.mp hc
        rw [if_neg h, hfollows.1, hfollows.2, ← he, List.set_getElem_self]
        rfl

/-- A run never faults; it is the serial run of its order. -/
theorem run_settled (m : Machine α) (schedule : List Nat) (hm : m.Sound) :
    ∃ m', m.run schedule = .ok m' ∧ m.settled.run (m.order schedule) = some m'.settled := by
  induction schedule generalizing m with
  | nil => exact ⟨m, rfl, rfl⟩
  | cons i schedule ih =>
    obtain ⟨m₁, h1, hm₁, hturn⟩ := step_settled m i hm
    obtain ⟨m', h2, hrun⟩ := ih m₁ hm₁
    refine ⟨m', ?_, ?_⟩
    · rw [run, h1]
      exact h2
    · simp only [order, h1]
      split at hturn
      · rename_i h
        rw [if_pos h, Serial.run, hturn]
        exact hrun
      · rename_i h
        rw [if_neg h, ← hturn]
        exact hrun

/-- Threads at the start of their programs are callers with all calls to make. -/
theorem run_init (s : Storage α) (programs : List (List (Call α))) (schedule : List Nat) :
    ∃ m, (init s programs).run schedule = .ok m ∧
      (Serial.init s.dispose programs).run ((init s programs).order schedule) = some m.settled := by
  obtain ⟨m, hrun, hserial⟩ := run_settled (init s programs) schedule (sound_init s programs)
  rw [settled_init] at hserial
  exact ⟨m, hrun, hserial⟩

theorem order_prefix (m : Machine α) {before schedule : List Nat} (h : before <+: schedule) :
    m.order before <+: m.order schedule := by
  obtain ⟨after, rfl⟩ := h
  induction before generalizing m with
  | nil => exact List.nil_prefix
  | cons i before ih =>
    rw [List.cons_append, order, order]
    cases m.step i with
    | error f => exact List.prefix_refl _
    | ok m' =>
      dsimp only
      split
      · exact (List.prefix_cons_inj i).mpr (ih m')
      · exact ih m'

/-- **Interleaved threads are linearizable.** Any schedule runs without a fault, and the serial
program in which the threads make whole calls, in the order in which these take effect, gets as
far: at each moment it has made the calls that have ended, and those that are bound to end by
declining the value they read.  Where all threads have finished, every call has got the same result
in both and the same value is left. -/
theorem run_linearizable (s : Storage α) (programs : List (List (Call α)))
    (schedule : List Nat) :
    ∃ m, (init s programs).run schedule = .ok m ∧
      (∀ before, before <+: schedule →
        (init s programs).order before <+: (init s programs).order schedule) ∧
      (Serial.init s.dispose programs).run ((init s programs).order schedule) = some m.settled ∧
      (m.finished = true →
        (Serial.init s.dispose programs).run ((init s programs).order schedule) =
          some ⟨m.storage.dispose, m.threads.map fun t => ⟨[], t.returned⟩⟩) := by
  obtain ⟨m, hrun, hserial⟩ := run_init s programs schedule
  refine ⟨m, hrun, ?_, hserial, ?_⟩
  · intro before h
    exact order_prefix _ h
  · intro h
    rw [hserial, settled_finished h]

/-- A retry loop that turns 5 into 9, beside two stores, the second of which restores a 5, and
another loop, which declines 7. -/
def restoring : List (List (Call (MachineInt .unsigned 8))) :=
  [[.update (fun v => if v = ⟨5⟩ then some ⟨9⟩ else none) ⟨.acqRel, .acquire, by decide⟩],
   [.operate (.store ⟨7⟩ .release), .operate (.store ⟨5⟩ .seqCst)],
   [.update (fun v => if v = ⟨7⟩ then none else some ⟨1⟩) ⟨.relaxed, .relaxed, by decide⟩]]

/-- Both stores pass between the load and the compare-exchange of the first loop, which succeeds;
the second loop reads the 7 in between and ends last. -/
theorem run_linearizable_restoring : ∃ m, (init (.holding ⟨5⟩) restoring).run
      [0, 0, 1, 2, 1, 0, 2] = .ok m ∧ m.finished = true ∧
    (Serial.init ⟨5⟩ restoring).run [1, 2, 1, 0] =
      some ⟨⟨9⟩, [⟨[], [.updated (.ok ⟨5⟩)]⟩, ⟨[], [.reply .done, .reply .done]⟩,
        ⟨[], [.updated (.error ⟨7⟩)]⟩]⟩ := by
  obtain ⟨m, hrun, -, -, hserial⟩ :=
    run_linearizable (.holding ⟨5⟩) restoring [0, 0, 1, 2, 1, 0, 2]
  have hm := Except.ok.inj (hrun.symm.trans rfl)
  have hfinished : m.finished = true := by rw [hm]; rfl
  refine ⟨m, hrun, hfinished, (hserial hfinished).trans ?_⟩
  rw [hm]
  rfl

theorem pending_settled {m : Machine α} (h : m.finished = true) : m.settled.pending = [] := by
  rw [settled_finished h]
  unfold Serial.pending
  rw [List.flatMap_map]
  exact List.flatMap_eq_nil_iff.mpr fun _ _ => rfl

theorem returned_settled {m : Machine α} (h : m.finished = true) :
    m.settled.returned = m.returns := by
  rw [settled_finished h]
  unfold Serial.returned
  rw [List.flatMap_map]
  rfl

/-- Where all threads have finished, their calls have been made one after the other. -/
theorem run_replay (s : Storage α) (programs : List (List (Call α))) (schedule : List Nat) :
    ∃ m, (init s programs).run schedule = .ok m ∧ (m.finished = true →
      ∃ calls, calls.Perm programs.flatten ∧ m.returns.Perm (Call.replay s.dispose calls).1 ∧
        m.storage.dispose = (Call.replay s.dispose calls).2) := by
  obtain ⟨m, hrun, hserial⟩ := run_init s programs schedule
  refine ⟨m, hrun, fun h => ?_⟩
  obtain ⟨calls, hp, hr, hv⟩ := Serial.run_replay hserial
  rw [Serial.pending_init, pending_settled h, List.append_nil] at hp
  rw [Serial.returned_init, returned_settled h, List.append_nil] at hr
  exact ⟨calls, hp.symm, hr, hv⟩

end Machine

end OrderedAtomics
