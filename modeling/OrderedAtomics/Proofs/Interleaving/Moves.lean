import OrderedAtomics.Proofs.Interleaving.Linearization
import Mathlib.Data.List.Induction

/-
  Everything that one step of a machine can do, once for all proofs that follow the steps
  themselves (`Moves`), and what is kept by every step: the other threads (`Moves.elsewhere`), the
  calls that are issued (`Moves.issues`) and soundness (`step_sound`).  `last_step` goes back along
  a schedule to the last step of a thread, and with it to the step in which a thread has read the
  value that it holds (`last_read`) or that it expects in an exchange (`last_computed`).
-/
namespace OrderedAtomics

namespace Machine

variable {α : Type} [Codec α]

/-- What one step of thread `i` makes of a machine. -/
inductive Moves (m : Machine α) (i : Nat) : Machine α → Prop
  /-- Nobody is there, or has a call left. -/
  | idle (hi : ∀ t, m.threads[i]? = some t → t.pending = []) : Moves m i m
  /-- An operation. -/
  | operates {op rest place returned}
      (ht : m.threads[i]? = some ⟨.operate op :: rest, place, returned⟩) :
      Moves m i ⟨.holding (Register.perform m.storage.dispose op).2,
        m.threads.set i
          ⟨rest, .start, .reply (Register.perform m.storage.dispose op).1 :: returned⟩⟩
  /-- A retry loop reads the value for the first time. -/
  | loads {f o rest returned}
      (ht : m.threads[i]? = some ⟨.update f o :: rest, .start, returned⟩) :
      Moves m i ⟨m.storage,
        m.threads.set i ⟨.update f o :: rest, .read m.storage.dispose, returned⟩⟩
  /-- Its function declines the value. -/
  | declines {f o rest current returned}
      (ht : m.threads[i]? = some ⟨.update f o :: rest, .read current, returned⟩)
      (hf : f current = none) :
      Moves m i ⟨m.storage,
        m.threads.set i ⟨rest, .start, .updated (.error current) :: returned⟩⟩
  /-- Its function proposes another. -/
  | proposes {f o rest current next returned}
      (ht : m.threads[i]? = some ⟨.update f o :: rest, .read current, returned⟩)
      (hf : f current = some next) :
      Moves m i ⟨m.storage,
        m.threads.set i ⟨.update f o :: rest, .computed current next, returned⟩⟩
  /-- Its compare-exchange happens. -/
  | lands {f o rest current next returned}
      (ht : m.threads[i]? = some ⟨.update f o :: rest, .computed current next, returned⟩)
      (hv : m.storage.dispose = current) :
      Moves m i ⟨.holding next,
        m.threads.set i ⟨rest, .start, .updated (.ok current) :: returned⟩⟩
  /-- Its compare-exchange fails, and reads the value again. -/
  | misses {f o rest current next returned}
      (ht : m.threads[i]? = some ⟨.update f o :: rest, .computed current next, returned⟩)
      (hv : m.storage.dispose ≠ current) :
      Moves m i ⟨m.storage,
        m.threads.set i ⟨.update f o :: rest, .read m.storage.dispose, returned⟩⟩

variable {m m' : Machine α} {i : Nat}

theorem step_eq {t t' : Thread α} {s' : Storage α} (ht : m.threads[i]? = some t)
    (h : t.step m.storage = .ok (t', s')) : m.step i = .ok ⟨s', m.threads.set i t'⟩ := by
  simp only [step, ht]
  rw [h]
  rfl

theorem step_idle (h : ∀ t, m.threads[i]? = some t → t.pending = []) : m.step i = .ok m := by
  cases ht : m.threads[i]? with
  | none => simp only [step, ht]
  | some t =>
    obtain ⟨pending, place, returned⟩ := t
    cases h _ ht
    have hstep : Thread.step ⟨[], place, returned⟩ m.storage =
        .ok (⟨[], place, returned⟩, m.storage) := rfl
    rw [step_eq ht hstep, set_of_getElem? ht]

theorem step_moves (m : Machine α) (i : Nat) : ∃ m', m.step i = .ok m' ∧ m.Moves i m' := by
  cases ht : m.threads[i]? with
  | none =>
    have hidle : ∀ t, m.threads[i]? = some t → t.pending = [] := by
      intro t h
      rw [ht] at h
      cases h
    exact ⟨m, step_idle hidle, .idle hidle⟩
  | some t =>
    obtain ⟨pending, place, returned⟩ := t
    cases pending with
    | nil =>
      have hidle : ∀ t, m.threads[i]? = some t → t.pending = [] := by
        intro t h
        rw [ht] at h
        cases h
        rfl
      exact ⟨m, step_idle hidle, .idle hidle⟩
    | cons call rest =>
      cases call with
      | operate op => exact ⟨_, step_eq ht (Thread.step_operate ..), .operates ht⟩
      | update f o =>
        cases place with
        | start => exact ⟨_, step_eq ht (Thread.step_load ..), .loads ht⟩
        | read current =>
          cases hf : f current with
          | none => exact ⟨_, step_eq ht (Thread.step_decline _ _ _ _ hf), .declines ht hf⟩
          | some next => exact ⟨_, step_eq ht (Thread.step_propose _ _ _ _ hf), .proposes ht hf⟩
        | computed current next =>
          by_cases hv : m.storage.dispose = current
          · exact ⟨_, step_eq ht (Thread.step_land _ _ _ _ hv), .lands ht hv⟩
          · exact ⟨_, step_eq ht (Thread.step_miss _ _ _ _ hv), .misses ht hv⟩

theorem moves_of_step (h : m.step i = .ok m') : m.Moves i m' := by
  obtain ⟨m₁, h1, hmoves⟩ := step_moves m i
  cases Except.ok.inj (h1.symm.trans h)
  exact hmoves

/-! ## What every step keeps -/

namespace Moves

/-- A step leaves the other threads alone. -/
theorem elsewhere (h : m.Moves i m') {j : Nat} (hj : j ≠ i) :
    m'.threads[j]? = m.threads[j]? := by
  cases h with
  | idle => rfl
  | operates | loads | declines | proposes | lands | misses =>
    exact List.getElem?_set_ne (Ne.symm hj)

/-- No step issues a call. -/
theorem pending_suffix (h : m.Moves i m') {t' : Thread α} (ht' : t' ∈ m'.threads) :
    ∃ t ∈ m.threads, t'.pending <:+ t.pending := by
  cases h with
  | idle => exact ⟨t', ht', List.suffix_refl _⟩
  | operates ht | declines ht | lands ht =>
    rcases List.mem_or_eq_of_mem_set ht' with h | rfl
    · exact ⟨t', h, List.suffix_refl _⟩
    · exact ⟨_, List.mem_of_getElem? ht, List.suffix_cons _ _⟩
  | loads ht | proposes ht | misses ht =>
    rcases List.mem_or_eq_of_mem_set ht' with h | rfl
    · exact ⟨t', h, List.suffix_refl _⟩
    · exact ⟨_, List.mem_of_getElem? ht, List.suffix_refl _⟩

end Moves

theorem step_sound (hm : m.Sound) (h : m.step i = .ok m') : m'.Sound := by
  obtain ⟨m₁, h1, hsound, -⟩ := step_settled m i hm
  cases Except.ok.inj (h1.symm.trans h)
  exact hsound

/-- All calls yet to finish are of some kind. -/
def Issues (P : Call α → Prop) (m : Machine α) : Prop :=
  ∀ t ∈ m.threads, ∀ call ∈ t.pending, P call

theorem issues_init {P : Call α → Prop} {programs : List (List (Call α))}
    (h : ∀ call ∈ programs.flatten, P call) (s : Storage α) : (init s programs).Issues P := by
  intro t ht call hcall
  obtain ⟨calls, hcalls, rfl⟩ := List.mem_map.mp ht
  exact h call (List.mem_flatten.mpr ⟨calls, hcalls, hcall⟩)

theorem Moves.issues {P : Call α → Prop} (h : m.Moves i m') (hm : m.Issues P) : m'.Issues P := by
  intro t' ht' call hcall
  obtain ⟨t, ht, hsuffix⟩ := h.pending_suffix ht'
  exact hm t ht call (hsuffix.subset hcall)

/-! ## Runs -/

theorem run_append (m : Machine α) (before after : List Nat) :
    m.run (before ++ after) = (m.run before).bind fun m' => m'.run after := by
  induction before generalizing m with
  | nil => rfl
  | cons i before ih =>
    rw [List.cons_append, run, run]
    cases m.step i with
    | error f => rfl
    | ok m₁ => exact ih m₁

theorem run_concat {schedule : List Nat} (h : m.run (schedule ++ [i]) = .ok m') :
    ∃ m₁, m.run schedule = .ok m₁ ∧ m₁.step i = .ok m' := by
  rw [run_append] at h
  cases hrun : m.run schedule with
  | error f =>
    rw [hrun] at h
    cases h
  | ok m₁ =>
    refine ⟨m₁, rfl, ?_⟩
    have hlast : m₁.run [i] = .ok m' := by
      rw [hrun] at h
      exact h
    rw [run] at hlast
    cases hstep : m₁.step i with
    | error f =>
      rw [hstep] at hlast
      cases hlast
    | ok m₂ =>
      rw [hstep] at hlast
      exact hlast

theorem run_extend {schedule : List Nat} {m₁ : Machine α} (h : m.run schedule = .ok m₁)
    (hstep : m₁.step i = .ok m') : m.run (schedule ++ [i]) = .ok m' := by
  rw [run_append, h]
  show m₁.run [i] = _
  rw [run, hstep]
  rfl

/-- A run never faults. -/
theorem run_ok (m : Machine α) (schedule : List Nat) : ∃ m', m.run schedule = .ok m' := by
  induction schedule generalizing m with
  | nil => exact ⟨m, rfl⟩
  | cons i schedule ih =>
    obtain ⟨m₁, h1, -⟩ := step_moves m i
    obtain ⟨m', h'⟩ := ih m₁
    refine ⟨m', ?_⟩
    rw [run, h1]
    exact h'

/-- What holds at first and is kept by every step holds after every run. -/
theorem run_induction {P : Machine α → Prop}
    (hstep : ∀ {m m' : Machine α} {i : Nat}, P m → m.step i = .ok m' → P m') {schedule : List Nat}
    (h : P m) (hrun : m.run schedule = .ok m') : P m' := by
  induction schedule generalizing m with
  | nil =>
    cases hrun
    exact h
  | cons i schedule ih =>
    obtain ⟨m₁, h1, -⟩ := step_moves m i
    rw [run, h1] at hrun
    exact ih (hstep h h1) hrun

/-! ## Back to the last step -/

/-- No thread has begun a call. -/
def AtStart (m : Machine α) : Prop := ∀ t ∈ m.threads, t.place = .start

theorem atStart_init (s : Storage α) (programs : List (List (Call α))) :
    (init s programs).AtStart := by
  intro t ht
  obtain ⟨calls, -, rfl⟩ := List.mem_map.mp ht
  rfl

/-- A thread is as it was at first, or as its last step has left it; others may have moved since.
The induction is on the schedule from its end. -/
theorem last_step {m₀ : Machine α} {schedule : List Nat} (hrun : m₀.run schedule = .ok m)
    {t : Thread α} (ht : m.threads[i]? = some t) :
    m₀.threads[i]? = some t ∨
      ∃ before between m₁ m₂, schedule = before ++ i :: between ∧ i ∉ between ∧
        m₀.run before = .ok m₁ ∧ m₁.step i = .ok m₂ ∧ m₂.run between = .ok m ∧
        m₂.threads[i]? = some t := by
  induction schedule using List.reverseRecOn generalizing m with
  | nil =>
    cases hrun
    exact .inl ht
  | append_singleton schedule j ih =>
    obtain ⟨m', hbefore, hstep⟩ := run_concat hrun
    by_cases hj : i = j
    · subst hj
      exact .inr ⟨schedule, [], m', m, rfl, List.not_mem_nil, hbefore, hstep, rfl, ht⟩
    · rw [(moves_of_step hstep).elsewhere hj] at ht
      rcases ih hbefore ht with h | ⟨before, between, m₁, m₂, rfl, hnot, h1, h12, h2, ht₂⟩
      · exact .inl h
      · refine .inr ⟨before, between ++ [j], m₁, m₂, ?_, ?_, h1, h12, run_extend h2 hstep, ht₂⟩
        · rw [List.append_assoc, List.cons_append]
        · rw [List.mem_append, List.mem_singleton]
          rintro (h | h)
          · exact hnot h
          · exact hj h

variable {f : α → Option α} {o : ExchangeOrdering} {rest : List (Call α)} {current next : α}
  {returned : List (Return α)}

theorem Moves.of_read (h : m.Moves i m')
    (ht : m'.threads[i]? = some ⟨.update f o :: rest, .read current, returned⟩) :
    m'.storage.dispose = current := by
  cases h with
  | idle hidle => cases hidle _ ht
  | operates | declines | proposes | lands => cases getElem?_set_eq ht
  | loads | misses =>
    cases getElem?_set_eq ht
    rfl

theorem Moves.of_computed (h : m.Moves i m')
    (ht : m'.threads[i]? = some ⟨.update f o :: rest, .computed current next, returned⟩) :
    m.threads[i]? = some ⟨.update f o :: rest, .read current, returned⟩ := by
  cases h with
  | idle hidle => cases hidle _ ht
  | operates | loads | declines | lands | misses => cases getElem?_set_eq ht
  | proposes hread hf =>
    cases getElem?_set_eq ht
    exact hread

/-- A thread that holds a value has read it in its last step. -/
theorem last_read {m₀ : Machine α} (h₀ : m₀.AtStart) {schedule : List Nat}
    (hrun : m₀.run schedule = .ok m)
    (ht : m.threads[i]? = some ⟨.update f o :: rest, .read current, returned⟩) :
    ∃ before between m₁, schedule = before ++ i :: between ∧ i ∉ between ∧
      m₀.run (before ++ [i]) = .ok m₁ ∧ m₁.run between = .ok m ∧
      m₁.threads[i]? = some ⟨.update f o :: rest, .read current, returned⟩ ∧
      m₁.storage.dispose = current := by
  rcases last_step hrun ht with h | ⟨before, between, m₁, m₂, rfl, hnot, h1, h12, h2, ht₂⟩
  · cases h₀ _ (List.mem_of_getElem? h)
  · exact ⟨before, between, m₂, rfl, hnot, run_extend h1 h12, h2, ht₂,
      (moves_of_step h12).of_read ht₂⟩

/-- A thread about to exchange has read the value it expects in its last step but one. -/
theorem last_computed {m₀ : Machine α} (h₀ : m₀.AtStart) {schedule : List Nat}
    (hrun : m₀.run schedule = .ok m)
    (ht : m.threads[i]? = some ⟨.update f o :: rest, .computed current next, returned⟩) :
    ∃ before between m₁, schedule = before ++ i :: between ∧ between.count i = 1 ∧
      m₀.run (before ++ [i]) = .ok m₁ ∧ m₁.run between = .ok m ∧
      m₁.threads[i]? = some ⟨.update f o :: rest, .read current, returned⟩ ∧
      m₁.storage.dispose = current := by
  rcases last_step hrun ht with h | ⟨before, after, m₁, m₂, rfl, hafter, h1, h12, h2, ht₂⟩
  · cases h₀ _ (List.mem_of_getElem? h)
  · obtain ⟨before, between, m, rfl, hbetween, hread, hrest, ht, hcurrent⟩ :=
      last_read h₀ h1 ((moves_of_step h12).of_computed ht₂)
    refine ⟨before, between ++ i :: after, m, ?_, ?_, hread, ?_, ht, hcurrent⟩
    · rw [List.append_assoc, List.cons_append]
    · rw [List.count_append, List.count_cons_self, List.count_eq_zero.mpr hbetween,
        List.count_eq_zero.mpr hafter]
    · rw [List.append_cons, run_append, run_extend hrest h12]
      exact h2

end Machine

end OrderedAtomics
