import OrderedAtomics.Proofs.Interleaving.FetchTotals
import OrderedAtomics.Proofs.Interleaving.Moves

/-
  The history of a run: the calls that have ended, in the order in which they did, each with what it
  gave back.  A call that is one operation ends in the step that makes it, so the history of threads
  that make operations only is that of calls made one after the other on one value (`run_history`).
  For fetches this means that each gives back what the one before has left: the history is the row
  of the fetches made (`run_fetches`).
-/
namespace OrderedAtomics

/-! ## The calls of a run -/

/-- Whether a call is made in one step. -/
def Call.Immediate {α : Type} : Call α → Prop
  | .operate _ => True
  | .update _ _ => False

namespace Machine

variable {α : Type} [Codec α]

/-- The calls yet to finish, of all threads. -/
def pending (m : Machine α) : List (Call α) := m.threads.flatMap Thread.pending

/-- The call, if any, that has ended in a step of thread `i`, which is no longer pending then, and
what it gave back. -/
def ended (i : Nat) (m m' : Machine α) : List (Call α × Return α) :=
  match m.threads[i]?, m'.threads[i]? with
  | some ⟨call :: rest, _, _⟩, some ⟨rest', _, r :: _⟩ =>
    if rest'.length = rest.length then [(call, r)] else []
  | _, _ => []

/-- The calls that end along a schedule, in the order in which they do, each with what it gives
back. -/
def history : Machine α → List Nat → List (Call α × Return α)
  | _, [] => []
  | m, i :: schedule =>
    match m.step i with
    | .ok m' => ended i m m' ++ m'.history schedule
    | .error _ => []

variable {m m' : Machine α} {i : Nat}

theorem ended_idle (h : ∀ t, m.threads[i]? = some t → t.pending = []) : ended i m m = [] := by
  unfold ended
  split
  · rename_i ht _
    cases h _ ht
  · rfl

theorem ended_operates {op : Operation α} {rest : List (Call α)} {place : Place α}
    {returned : List (Return α)} {r : Return α} {s : Storage α}
    (ht : m.threads[i]? = some ⟨.operate op :: rest, place, returned⟩) :
    ended i m ⟨s, m.threads.set i ⟨rest, .start, r :: returned⟩⟩ = [(.operate op, r)] := by
  have hi := (List.getElem?_eq_some_iff.mp ht).1
  simp only [ended, ht, List.getElem?_set_self hi, if_true]

/-- A step of a thread that makes operations: nothing, or one call made at once on the stored
value. -/
theorem step_history (hm : m.Issues Call.Immediate) (h : m.step i = .ok m') :
    ended i m m' = [] ∧ m' = m ∨
      ∃ call, ended i m m' = [(call, (call.perform m.storage.dispose).1)] ∧
        m'.storage.dispose = (call.perform m.storage.dispose).2 ∧
        m.pending.Perm (call :: m'.pending) ∧
        m'.returns.Perm ((call.perform m.storage.dispose).1 :: m.returns) := by
  cases moves_of_step h with
  | idle hi => exact .inl ⟨ended_idle hi, rfl⟩
  | @operates op rest place returned ht =>
    obtain ⟨others, hp, hp'⟩ := flatMap_set_perm Thread.pending ht
    obtain ⟨others', hr, hr'⟩ := flatMap_set_perm Thread.returned ht
    have hpending := hp'
      ⟨rest, .start, .reply (Register.perform m.storage.dispose op).1 :: returned⟩
    have hreturns := hr'
      ⟨rest, .start, .reply (Register.perform m.storage.dispose op).1 :: returned⟩
    refine .inr ⟨.operate op, ended_operates ht, Storage.dispose_holding _, ?_, ?_⟩
    · exact hp.trans (hpending.symm.cons _)
    · exact hreturns.trans (hr.symm.cons _)
  | loads ht | declines ht | proposes ht | lands ht | misses ht =>
    exact (hm _ (List.mem_of_getElem? ht) _ List.mem_cons_self).elim

/-- The history of threads that make operations is that of calls made one after the other. -/
theorem run_history (hm : m.Issues Call.Immediate) {schedule : List Nat}
    (hrun : m.run schedule = .ok m') :
    (∃ calls, m.history schedule = calls.zip (Call.replay m.storage.dispose calls).1 ∧
      m.pending.Perm (calls ++ m'.pending)) ∧
      m'.returns.Perm ((m.history schedule).map Prod.snd ++ m.returns) := by
  induction schedule generalizing m with
  | nil =>
    cases hrun
    exact ⟨⟨[], rfl, List.Perm.refl _⟩, List.Perm.refl _⟩
  | cons i schedule ih =>
    obtain ⟨m₁, h1, hmoves⟩ := step_moves m i
    rw [run, h1] at hrun
    obtain ⟨⟨calls, hhistory, hpending⟩, hreturns⟩ := ih (hmoves.issues hm) hrun
    rw [history, h1]
    dsimp only
    rcases step_history hm h1 with ⟨hended, rfl⟩ | ⟨call, hended, hvalue, hp, hr⟩
    · rw [hended, List.nil_append]
      exact ⟨⟨calls, hhistory, hpending⟩, hreturns⟩
    · rw [hended, List.singleton_append]
      refine ⟨⟨call :: calls, ?_, hp.trans (hpending.cons call)⟩, ?_⟩
      · rw [hhistory, hvalue]
        rfl
      · exact hreturns.trans ((hr.append_left _).trans List.perm_middle)

theorem pending_init (s : Storage α) (programs : List (List (Call α))) :
    (init s programs).pending = programs.flatten := by
  unfold pending init
  rw [List.flatMap_map]
  exact List.flatMap_id

theorem returns_init (s : Storage α) (programs : List (List (Call α))) :
    (init s programs).returns = [] := by
  unfold returns init
  rw [List.flatMap_map]
  exact List.flatMap_eq_nil_iff.mpr fun _ _ => rfl

/-- Whether threads have finished after a run can be evaluated. -/
theorem finished_of_run {schedule : List Nat} (hrun : m.run schedule = .ok m')
    (h : (m.run schedule).map finished = .ok true) : m'.finished = true := by
  rw [hrun] at h
  exact Except.ok.inj h

theorem pending_of_finished (h : m.finished = true) : m.pending = [] :=
  List.flatMap_eq_nil_iff.mpr fun t ht => List.isEmpty_iff.mp (List.all_eq_true.mp h t ht)

end Machine

/-! ## Fetches in a row -/

/-- A fetch that was made, and the value it gave back. -/
structure Fetched (α : Type) where
  fetch : Fetch α
  previous : α

namespace Fetched

variable {α : Type}

/-- The call of the fetch, with what it gave back. -/
def outcome (c : Fetched α) : Call α × Return α := (c.fetch.toCall, .reply (.value c.previous))

variable [Codec α]

/-- Fetches made one after the other on a value: each gives back what the one before has left. -/
def row : α → List (Fetch α) → List (Fetched α)
  | _, [] => []
  | v, c :: rest => ⟨c, v⟩ :: row (c.result v) rest

theorem fetch_row (v : α) (fetches : List (Fetch α)) : (row v fetches).map fetch = fetches := by
  induction fetches generalizing v with
  | nil => rfl
  | cons c rest ih => rw [row, List.map_cons, ih]

theorem zip_replay (v : α) (fetches : List (Fetch α)) :
    (fetches.map Fetch.toCall).zip (Call.replay v (fetches.map Fetch.toCall)).1 =
      (row v fetches).map outcome := by
  induction fetches generalizing v with
  | nil => rfl
  | cons c rest ih =>
    rw [List.map_cons, Call.replay, List.zip_cons_cons, row, List.map_cons, Fetch.result,
      Fetch.perform_toCall]
    exact congrArg (outcome ⟨c, v⟩ :: ·) (ih _)

end Fetched

namespace Machine

variable {α : Type} [Codec α]

/-- Threads that make fetches never fault.  The history of a run is a row of fetches, which are the
calls of the threads but for those left over, and what they give back is what the threads get. -/
theorem run_fetches (s : Storage α) (programs : List (List (Fetch α))) (schedule : List Nat) :
    ∃ m fetches left,
      (init s (programs.map (List.map Fetch.toCall))).run schedule = .ok m ∧
      (init s (programs.map (List.map Fetch.toCall))).history schedule =
        (Fetched.row s.dispose fetches).map Fetched.outcome ∧
      m.returns.Perm ((Fetched.row s.dispose fetches).map fun c => .reply (.value c.previous)) ∧
      (fetches ++ left).Perm programs.flatten ∧ (m.finished = true → left = []) := by
  have hcalls : (programs.map (List.map Fetch.toCall)).flatten =
      programs.flatten.map Fetch.toCall := List.map_flatten.symm
  have hissues : (init s (programs.map (List.map Fetch.toCall))).Issues Call.Immediate := by
    refine issues_init ?_ s
    intro call hcall
    rw [hcalls] at hcall
    obtain ⟨c, -, rfl⟩ := List.mem_map.mp hcall
    cases c <;> trivial
  obtain ⟨m, hrun⟩ := run_ok (init s (programs.map (List.map Fetch.toCall))) schedule
  obtain ⟨⟨calls, hhistory, hpending⟩, hreturns⟩ := run_history hissues hrun
  rw [pending_init, hcalls] at hpending
  rw [returns_init, List.append_nil] at hreturns
  obtain ⟨all, hall, hmap⟩ := perm_of_map hpending.symm
  obtain ⟨fetches, left, rfl, rfl, hleft⟩ := List.map_eq_append_iff.mp hmap
  have hrow : (init s (programs.map (List.map Fetch.toCall))).history schedule =
      (Fetched.row s.dispose fetches).map Fetched.outcome :=
    hhistory.trans (Fetched.zip_replay s.dispose fetches)
  refine ⟨m, fetches, left, hrun, hrow, ?_, hall, ?_⟩
  · rw [hrow, List.map_map] at hreturns
    exact hreturns
  · intro hfinished
    rw [pending_of_finished hfinished] at hleft
    exact List.map_eq_nil_iff.mp hleft

end Machine

end OrderedAtomics
