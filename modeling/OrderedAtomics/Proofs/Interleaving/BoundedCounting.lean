import OrderedAtomics.Proofs.Interleaving.Linearization
import OrderedAtomics.Proofs.Counter

/-
  Threads that count on one storage with a checked addition stop exactly at the end of the range.
  Calls made one after the other add their step while the sum fits; the first that does not fit
  leaves the value, so no later one does either (`replay_adding`).  Which thread makes a call plays
  no part in this, hence how many calls succeed and what is left is the same for every schedule
  (`bounded_counting_exact`).
-/
namespace OrderedAtomics

/-! ## How far a counter gets -/

namespace Counter

variable {α : Type} [CheckedAdd α] [Counter α]

/-- A number between two that fit fits. -/
theorem fits_between {a b c : Int} (ha : Fits α a) (hc : Fits α c)
    (h : a ≤ b ∧ b ≤ c ∨ c ≤ b ∧ b ≤ a) : Fits α b := by
  unfold Fits at *
  omega

/-- One step fits on the way to several. -/
theorem fits_step {a : α} {v : Int} {n : Nat} (hn : 0 < n) (h : Fits α (toInt a + n * v)) :
    Fits α (toInt a + v) := by
  apply fits_between (toInt_range a) h
  rcases Int.le_total 0 v with hv | hv
  · have := Int.mul_le_mul_of_nonneg_right (show (1 : Int) ≤ n by omega) hv
    left; omega
  · have := Int.mul_le_mul_of_nonpos_right (show (1 : Int) ≤ n by omega) hv
    right; omega

/-- The numbers of steps, at most `most`, that fit from `a`. -/
def room (a v : α) (most : Nat) : Set Nat :=
  {n | n ≤ most ∧ Fits α (toInt a + n * toInt v)}

theorem room_of_not_fits {a v : α} (h : ¬ Fits α (toInt a + toInt v)) (most : Nat) :
    IsGreatest (room a v most) 0 := by
  refine ⟨⟨Nat.zero_le most, ?_⟩, ?_⟩
  · rw [Int.natCast_zero, Int.zero_mul, Int.add_zero]
    exact toInt_range a
  · intro n hn
    by_contra hpos
    exact h (fits_step (Nat.pos_of_ne_zero fun e => hpos (Nat.le_of_eq e)) hn.2)

/-- After one step there is room for one step less. -/
theorem room_of_step {a b v : α} (hb : toInt b = toInt a + toInt v) {most k : Nat}
    (h : IsGreatest (room b v most) k) : IsGreatest (room a v (most + 1)) (k + 1) := by
  have hstep : ∀ n : Nat, toInt a + ((n + 1 : Nat) : Int) * toInt v =
      toInt b + n * toInt v := by
    intro n
    rw [hb, Int.natCast_succ, Int.add_mul, Int.one_mul]
    omega
  refine ⟨⟨Nat.succ_le_succ h.1.1, ?_⟩, ?_⟩
  · rw [hstep]
    exact h.1.2
  · intro n hn
    cases n with
    | zero => exact Nat.zero_le _
    | succ n =>
      refine Nat.succ_le_succ (h.2 ⟨Nat.le_of_succ_le_succ hn.1, ?_⟩)
      rw [← hstep]
      exact hn.2

/-- What counting calls come to that start at `a`, give back `returned` and leave `b`: `hits` of
them succeed. -/
structure Counted (a v : α) (hits : Nat) (returned : List (Return α)) (b : α) : Prop where
  /-- As many calls succeed as there is room for. -/
  greatest : IsGreatest (room a v returned.length) hits
  count : returned.countP Return.succeeded = hits
  /-- Each call that succeeds has counted. -/
  value : toInt b = toInt a + hits * toInt v
  /-- Every other call gives back the value that is left. -/
  outcomes : ∀ r ∈ returned, (∃ c, r = .updated (.ok c)) ∨ r = .updated (.error b)

namespace Counted

variable {a b c v : α} {hits : Nat} {returned returned' : List (Return α)}

theorem nil (a v : α) : Counted a v 0 [] a where
  greatest := by
    refine ⟨⟨Nat.le_refl 0, ?_⟩, fun n hn => hn.1⟩
    rw [Int.natCast_zero, Int.zero_mul, Int.add_zero]
    exact toInt_range a
  count := rfl
  value := by omega
  outcomes r hr := nomatch hr

theorem hit (h : Counted b v hits returned c) (hb : toInt b = toInt a + toInt v) :
    Counted a v (hits + 1) (.updated (.ok a) :: returned) c where
  greatest := room_of_step hb h.greatest
  count := by
    rw [List.countP_cons_of_pos rfl, h.count]
  value := by
    rw [h.value, hb, Int.natCast_succ, Int.add_mul, Int.one_mul]
    omega
  outcomes r hr := by
    rcases List.mem_cons.mp hr with rfl | hr
    · exact .inl ⟨a, rfl⟩
    · exact h.outcomes r hr

/-- Once a step does not fit no call succeeds any more. -/
theorem miss (h : Counted a v hits returned c) (ha : ¬ Fits α (toInt a + toInt v)) :
    Counted a v 0 (.updated (.error a) :: returned) c := by
  have hzero : hits = 0 := h.greatest.unique (room_of_not_fits ha _)
  subst hzero
  have hc : c = a := toInt_inj (by rw [h.value]; omega)
  refine ⟨room_of_not_fits ha _, ?_, h.value, ?_⟩
  · rw [List.countP_cons_of_neg (by simp [Return.succeeded]), h.count]
  · intro r hr
    rcases List.mem_cons.mp hr with rfl | hr
    · rw [hc]
      exact .inr rfl
    · exact h.outcomes r hr

theorem perm (h : Counted a v hits returned b) (hp : returned'.Perm returned) :
    Counted a v hits returned' b where
  greatest := by rw [hp.length_eq]; exact h.greatest
  count := by rw [hp.countP_eq]; exact h.count
  value := h.value
  outcomes r hr := h.outcomes r (hp.mem_iff.mp hr)

/-- The number of calls and the value they start from decide how many succeed and what is left. -/
theorem unique {hits' : Nat} {b' : α} (h : Counted a v hits returned b)
    (h' : Counted a v hits' returned' b') (hlength : returned.length = returned'.length) :
    hits = hits' ∧ b = b' := by
  have hhits : hits = hits' := h.greatest.unique (hlength ▸ h'.greatest)
  refine ⟨hhits, toInt_inj ?_⟩
  rw [h.value, h'.value, hhits]

end Counted

end Counter

/-! ## Counting calls -/

variable {α : Type} [Codec α] [CheckedAdd α] [Counter α]

/-- A retry loop that adds `v` unless the sum does not fit. -/
def Call.adding {α : Type} [CheckedAdd α] (v : α) (o : ExchangeOrdering) : Call α :=
  .update (fun a => CheckedAdd.checkedAdd a v) o

namespace Counter

theorem perform_of_fits {a v : α} (h : Fits α (toInt a + toInt v)) :
    ∃ b, toInt b = toInt a + toInt v ∧
      ∀ o, (Call.adding v o).perform a = (.updated (.ok a), b) := by
  obtain ⟨b, hb, hn⟩ := checkedAdd_of_fits h
  refine ⟨b, hn, fun o => ?_⟩
  simp only [Call.adding, Call.perform, hb]

theorem perform_of_not_fits {a v : α} (h : ¬ Fits α (toInt a + toInt v)) (o : ExchangeOrdering) :
    (Call.adding v o).perform a = (.updated (.error a), a) := by
  simp only [Call.adding, Call.perform, checkedAdd_of_not_fits h]

/-- Counting calls made one after the other.  The induction is on the calls, for any value they
start from: a call that does not fit leaves the value as it is, and the rest fares likewise. -/
theorem replay_adding {v : α} {calls : List (Call α)}
    (hcalls : ∀ call ∈ calls, ∃ o, call = Call.adding v o) (a : α) :
    ∃ hits, Counted a v hits (Call.replay a calls).1 (Call.replay a calls).2 := by
  induction calls generalizing a with
  | nil => exact ⟨0, Counted.nil a v⟩
  | cons call rest ih =>
    have ih := ih fun c hc => hcalls c (List.mem_cons_of_mem call hc)
    obtain ⟨o, rfl⟩ := hcalls call List.mem_cons_self
    by_cases h : Fits α (toInt a + toInt v)
    · obtain ⟨b, hb, hperform⟩ := perform_of_fits h
      obtain ⟨hits, hrest⟩ := ih b
      rw [Call.replay, hperform]
      exact ⟨hits + 1, hrest.hit hb⟩
    · obtain ⟨hits, hrest⟩ := ih a
      rw [Call.replay, perform_of_not_fits h]
      exact ⟨0, hrest.miss h⟩

end Counter

namespace Machine

open Counter

/-- **Bounded counting is exact.** Threads make calls that add `v` to a counter unless the sum does
not fit.  There are a number `hits` and a value `last`, the same for every schedule, such that once
all threads have finished exactly `hits` calls have succeeded and `last` is left, which every other
call has given back: `hits` is the greatest number of steps, at most the number of calls, that the
type has room for, and `last` is the first value and `hits` steps, with no wrap. -/
theorem bounded_counting_exact (s : Storage α) (v : α) (programs : List (List ExchangeOrdering)) :
    ∃ (hits : Nat) (last : α),
      IsGreatest {n : Nat | n ≤ programs.flatten.length ∧
        Fits α (toInt s.dispose + n * toInt v)} hits ∧
      (toInt v = 0 → hits = programs.flatten.length) ∧
      toInt last = toInt s.dispose + hits * toInt v ∧
      ∀ schedule, ∃ m, (init s (programs.map (List.map (Call.adding v)))).run schedule = .ok m ∧
        (m.finished = true →
          m.storage.dispose = last ∧
          m.returns.length = programs.flatten.length ∧
          m.returns.countP Return.succeeded = hits ∧
          ∀ r ∈ m.returns, (∃ a, r = .updated (.ok a)) ∨ r = .updated (.error last)) := by
  have hadding : ∀ call ∈ (programs.map (List.map (Call.adding v))).flatten,
      ∃ o, call = Call.adding v o := by
    intro call hcall
    rw [← List.map_flatten] at hcall
    obtain ⟨o, -, rfl⟩ := List.mem_map.mp hcall
    exact ⟨o, rfl⟩
  have hlength : (programs.map (List.map (Call.adding v))).flatten.length =
      programs.flatten.length := by
    rw [← List.map_flatten, List.length_map]
  -- The calls in program order show how far the counter gets.
  obtain ⟨hits, hcounted⟩ := replay_adding hadding s.dispose
  have hgreatest := hcounted.greatest
  rw [Call.replay_length, hlength] at hgreatest
  refine ⟨hits, _, hgreatest, ?_, hcounted.value, ?_⟩
  · intro hzero
    refine Nat.le_antisymm hgreatest.1.1 (hgreatest.2 ⟨Nat.le_refl _, ?_⟩)
    rw [hzero, Int.mul_zero, Int.add_zero]
    exact toInt_range s.dispose
  · intro schedule
    obtain ⟨m, hrun, hreplay⟩ := run_replay s (programs.map (List.map (Call.adding v))) schedule
    refine ⟨m, hrun, fun hm => ?_⟩
    obtain ⟨calls, hperm, hreturns, hvalue⟩ := hreplay hm
    obtain ⟨hits', hcounted'⟩ := replay_adding (fun c hc => hadding c (hperm.mem_iff.mp hc))
      s.dispose
    have hcalls : m.returns.length = programs.flatten.length := by
      rw [hreturns.length_eq, Call.replay_length, hperm.length_eq, hlength]
    have hmachine := hcounted'.perm hreturns
    rw [← hvalue] at hmachine
    obtain ⟨rfl, hlast⟩ := hmachine.unique hcounted (by rw [hcalls, Call.replay_length, hlength])
    rw [← hlast]
    exact ⟨rfl, hcalls, hmachine.count, hmachine.outcomes⟩

/-- Two threads count down from minus 126, twice each; one finds the value changed between its
load and its compare-exchange.  Two calls reach the least signed byte and the others see it. -/
theorem bounded_counting_exact_downwards :
    ∃ m, (init (.holding ⟨-126⟩) ([[⟨.acqRel, .acquire, by decide⟩, ⟨.seqCst, .relaxed, by decide⟩],
        [⟨.relaxed, .relaxed, by decide⟩, ⟨.release, .relaxed, by decide⟩]].map
          (List.map (Call.adding (⟨-1⟩ : MachineInt .signed 8))))).run
        [0, 1, 0, 1, 0, 1, 1, 1, 1, 1, 0, 0] = .ok m ∧
      m.finished = true ∧ m.storage.dispose = ⟨-128⟩ ∧ m.returns.length = 4 ∧
      m.returns.countP Return.succeeded = 2 ∧
      ∀ r ∈ m.returns, (∃ a, r = .updated (.ok a)) ∨ r = .updated (.error ⟨-128⟩) := by
  obtain ⟨hits, last, -, -, -, hschedule⟩ := bounded_counting_exact (.holding ⟨-126⟩)
    (⟨-1⟩ : MachineInt .signed 8)
    [[⟨.acqRel, .acquire, by decide⟩, ⟨.seqCst, .relaxed, by decide⟩],
      [⟨.relaxed, .relaxed, by decide⟩, ⟨.release, .relaxed, by decide⟩]]
  obtain ⟨m, hrun, hdone⟩ := hschedule [0, 1, 0, 1, 0, 1, 1, 1, 1, 1, 0, 0]
  have hm := Except.ok.inj (hrun.symm.trans rfl)
  have hfinished : m.finished = true := by rw [hm]; rfl
  obtain ⟨hvalue, hlength, hcount, houtcomes⟩ := hdone hfinished
  have hlast : m.storage.dispose = ⟨-128⟩ := by rw [hm]; rfl
  have hhits : m.returns.countP Return.succeeded = 2 := by rw [hm]; rfl
  rw [← hvalue, hlast] at houtcomes
  exact ⟨m, hrun, hfinished, hlast, hlength, hhits, houtcomes⟩

end Machine

end OrderedAtomics
