import OrderedAtomics.Proofs.Interleaving.Moves
import Mathlib

/-
  Threads that all try to replace the first value of a storage by one of their own elect a winner.
  The attempt that comes first happens; from then on the storage is steady: an attempt leaves the
  value and gives back the same as all others, whoever makes it (`Steady`, kept by every step).
  Where each thread wants another value the storage is steady only after the first attempt, and
  where all want the first value it is so from the start.
-/
namespace OrderedAtomics

namespace Return

variable {α : Type}

/-- What a compare-exchange gives back that happened. -/
def hit (v : α) : Return α := .reply (.exchanged (.ok v))

/-- What a compare-exchange gives back that found another value than expected. -/
def miss (v : α) : Return α := .reply (.exchanged (.error v))

end Return

/-- A thread that wants to store a value, and how it attempts to. -/
structure Contender (α : Type) where
  desired : α
  attempts : List (Strength × ExchangeOrdering)

namespace Contender

variable {α : Type} (first : α) (c : Contender α)

/-- Its calls: compare-exchanges that expect the first value. -/
def calls : List (Call α) :=
  c.attempts.map fun a => .operate (.compareExchange a.1 first c.desired a.2)

/-- The thread whose attempts so far gave back `returned`. -/
def having (returned : List (Return α)) : Thread α :=
  ⟨(c.calls first).drop returned.length, .start, returned⟩

variable [Codec α]

/-- What an attempt gives back where `v` is stored, and the value it leaves. -/
def attempt (v : α) : Return α × α :=
  if v = first then (.hit v, c.desired) else (.miss v, v)

variable {first}

theorem attempt_first : c.attempt first first = (.hit first, c.desired) := if_pos rfl

theorem attempt_other {v : α} (h : v ≠ first) : c.attempt first v = (.miss v, v) := if_neg h

/-- Strength and ordering of an attempt play no part. -/
theorem perform_eq (a : Strength × ExchangeOrdering) (v : α) :
    Call.perform v (.operate (.compareExchange a.1 first c.desired a.2)) = c.attempt first v := by
  unfold Call.perform attempt
  by_cases h : v = first
  · simp only [Register.perform, if_pos h]
    rfl
  · simp only [Register.perform, if_neg h]
    rfl

end Contender

namespace Machine

variable {α : Type} [Codec α] {first : α} {c : Contender α} {m m' : Machine α} {i : Nat}
  {returned : List (Return α)}

theorem step_attempt (ht : m.threads[i]? = some (c.having first returned))
    (hlt : returned.length < c.attempts.length) :
    m.step i = .ok ⟨.holding (c.attempt first m.storage.dispose).2,
      m.threads.set i
        (c.having first ((c.attempt first m.storage.dispose).1 :: returned))⟩ := by
  have hcalls : returned.length < (c.calls first).length := by
    unfold Contender.calls
    rw [List.length_map]
    exact hlt
  have hpending : (c.calls first).drop returned.length =
      .operate (.compareExchange c.attempts[returned.length].1 first c.desired
        c.attempts[returned.length].2) :: (c.calls first).drop (returned.length + 1) := by
    rw [List.drop_eq_getElem_cons hcalls]
    congr 1
    exact List.getElem_map _
  unfold Contender.having at ht
  rw [hpending] at ht
  rw [step_eq ht (Thread.step_operate ..), ← c.perform_eq c.attempts[returned.length]]
  rfl

theorem step_exhausted (ht : m.threads[i]? = some (c.having first returned))
    (hle : c.attempts.length ≤ returned.length) : m.step i = .ok m := by
  refine step_idle fun t h => ?_
  cases ht.symm.trans h
  refine List.drop_eq_nil_of_le ?_
  unfold Contender.calls
  rw [List.length_map]
  exact hle

/-- A turn of nobody changes nothing. -/
theorem step_nobody (h : m.threads.length ≤ i) : m.step i = .ok m := by
  refine step_idle fun t ht => ?_
  rw [List.getElem?_eq_none h] at ht
  cases ht

theorem length_init (s : Storage α) (contenders : List (Contender α)) :
    (init s (contenders.map (Contender.calls s.dispose))).threads.length = contenders.length := by
  unfold init
  rw [List.length_map, List.length_map]

theorem threads_init (s : Storage α) {contenders : List (Contender α)}
    (hc : contenders[i]? = some c) :
    (init s (contenders.map (Contender.calls s.dispose))).threads[i]? =
      some (c.having s.dispose []) := by
  unfold init
  rw [List.getElem?_map, List.getElem?_map, hc]
  rfl

/-! ## A steady storage -/

/-- After a schedule the storage holds `v`; each contender `i` has got back `base i`, and for all
further attempts `r`. -/
structure Steady (contenders : List (Contender α)) (first v : α) (r : Return α)
    (base : Nat → List (Return α)) (schedule : List Nat) (m : Machine α) : Prop where
  value : m.storage.dispose = v
  length : m.threads.length = contenders.length
  threads : ∀ (i : Nat) (c : Contender α), contenders[i]? = some c →
    ∃ k, m.threads[i]? = some (c.having first (List.replicate k r ++ base i)) ∧
      k + (base i).length = min (schedule.count i) c.attempts.length

namespace Steady

variable {contenders : List (Contender α)} {v : α} {r : Return α} {base : Nat → List (Return α)}
  {schedule : List Nat}

theorem nobody (h : Steady contenders first v r base schedule m) (hi : contenders[i]? = none) :
    m.threads.length ≤ i := by
  rw [h.length]
  exact List.getElem?_eq_none_iff.mp hi

/-- One more turn of `j`, which concerns that thread alone. -/
theorem extend (h : Steady contenders first v r base schedule m) {j : Nat}
    (hvalue : m'.storage.dispose = v) (hlength : m'.threads.length = m.threads.length)
    (hothers : ∀ i, i ≠ j → m'.threads[i]? = m.threads[i]?)
    (hself : ∀ c, contenders[j]? = some c →
      ∃ k, m'.threads[j]? = some (c.having first (List.replicate k r ++ base j)) ∧
        k + (base j).length = min (schedule.count j + 1) c.attempts.length) :
    Steady contenders first v r base (schedule ++ [j]) m' := by
  refine ⟨hvalue, hlength.trans h.length, ?_⟩
  intro i c hc
  rw [List.count_append]
  by_cases hij : i = j
  · subst hij
    rw [List.count_singleton_self]
    exact hself c hc
  · rw [List.count_eq_zero.mpr fun h => hij (List.mem_singleton.mp h), hothers i hij]
    exact h.threads i c hc

/-- If attempts on `v` leave it and give back `r`, the storage stays steady. -/
theorem step (h : Steady contenders first v r base schedule m)
    (hr : ∀ c ∈ contenders, c.attempt first v = (r, v)) (j : Nat) :
    ∃ m', m.step j = .ok m' ∧ Steady contenders first v r base (schedule ++ [j]) m' := by
  have hvalue := h.value
  cases hc : contenders[j]? with
  | none =>
    refine ⟨m, step_nobody (h.nobody hc), h.extend hvalue rfl (fun _ _ => rfl) ?_⟩
    intro c hc'
    rw [hc] at hc'
    cases hc'
  | some c =>
    have hattempt := hr c (List.mem_of_getElem? hc)
    obtain ⟨k, ht, hk⟩ := h.threads j c hc
    have hreturned : (List.replicate k r ++ base j).length = k + (base j).length := by
      rw [List.length_append, List.length_replicate]
    by_cases hlt : (List.replicate k r ++ base j).length < c.attempts.length
    · refine ⟨_, step_attempt ht hlt, h.extend ?_ List.length_set ?_ ?_⟩
      · rw [Storage.dispose_holding, hvalue, hattempt]
      · intro i hi
        exact List.getElem?_set_ne (Ne.symm hi)
      · intro c' hc'
        cases hc.symm.trans hc'
        refine ⟨k + 1, ?_, by omega⟩
        rw [hvalue, hattempt]
        exact List.getElem?_set_self (List.getElem?_eq_some_iff.mp ht).1
    · refine ⟨m, step_exhausted ht (Nat.le_of_not_lt hlt), h.extend hvalue rfl (fun _ _ => rfl) ?_⟩
      intro c' hc'
      cases hc.symm.trans hc'
      exact ⟨k, ht, by omega⟩

theorem run (h : Steady contenders first v r base schedule m)
    (hr : ∀ c ∈ contenders, c.attempt first v = (r, v)) (after : List Nat) :
    ∃ m', m.run after = .ok m' ∧ Steady contenders first v r base (schedule ++ after) m' := by
  induction after generalizing m schedule with
  | nil =>
    refine ⟨m, rfl, ?_⟩
    rw [List.append_nil]
    exact h
  | cons j after ih =>
    obtain ⟨m₁, h1, hsteady₁⟩ := h.step hr j
    obtain ⟨m', h2, hsteady⟩ := ih hsteady₁
    refine ⟨m', ?_, ?_⟩
    · rw [Machine.run, h1]
      exact h2
    · rw [List.append_assoc, List.singleton_append] at hsteady
      exact hsteady

/-- At first nobody has got anything back. -/
theorem init (s : Storage α) (contenders : List (Contender α)) (r : Return α) :
    Steady contenders s.dispose s.dispose r (fun _ => []) []
      (init s (contenders.map (Contender.calls s.dispose))) := by
  refine ⟨rfl, length_init s contenders, ?_⟩
  intro i c hc
  refine ⟨0, threads_init s hc, ?_⟩
  rw [List.count_nil, Nat.zero_min]
  rfl

/-- What a thread has got back. -/
theorem returned_eq (h : Steady contenders first v r base schedule m) {t : Thread α}
    (ht : m.threads[i]? = some t) : ∃ k, t.returned = List.replicate k r ++ base i := by
  have hi : i < contenders.length := by
    rw [← h.length]
    exact (List.getElem?_eq_some_iff.mp ht).1
  obtain ⟨k, ht', -⟩ := h.threads i _ (List.getElem?_eq_getElem hi)
  cases ht.symm.trans ht'
  exact ⟨k, rfl⟩

/-- Where the storage was steady from the start all attempts have given back the same. -/
theorem eq_of_mem_returns (h : Steady contenders first v r (fun _ => []) schedule m) {x : Return α}
    (hx : x ∈ m.returns) : x = r := by
  obtain ⟨t, ht, hx⟩ := List.mem_flatMap.mp hx
  obtain ⟨i, hi⟩ := List.mem_iff_getElem?.mp ht
  obtain ⟨k, hreturned⟩ := h.returned_eq hi
  rw [hreturned, List.append_nil] at hx
  exact List.eq_of_mem_replicate hx

/-- Threads that have finished have made all their attempts. -/
theorem returns_length (h : Steady contenders first v r base schedule m)
    (hfinished : m.finished = true) :
    m.returns.length = (contenders.map fun c => c.attempts.length).sum := by
  have hlengths : (m.threads.map fun t => t.returned.length) =
      contenders.map fun c => c.attempts.length := by
    apply List.ext_getElem?
    intro i
    rw [List.getElem?_map, List.getElem?_map]
    cases hc : contenders[i]? with
    | none =>
      rw [List.getElem?_eq_none (h.nobody hc)]
      rfl
    | some c =>
      obtain ⟨k, ht, hk⟩ := h.threads i c hc
      rw [ht, Option.map_some, Option.map_some]
      have hpending := List.isEmpty_iff.mp
        (List.all_eq_true.mp hfinished _ (List.mem_of_getElem? ht))
      have hle := List.drop_eq_nil_iff.mp hpending
      unfold Contender.calls at hle
      rw [List.length_map] at hle
      congr 1
      unfold Contender.having
      dsimp only
      rw [List.length_append, List.length_replicate] at hle ⊢
      omega
  unfold returns
  rw [List.length_flatMap, hlengths]

end Steady

/-! ## The first attempt -/

section Election

variable {contenders : List (Contender α)} {s : Storage α}

/-- Turns of nobody change nothing. -/
theorem run_nobody {schedule : List Nat} (h : ∀ i ∈ schedule, m.threads.length ≤ i) :
    m.run schedule = .ok m := by
  induction schedule with
  | nil => rfl
  | cons i schedule ih =>
    rw [run, step_nobody (h i List.mem_cons_self)]
    exact ih fun j hj => h j (List.mem_cons_of_mem i hj)

/-- After the first attempt the storage is steady. -/
theorem steady_of_first {w : Nat} (hc : contenders[w]? = some c) (hattempts : c.attempts ≠ [])
    {before : List Nat} (hbefore : ∀ i ∈ before, contenders.length ≤ i) :
    ∃ m, (init s (contenders.map (Contender.calls s.dispose))).run (before ++ [w]) = .ok m ∧
      Steady contenders s.dispose c.desired (.miss c.desired)
        (fun i => if i = w then [.hit s.dispose] else []) (before ++ [w]) m := by
  have hpos := List.length_pos_iff.mpr hattempts
  have hcount : ∀ {i : Nat} {c : Contender α}, contenders[i]? = some c →
      before.count i = 0 := by
    intro i c hi
    refine List.count_eq_zero.mpr fun hmem => ?_
    exact absurd (List.getElem?_eq_some_iff.mp hi).1 (Nat.not_lt.mpr (hbefore i hmem))
  have hrun : (init s (contenders.map (Contender.calls s.dispose))).run before =
      .ok (init s (contenders.map (Contender.calls s.dispose))) := by
    refine run_nobody fun i hi => ?_
    rw [length_init]
    exact hbefore i hi
  have hvalue : (init s (contenders.map (Contender.calls s.dispose))).storage.dispose =
      s.dispose := rfl
  refine ⟨_, run_extend hrun (step_attempt (threads_init s hc) hpos), ?_⟩
  rw [hvalue, c.attempt_first]
  refine ⟨Storage.dispose_holding _, List.length_set.trans (length_init s contenders), ?_⟩
  intro i c' hi
  rw [List.count_append, hcount hi]
  by_cases hiw : i = w
  · subst hiw
    cases hc.symm.trans hi
    rw [if_pos rfl, List.count_singleton_self]
    refine ⟨0, ?_, (Nat.min_eq_left hpos).symm⟩
    exact List.getElem?_set_self (List.getElem?_eq_some_iff.mp (threads_init s hc)).1
  · rw [if_neg hiw, List.count_eq_zero.mpr fun h => hiw (List.mem_singleton.mp h)]
    refine ⟨0, ?_, (Nat.zero_min _).symm⟩
    rw [List.getElem?_set_ne (Ne.symm hiw)]
    exact threads_init s hi

/-- Who comes first in the schedule makes the first attempt. -/
theorem run_contested {w : Nat} {schedule : List Nat}
    (hcontenders : ∀ c ∈ contenders, c.desired ≠ s.dispose ∧ c.attempts ≠ [])
    (hfind : schedule.find? (· < contenders.length) = some w) :
    ∃ c m, contenders[w]? = some c ∧
      (init s (contenders.map (Contender.calls s.dispose))).run schedule = .ok m ∧
      Steady contenders s.dispose c.desired (.miss c.desired)
        (fun i => if i = w then [.hit s.dispose] else []) schedule m := by
  obtain ⟨hw, before, after, rfl, hbefore⟩ := List.find?_eq_some_iff_append.mp hfind
  have hc := List.getElem?_eq_getElem (of_decide_eq_true hw)
  obtain ⟨hdesired, hattempts⟩ := hcontenders _ (List.mem_of_getElem? hc)
  have hnobody : ∀ i ∈ before, contenders.length ≤ i := by
    intro i hi
    simpa using hbefore i hi
  obtain ⟨m₁, hrun₁, hsteady₁⟩ := steady_of_first (s := s) hc hattempts hnobody
  obtain ⟨m, hrun, hsteady⟩ := hsteady₁.run (fun c _ => c.attempt_other hdesired) after
  rw [← List.append_cons] at hsteady
  refine ⟨_, m, hc, ?_, hsteady⟩
  rw [List.append_cons, run_append, hrun₁]
  exact hrun

/-- Of all attempts only the first of the winner has succeeded. -/
theorem filter_succeeded {w : Nat} {v : α} {schedule : List Nat} (hc : contenders[w]? = some c)
    (h : Steady contenders first v (.miss v) (fun i => if i = w then [.hit first] else [])
      schedule m) : m.returns.filter Return.succeeded = [.hit first] := by
  have hmisses : ∀ k, (List.replicate k (Return.miss v)).filter Return.succeeded = [] := fun k =>
    List.filter_replicate_of_neg Bool.false_ne_true
  obtain ⟨k, ht, -⟩ := h.threads w c hc
  -- The winner's thread is written over itself, to set it apart from those that never succeeded.
  unfold returns
  rw [List.filter_flatMap, ← set_of_getElem? ht,
    flatMap_set_eq (List.getElem?_eq_some_iff.mp ht).1]
  · rw [if_pos rfl]
    show (List.replicate k _ ++ [Return.hit first]).filter _ = _
    rw [List.filter_append, hmisses]
    rfl
  · intro j t hj ht
    obtain ⟨k, hreturned⟩ := h.returned_eq ht
    rw [hreturned, if_neg hj, List.append_nil, hmisses]

/-- A complete run has a first attempt. -/
theorem find?_of_finished {schedule : List Nat} (hsome : contenders ≠ [])
    (hattempts : ∀ c ∈ contenders, c.attempts ≠ [])
    (hrun : (init s (contenders.map (Contender.calls s.dispose))).run schedule = .ok m)
    (hfinished : m.finished = true) : ∃ w, schedule.find? (· < contenders.length) = some w := by
  cases hfind : schedule.find? (· < contenders.length) with
  | some w => exact ⟨w, rfl⟩
  | none =>
    have hnobody : ∀ i ∈ schedule, contenders.length ≤ i := by
      intro i hi
      simpa using List.find?_eq_none.mp hfind i hi
    cases hrun.symm.trans (run_nobody (by rw [length_init]; exact hnobody))
    obtain ⟨c, rest, rfl⟩ := List.exists_cons_of_ne_nil hsome
    have hcalls : c.calls s.dispose = [] :=
      List.isEmpty_iff.mp (List.all_eq_true.mp hfinished _ List.mem_cons_self)
    exact absurd (List.map_eq_nil_iff.mp hcalls) (hattempts c List.mem_cons_self)

/-- Where all want the first value the storage is steady from the start. -/
theorem run_tied (s : Storage α) (htie : ∀ c ∈ contenders, c.desired = s.dispose)
    (schedule : List Nat) :
    ∃ m, (init s (contenders.map (Contender.calls s.dispose))).run schedule = .ok m ∧
      Steady contenders s.dispose s.dispose (.hit s.dispose) (fun _ => []) schedule m := by
  have hattempt : ∀ c ∈ contenders,
      c.attempt s.dispose s.dispose = (.hit s.dispose, s.dispose) := by
    intro c hc
    rw [c.attempt_first, htie c hc]
  exact (Steady.init s contenders _).run hattempt schedule

/-- **A compare-exchange elects one winner.** Each thread makes its attempts, weak or strong, to
replace the first value by its own.  Where all of them want another value, the one who comes first
in the schedule wins: its first attempt is the only one ever to succeed and gives back the first
value, its value is stored for good, and every other attempt fails with that value.  A run in which
all threads finish has a winner.  Where all want the first value, all attempts succeed and it
stays. -/
theorem compare_exchange_elects_one (s : Storage α) (contenders : List (Contender α))
    (schedule : List Nat) :
    ∃ m, (init s (contenders.map (Contender.calls s.dispose))).run schedule = .ok m ∧
      ((∀ c ∈ contenders, c.desired ≠ s.dispose ∧ c.attempts ≠ []) →
        (contenders ≠ [] → m.finished = true →
          ∃ w, schedule.find? (· < contenders.length) = some w) ∧
        ∀ w, schedule.find? (· < contenders.length) = some w →
          ∃ c, contenders[w]? = some c ∧ m.storage.dispose = c.desired ∧
            m.returns.filter Return.succeeded = [.hit s.dispose] ∧
            ∀ i c', contenders[i]? = some c' → ∃ k,
              m.threads[i]? = some (c'.having s.dispose
                (List.replicate k (.miss c.desired) ++
                  if i = w then [.hit s.dispose] else [])) ∧
              k + (if i = w then 1 else 0) = min (schedule.count i) c'.attempts.length) ∧
      ((∀ c ∈ contenders, c.desired = s.dispose) →
        m.storage.dispose = s.dispose ∧ (∀ r ∈ m.returns, r = .hit s.dispose) ∧
        (m.finished = true →
          m.returns.length = (contenders.map fun c => c.attempts.length).sum)) := by
  obtain ⟨m, hrun⟩ := run_ok (init s (contenders.map (Contender.calls s.dispose))) schedule
  refine ⟨m, hrun, fun hcontenders => ⟨?_, ?_⟩, fun htie => ?_⟩
  · intro hsome hfinished
    exact find?_of_finished hsome (fun c hc => (hcontenders c hc).2) hrun hfinished
  · intro w hfind
    obtain ⟨c, m', hc, hrun', hsteady⟩ := run_contested hcontenders hfind
    cases hrun.symm.trans hrun'
    refine ⟨c, hc, hsteady.value, filter_succeeded hc hsteady, ?_⟩
    intro i c' hi
    obtain ⟨k, ht, hk⟩ := hsteady.threads i c' hi
    refine ⟨k, ht, hk ▸ ?_⟩
    split <;> rfl
  · obtain ⟨m', hrun', hsteady⟩ := run_tied s htie schedule
    cases hrun.symm.trans hrun'
    exact ⟨hsteady.value, fun r hr => hsteady.eq_of_mem_returns hr, hsteady.returns_length⟩

/-- Three contenders for a byte, two of which want the same value. -/
def rivals : List (Contender (MachineInt .unsigned 8)) :=
  [⟨⟨1⟩, [(.weak, ⟨.acquire, .acquire, by decide⟩), (.strong, ⟨.seqCst, .relaxed, by decide⟩)]⟩,
    ⟨⟨2⟩, [(.strong, ⟨.seqCst, .relaxed, by decide⟩), (.weak, ⟨.acquire, .acquire, by decide⟩)]⟩,
    ⟨⟨2⟩, [(.weak, ⟨.seqCst, .relaxed, by decide⟩)]⟩]

/-- The second comes first, and wins once only.  On a storage that holds the value of the last two,
both succeed with every attempt. -/
theorem compare_exchange_elects_one_second :
    (∃ m, (init (.holding ⟨0⟩) (rivals.map (Contender.calls ⟨0⟩))).run [1, 0, 2, 1, 0] = .ok m ∧
      m.finished = true ∧ m.storage.dispose = ⟨2⟩ ∧
      m.returns.filter Return.succeeded = [.hit ⟨0⟩] ∧
      ∃ t, m.threads[1]? = some t ∧ t.returned = [.miss ⟨2⟩, .hit ⟨0⟩]) ∧
    ∃ m, (init (.holding ⟨2⟩) (rivals.tail.map (Contender.calls ⟨2⟩))).run [1, 0, 0] = .ok m ∧
      m.storage.dispose = ⟨2⟩ ∧ m.returns.length = 3 ∧ ∀ r ∈ m.returns, r = .hit ⟨2⟩ := by
  constructor
  · obtain ⟨m, hrun, hcontest, -⟩ :=
      compare_exchange_elects_one (.holding ⟨0⟩) rivals [1, 0, 2, 1, 0]
    obtain ⟨c, hc, hvalue, hhits, hthreads⟩ := (hcontest (by decide)).2 1 rfl
    cases hc
    obtain ⟨k, ht, hk⟩ := hthreads 1 _ rfl
    have hone : k = 1 := Nat.succ.inj hk
    subst hone
    refine ⟨m, hrun, ?_, hvalue, hhits, _, ht, rfl⟩
    rw [Except.ok.inj (hrun.symm.trans rfl)]
    rfl
  · obtain ⟨m, hrun, -, htie⟩ :=
      compare_exchange_elects_one (.holding ⟨2⟩) rivals.tail [1, 0, 0]
    obtain ⟨hvalue, hhits, hlength⟩ := htie (by decide)
    have hfinished : m.finished = true := by
      rw [Except.ok.inj (hrun.symm.trans rfl)]
      rfl
    exact ⟨m, hrun, hvalue, hlength hfinished, hhits⟩

end Election

end Machine

end OrderedAtomics
