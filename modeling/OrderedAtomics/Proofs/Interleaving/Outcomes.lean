import OrderedAtomics.Proofs.Interleaving.Linearization
import Mathlib.Data.List.Perm.Basic

/-
  Calls together with what they gave back.  A thread works through its program from the front, so
  that what it has got back belongs to the first calls, in order.  On a register the outcomes of all
  callers are those of some calls made one after the other (`Serial.run_outcomes`), and the threads
  of a machine fare likewise, but for the loops that are bound to end by declining a value they have
  read (`Machine.run_outcomes`, `Machine.filterMap_outcomes`).
-/
namespace OrderedAtomics

variable {α : Type}

/-- The calls of a program that gave something back, each with what it gave; `returned` has the
latest first. -/
def Call.outcomes (program : List (Call α)) (returned : List (Return α)) :
    List (Call α × Return α) :=
  program.zip returned.reverse

namespace Call

variable {made pending : List (Call α)} {returned : List (Return α)}

theorem outcomes_append (h : made.length = returned.length) :
    outcomes (made ++ pending) returned = made.zip returned.reverse := by
  have h' : made.length = returned.reverse.length := by rw [List.length_reverse, h]
  unfold outcomes
  rw [← List.append_nil returned.reverse, List.zip_append h', List.zip_nil_right,
    List.append_nil, List.append_nil]

/-- One more call has given something back. -/
theorem outcomes_cons (h : made.length = returned.length) (call : Call α) (r : Return α) :
    outcomes (made ++ call :: pending) (r :: returned) =
      outcomes (made ++ call :: pending) returned ++ [(call, r)] := by
  have h' : made.length = returned.reverse.length := by rw [List.length_reverse, h]
  rw [outcomes_append h]
  unfold outcomes
  rw [List.reverse_cons, List.zip_append h', List.zip_cons_cons, List.zip_nil_right]

theorem mem_outcomes_cons {x : Call α × Return α} {program : List (Call α)} (r : Return α)
    (h : x ∈ outcomes program returned) : x ∈ outcomes program (r :: returned) := by
  obtain ⟨i, hi⟩ := List.mem_iff_getElem?.mp h
  obtain ⟨hcall, hreturn⟩ := List.getElem?_zip_eq_some.mp hi
  have hlt := (List.getElem?_eq_some_iff.mp hreturn).1
  refine List.mem_of_getElem? (List.getElem?_zip_eq_some.mpr ⟨hcall, ?_⟩)
  rw [List.reverse_cons, List.getElem?_append_left hlt]
  exact hreturn

/-- Each call made in a row gives back what it gives on some value. -/
theorem of_mem_replay [Codec α] {calls : List (Call α)} {v : α} {x : Call α × Return α}
    (h : x ∈ calls.zip (replay v calls).1) : x.1 ∈ calls ∧ ∃ v', x.2 = (x.1.perform v').1 := by
  induction calls generalizing v with
  | nil => cases h
  | cons call rest ih =>
    rw [replay, List.zip_cons_cons] at h
    rcases List.mem_cons.mp h with rfl | h
    · exact ⟨List.mem_cons_self, v, rfl⟩
    · obtain ⟨hmem, hperform⟩ := ih h
      exact ⟨List.mem_cons_of_mem call hmem, hperform⟩

/-- A return that counts for nothing may be left out. -/
theorem filterMap_outcomes_cons {β : Type} {g : Call α × Return α → Option β} {r : Return α}
    (hg : ∀ call, g (call, r) = none) (program : List (Call α)) (returned : List (Return α)) :
    (outcomes program (r :: returned)).filterMap g = (outcomes program returned).filterMap g := by
  unfold outcomes
  rw [List.reverse_cons]
  generalize returned.reverse = rs
  induction program generalizing rs with
  | nil => rfl
  | cons call program ih =>
    cases rs with
    | nil =>
      rw [List.nil_append, List.zip_cons_cons, List.zip_nil_right, List.zip_nil_right,
        List.filterMap_cons_none (hg call)]
    | cons r' rs =>
      rw [List.cons_append, List.zip_cons_cons, List.zip_cons_cons, List.filterMap_cons,
        List.filterMap_cons, ih]

end Call

/-! ## On a register -/

/-- The caller has made the first calls of a program, and the others are pending. -/
def Caller.Within (c : Caller α) (program : List (Call α)) : Prop :=
  ∃ made, program = made ++ c.pending ∧ made.length = c.returned.length

namespace Serial

/-- The calls made, each with what it gave back. -/
def outcomes (programs : List (List (Call α))) (q : Serial α) : List (Call α × Return α) :=
  (programs.zip q.callers).flatMap fun x => Call.outcomes x.1 x.2.returned

/-- Each caller works through its program. -/
def Within (q : Serial α) (programs : List (List (Call α))) : Prop :=
  programs.length = q.callers.length ∧
    ∀ (i : Nat) (p : List (Call α)) (c : Caller α),
      programs[i]? = some p → q.callers[i]? = some c → c.Within p

theorem within_init (v : α) (programs : List (List (Call α))) :
    (init v programs).Within programs := by
  refine ⟨(List.length_map _).symm, ?_⟩
  intro i p c hp hc
  have hc' : some c = some { pending := p } := by
    rw [← hc, init, List.getElem?_map, hp, Option.map_some]
  cases hc'
  exact ⟨[], rfl, rfl⟩

theorem outcomes_init (v : α) (programs : List (List (Call α))) :
    (init v programs).outcomes programs = [] := by
  refine List.flatMap_eq_nil_iff.mpr fun x hx => ?_
  obtain ⟨calls, -, hc⟩ := List.mem_map.mp (List.of_mem_zip hx).2
  rw [← hc]
  exact List.zip_nil_right

variable [Codec α] {programs : List (List (Call α))} {q q' : Serial α}

/-- A turn adds the outcome of one call. -/
theorem step_outcomes {i : Nat} (hq : q.Within programs) (h : q.step i = some q') :
    q'.Within programs ∧ ∃ call, q'.value = (call.perform q.value).2 ∧
      (q'.outcomes programs).Perm ((call, (call.perform q.value).1) :: q.outcomes programs) := by
  obtain ⟨call, rest, returned, hc, rfl⟩ := step_cases h
  obtain ⟨hlength, hwithin⟩ := hq
  have hi : i < programs.length := by
    rw [hlength]
    exact (List.getElem?_eq_some_iff.mp hc).1
  have hp : programs[i]? = some programs[i] := List.getElem?_eq_getElem hi
  obtain ⟨made, hprogram, hmade⟩ := hwithin i _ _ hp hc
  refine ⟨⟨?_, ?_⟩, call, rfl, ?_⟩
  · rw [List.length_set]
    exact hlength
  · intro j p c hp' hc'
    rcases getElem?_set_cases hc' with ⟨rfl, rfl⟩ | ⟨-, hc'⟩
    · cases hp.symm.trans hp'
      refine ⟨made ++ [call], ?_, ?_⟩
      · rw [hprogram, List.append_assoc, List.singleton_append]
      · rw [List.length_append, hmade]
        rfl
    · exact hwithin j p c hp' hc'
  · have hzip : (programs.zip q.callers)[i]? = some (programs[i], ⟨call :: rest, returned⟩) :=
      List.getElem?_zip_eq_some.mpr ⟨hp, hc⟩
    obtain ⟨others, hold, hnew⟩ :=
      flatMap_set_perm (fun x : List (Call α) × Caller α => Call.outcomes x.1 x.2.returned) hzip
    unfold outcomes
    dsimp only
    rw [zip_set hp]
    refine (hnew _).trans (List.Perm.trans ?_ (hold.symm.cons _))
    dsimp only
    rw [hprogram, Call.outcomes_cons hmade, List.append_assoc]
    exact List.perm_middle

/-- The outcomes of a run are those of some calls made one after the other. -/
theorem run_outcomes {order : List Nat} (hq : q.Within programs) (h : q.run order = some q') :
    q'.Within programs ∧ ∃ calls, q'.value = (Call.replay q.value calls).2 ∧
      (q'.outcomes programs).Perm
        (calls.zip (Call.replay q.value calls).1 ++ q.outcomes programs) := by
  induction order generalizing q with
  | nil =>
    cases h
    exact ⟨hq, [], rfl, List.Perm.refl _⟩
  | cons i order ih =>
    obtain ⟨q₁, h1, h2⟩ := run_cons h
    obtain ⟨hq₁, call, hv, ho⟩ := step_outcomes hq h1
    obtain ⟨hq', calls, hv', ho'⟩ := ih hq₁ h2
    rw [hv] at hv' ho'
    refine ⟨hq', call :: calls, hv', ?_⟩
    exact ho'.trans ((ho.append_left _).trans List.perm_middle)

end Serial

/-! ## On a machine -/

theorem Thread.returned_settled (t : Thread α) :
    t.settled.returned = t.returned ∨
      ∃ current, t.settled.returned = .updated (.error current) :: t.returned := by
  unfold Thread.settled
  split
  · split
    · exact .inr ⟨_, rfl⟩
    · exact .inl rfl
  · exact .inl rfl

namespace Machine

variable [Codec α]

variable {m : Machine α} {programs : List (List (Call α))}

/-- The calls that have ended, each with what it gave back. -/
def outcomes (programs : List (List (Call α))) (m : Machine α) : List (Call α × Return α) :=
  (programs.zip m.threads).flatMap fun x => Call.outcomes x.1 x.2.returned

theorem outcomes_settled (programs : List (List (Call α))) (m : Machine α) :
    m.settled.outcomes programs =
      (programs.zip m.threads).flatMap fun x => Call.outcomes x.1 x.2.settled.returned := by
  unfold Serial.outcomes settled
  dsimp only
  rw [List.zip_map_right, List.flatMap_map]
  rfl

theorem mem_outcomes_settled {x : Call α × Return α} (h : x ∈ m.outcomes programs) :
    x ∈ m.settled.outcomes programs := by
  obtain ⟨y, hy, hx⟩ := List.mem_flatMap.mp h
  rw [outcomes_settled]
  refine List.mem_flatMap.mpr ⟨y, hy, ?_⟩
  rcases Thread.returned_settled y.2 with hsettled | ⟨current, hsettled⟩
  · rw [hsettled]
    exact hx
  · rw [hsettled]
    exact Call.mem_outcomes_cons _ hx

/-- Loops that are bound to decline play no part in what other outcomes come to. -/
theorem filterMap_outcomes {β : Type} {g : Call α × Return α → Option β}
    (hg : ∀ call current, g (call, .updated (.error current)) = none)
    (programs : List (List (Call α))) (m : Machine α) :
    (m.settled.outcomes programs).filterMap g = (m.outcomes programs).filterMap g := by
  rw [outcomes_settled, outcomes, List.filterMap_flatMap, List.filterMap_flatMap]
  congr 1
  funext x
  rcases Thread.returned_settled x.2 with h | ⟨current, h⟩
  · rw [h]
  · rw [h, Call.filterMap_outcomes_cons fun call => hg call current]

/-- No return is left out where each thread works through its program. -/
theorem map_snd_outcomes (h : m.settled.Within programs) :
    ((m.outcomes programs).map Prod.snd).Perm m.returns := by
  obtain ⟨hlength, hwithin⟩ := h
  have hthreads : programs.length = m.threads.length := hlength.trans (List.length_map _)
  have hone : ∀ x ∈ programs.zip m.threads,
      ((Call.outcomes x.1 x.2.returned).map Prod.snd).Perm x.2.returned := by
    intro x hx
    obtain ⟨i, hi⟩ := List.mem_iff_getElem?.mp hx
    obtain ⟨hp, ht⟩ := List.getElem?_zip_eq_some.mp hi
    have hc : m.settled.callers[i]? = some x.2.settled := by
      rw [settled, List.getElem?_map, ht, Option.map_some]
    obtain ⟨made, hprogram, hmade⟩ := hwithin i _ _ hp hc
    have hreturned : x.2.returned.length ≤ made.length := by
      rcases Thread.returned_settled x.2 with h | ⟨current, h⟩
      · exact Nat.le_of_eq (by rw [hmade, h])
      · rw [hmade, h]
        exact Nat.le_succ _
    have hshort : x.2.returned.reverse.length ≤ x.1.length := by
      rw [List.length_reverse, hprogram, List.length_append]
      omega
    rw [Call.outcomes, List.map_snd_zip hshort]
    exact List.reverse_perm _
  have hall := List.Perm.flatMap_left _ hone
  rw [outcomes, List.map_flatMap]
  refine hall.trans (List.Perm.of_eq ?_)
  have hsnd : (programs.zip m.threads).map Prod.snd = m.threads :=
    List.map_snd_zip (Nat.le_of_eq hthreads.symm)
  rw [returns, ← hsnd, List.flatMap_map, hsnd]

/-- What threads give back, under any schedule, are the outcomes of some of their calls made one
after the other, but for loops that are bound to decline. -/
theorem run_outcomes (s : Storage α) (programs : List (List (Call α))) (schedule : List Nat) :
    ∃ m, (init s programs).run schedule = .ok m ∧
      ((m.outcomes programs).map Prod.snd).Perm m.returns ∧
      ∃ calls, (∀ call ∈ calls, call ∈ programs.flatten) ∧
        m.storage.dispose = (Call.replay s.dispose calls).2 ∧
        (m.settled.outcomes programs).Perm (calls.zip (Call.replay s.dispose calls).1) := by
  obtain ⟨m, hrun, hserial⟩ := run_init s programs schedule
  obtain ⟨hwithin, calls, hv, ho⟩ :=
    Serial.run_outcomes (Serial.within_init s.dispose programs) hserial
  rw [Serial.outcomes_init, List.append_nil] at ho
  refine ⟨m, hrun, map_snd_outcomes hwithin, calls, ?_, hv, ho⟩
  intro call hcall
  have hlength : calls.length ≤ (Call.replay s.dispose calls).1.length :=
    Nat.le_of_eq (Call.replay_length _ _).symm
  rw [← List.map_fst_zip hlength] at hcall
  obtain ⟨x, hx, rfl⟩ := List.mem_map.mp hcall
  obtain ⟨y, hy, hxy⟩ := List.mem_flatMap.mp (ho.mem_iff.mpr hx)
  exact List.mem_flatten.mpr ⟨y.1, (List.of_mem_zip hy).1, (List.of_mem_zip hxy).1⟩

end Machine

end OrderedAtomics
