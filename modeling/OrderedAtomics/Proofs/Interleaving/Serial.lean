import OrderedAtomics.Interleaving.Machine
import OrderedAtomics.Proofs.Entries
import OrderedAtomics.Proofs.Register

/-
  Callers that take turns on one register: each turn is a whole call, made at once on the value the
  register holds, and a retry loop applies its function just once.  This is the sequential program
  that interleaved threads are compared with.  `step_cases` says everything a turn can do, and
  `run_replay` forgets who made the calls: a run is a list of calls made one after the other, the
  pending ones of the start without those of the end, which give back what was returned in between.
-/
namespace OrderedAtomics

/-! ## Callers and their register -/

/-- Someone who makes calls: the calls yet to make, and what the made ones gave back, the latest
first. -/
structure Caller (α : Type) where
  pending : List (Call α)
  returned : List (Return α) := []

/-- A register and those who make calls on it. -/
structure Serial (α : Type) where
  value : α
  callers : List (Caller α)

namespace Serial

variable {α : Type}

/-- Callers about to make their calls on a register that holds `v`. -/
def init (v : α) (programs : List (List (Call α))) : Serial α :=
  ⟨v, programs.map fun calls => { pending := calls }⟩

/-- The calls yet to make. -/
def pending (q : Serial α) : List (Call α) := q.callers.flatMap Caller.pending

/-- What the made calls gave back. -/
def returned (q : Serial α) : List (Return α) := q.callers.flatMap Caller.returned

theorem pending_init (v : α) (programs : List (List (Call α))) :
    (init v programs).pending = programs.flatten := by
  unfold pending init
  rw [List.flatMap_map]
  exact List.flatMap_id

theorem returned_init (v : α) (programs : List (List (Call α))) :
    (init v programs).returned = [] := by
  unfold returned init
  rw [List.flatMap_map]
  exact List.flatMap_eq_nil_iff.mpr fun _ _ => rfl

end Serial

/-! ## Whole calls -/

variable {α : Type} [Codec α]

/-- A whole call made at once on a value: what it gives back and the value it leaves. -/
def Call.perform (v : α) : Call α → Return α × α
  | .operate op => (.reply (Register.perform v op).1, (Register.perform v op).2)
  | .update f _ =>
    match f v with
    | some next => (.updated (.ok v), next)
    | none => (.updated (.error v), v)

/-- Calls made one after the other: what they give back, in order, and the value they leave. -/
def Call.replay : α → List (Call α) → List (Return α) × α
  | v, [] => ([], v)
  | v, call :: rest =>
    ((call.perform v).1 :: (replay (call.perform v).2 rest).1, (replay (call.perform v).2 rest).2)

theorem Call.replay_value (v : α) (calls : List (Call α)) :
    (replay v calls).2 = calls.foldl (fun v call => (call.perform v).2) v := by
  induction calls generalizing v with
  | nil => rfl
  | cons call rest ih =>
    rw [replay, List.foldl_cons]
    exact ih _

theorem Call.replay_length (v : α) (calls : List (Call α)) :
    (replay v calls).1.length = calls.length := by
  induction calls generalizing v with
  | nil => rfl
  | cons call rest ih => rw [replay, List.length_cons, List.length_cons, ih]

/-- The caller makes the next call on a value, if there is one left to make. -/
def Caller.step (c : Caller α) (v : α) : Option (Caller α × α) :=
  match c.pending with
  | [] => none
  | call :: rest => some (⟨rest, (call.perform v).1 :: c.returned⟩, (call.perform v).2)

namespace Serial

/-- The turn of caller `i`; there is none for someone who does not exist or has no call left. -/
def step (q : Serial α) (i : Nat) : Option (Serial α) := do
  let (c, v) ← (← q.callers[i]?).step q.value
  return ⟨v, q.callers.set i c⟩

/-- The callers make their calls in the given order. -/
def run : Serial α → List Nat → Option (Serial α)
  | q, [] => some q
  | q, i :: order => do (← q.step i).run order

theorem step_eq {q : Serial α} {i : Nat} {c c' : Caller α} {v : α} (hc : q.callers[i]? = some c)
    (h : c.step q.value = some (c', v)) : q.step i = some ⟨v, q.callers.set i c'⟩ := by
  rw [step, hc]
  dsimp only [bind, Option.bind]
  rw [h]
  rfl

theorem step_cases {q q' : Serial α} {i : Nat} (h : q.step i = some q') :
    ∃ call rest returned, q.callers[i]? = some ⟨call :: rest, returned⟩ ∧
      q' = ⟨(call.perform q.value).2,
        q.callers.set i ⟨rest, (call.perform q.value).1 :: returned⟩⟩ := by
  obtain ⟨c, hc, h⟩ := Option.bind_eq_some_iff.mp h
  obtain ⟨pending, returned⟩ := c
  cases pending with
  | nil => cases h
  | cons call rest => exact ⟨call, rest, returned, hc, (Option.some.inj h).symm⟩

theorem run_cons {q q' : Serial α} {i : Nat} {order : List Nat}
    (h : q.run (i :: order) = some q') :
    ∃ q₁, q.step i = some q₁ ∧ q₁.run order = some q' :=
  Option.bind_eq_some_iff.mp h

/-! ## Runs without the callers -/

/-- A turn takes one call off the pending ones and adds what it gave back. -/
theorem step_perm {q q' : Serial α} {i : Nat} (h : q.step i = some q') :
    ∃ call : Call α, q.pending.Perm (call :: q'.pending) ∧
      q'.returned.Perm ((call.perform q.value).1 :: q.returned) ∧
      q'.value = (call.perform q.value).2 := by
  obtain ⟨call, rest, returned, hc, rfl⟩ := step_cases h
  obtain ⟨others, hp, hp'⟩ := flatMap_set_perm Caller.pending hc
  obtain ⟨others', hr, hr'⟩ := flatMap_set_perm Caller.returned hc
  have hpending := hp' ⟨rest, (call.perform q.value).1 :: returned⟩
  have hreturned := hr' ⟨rest, (call.perform q.value).1 :: returned⟩
  refine ⟨call, ?_, ?_, rfl⟩
  · exact hp.trans (hpending.symm.cons call)
  · exact hreturned.trans (hr.symm.cons _)

/-- A run makes some calls one after the other. -/
theorem run_replay {q q' : Serial α} {order : List Nat} (h : q.run order = some q') :
    ∃ calls, q.pending.Perm (calls ++ q'.pending) ∧
      q'.returned.Perm ((Call.replay q.value calls).1 ++ q.returned) ∧
      q'.value = (Call.replay q.value calls).2 := by
  induction order generalizing q with
  | nil =>
    cases h
    exact ⟨[], List.Perm.refl _, List.Perm.refl _, rfl⟩
  | cons i order ih =>
    obtain ⟨q₁, h1, h2⟩ := run_cons h
    obtain ⟨call, hp, hr, hv⟩ := step_perm h1
    obtain ⟨calls, hp', hr', hv'⟩ := ih h2
    rw [hv] at hr' hv'
    refine ⟨call :: calls, hp.trans (hp'.cons call), ?_, hv'⟩
    exact hr'.trans ((hr.append_left _).trans List.perm_middle)

end Serial

end OrderedAtomics
