import OrderedAtomics.Proofs.Interleaving.Trace

/-
  What a thread does that only makes retry loops.  Each of its steps is one of five (`Goes`), and
  its events are, in order, those of the loops that it has ended, one for each call, and of the one
  it is in (`Course`, kept by every step).  A loop reads the value, fails some number of times, and
  then declines or lands; so it calls its function once more than it fails, and the events of a
  thread are counted by its calls and its failures (`Course.length_le`).
-/
namespace OrderedAtomics

/-- A call that is a retry loop. -/
def Call.Retries {α : Type} : Call α → Prop
  | .update _ _ => True
  | .operate _ => False

/-- Whether an event is a call of the function of a retry loop. -/
def Event.invokes : Event → Bool
  | .declines | .proposes => true
  | _ => false

/-! ## One thread -/

namespace Thread

variable {α : Type} [Codec α] {t t' : Thread α} {v v' : α} {e : Event}

/-- What a thread that only makes retry loops does in one step: where it is before and after, and
the values that are stored. -/
inductive Goes : Thread α → α → Event → Thread α → α → Prop
  | loads {f o rest returned v} :
      Goes ⟨.update f o :: rest, .start, returned⟩ v .loads
        ⟨.update f o :: rest, .read v, returned⟩ v
  | declines {f o rest current returned v} (hf : f current = none) :
      Goes ⟨.update f o :: rest, .read current, returned⟩ v .declines
        ⟨rest, .start, .updated (.error current) :: returned⟩ v
  | proposes {f o rest current next returned v} (hf : f current = some next) :
      Goes ⟨.update f o :: rest, .read current, returned⟩ v .proposes
        ⟨.update f o :: rest, .computed current next, returned⟩ v
  | lands {f o rest current next returned} :
      Goes ⟨.update f o :: rest, .computed current next, returned⟩ current
        (.lands (decide (next ≠ current))) ⟨rest, .start, .updated (.ok current) :: returned⟩ next
  | misses {f o rest current next returned v} (hv : v ≠ current) :
      Goes ⟨.update f o :: rest, .computed current next, returned⟩ v .misses
        ⟨.update f o :: rest, .read v, returned⟩ v

end Thread

theorem Machine.Moves.goes {α : Type} [Codec α] {m m' : Machine α} {i : Nat} {e : Event}
    (h : m.Moves i m') (hretries : m.Issues Call.Retries) (he : m.event? i = some e) :
    ∃ t t' s', m.threads[i]? = some t ∧ m' = ⟨s', m.threads.set i t'⟩ ∧
      t.Goes m.storage.dispose e t' s'.dispose := by
  cases h with
  | idle hi =>
    rw [event?_idle hi] at he
    cases he
  | operates ht => exact (hretries _ (List.mem_of_getElem? ht) _ List.mem_cons_self).elim
  | loads ht =>
    rw [event?_loads ht] at he
    cases he
    exact ⟨_, _, _, ht, rfl, .loads⟩
  | declines ht hf =>
    rw [event?_declines ht hf] at he
    cases he
    exact ⟨_, _, _, ht, rfl, .declines hf⟩
  | proposes ht hf =>
    rw [event?_proposes ht hf] at he
    cases he
    exact ⟨_, _, _, ht, rfl, .proposes hf⟩
  | lands ht hv =>
    rw [event?_lands ht hv] at he
    cases he
    refine ⟨_, _, _, ht, rfl, ?_⟩
    rw [hv, Storage.dispose_holding]
    exact .lands
  | misses ht hv =>
    rw [event?_misses ht hv] at he
    cases he
    exact ⟨_, _, _, ht, rfl, .misses hv⟩

/-! ## The course of a thread -/

/-- How a retry loop ends. -/
inductive Conclusion where
  | declines
  | lands (changes : Bool)

/-- The last call of the function, and the exchange that happens. -/
def Conclusion.events : Conclusion → List Event
  | .declines => [.declines]
  | .lands changes => [.proposes, .lands changes]

/-- The events of a retry loop that has failed `k` times so far. -/
def failed (k : Nat) : List Event := .loads :: (List.replicate k [.proposes, .misses]).flatten

/-- A retry loop from its beginning to its end. -/
structure Loop where
  failures : Nat
  conclusion : Conclusion

namespace Loop

/-- What the loop did. -/
def events (l : Loop) : List Event := failed l.failures ++ l.conclusion.events

/-- Whether its exchange happened. -/
def succeeded (l : Loop) : Bool :=
  match l.conclusion with
  | .declines => false
  | .lands _ => true

end Loop

/-- What a retry loop that has come to a place, after failing `k` times, has done. -/
def Place.events {α : Type} (p : Place α) (k : Nat) : List Event :=
  match p with
  | .start => []
  | .read _ => failed k
  | .computed _ _ => failed k ++ [.proposes]

/-- The events of a thread are those of the loops that it has ended, which are its first calls, and
of the one it is in. -/
structure Course {α : Type} (calls : List (Call α)) (t : Thread α) (loops : List Loop) (k : Nat)
    (own : List Event) : Prop where
  events : own = loops.flatMap Loop.events ++ t.place.events k
  outcomes : loops.map Loop.succeeded = (t.returned.map Return.succeeded).reverse
  length : loops.length + t.pending.length = calls.length
  begun : t.pending = [] → t.place = .start

section Failed

variable (k : Nat)

theorem failed_succ : failed (k + 1) = failed k ++ [.proposes, .misses] := by
  simp [failed, List.replicate_succ']

/-- What is counted in the first reading, and in each failure. -/
theorem countP_failed (p : Event → Bool) :
    (failed k).countP p = [Event.loads].countP p + k * [Event.proposes, .misses].countP p := by
  induction k with
  | zero =>
    rw [Nat.zero_mul]
    rfl
  | succ k ih => rw [failed_succ, List.countP_append, ih, Nat.add_assoc, Nat.succ_mul]

theorem length_failed : (failed k).length = 2 * k + 1 := by
  have hall := countP_failed k fun _ => true
  simp only [List.countP_true, List.length_cons, List.length_nil] at hall
  omega

theorem count_misses_failed : (failed k).count .misses = k := by
  have hcount : (failed k).count .misses = 0 + k * 1 := countP_failed k (· == .misses)
  omega

theorem countP_invokes_failed : (failed k).countP Event.invokes = k := by
  have hcount : (failed k).countP Event.invokes = 0 + k * 1 := countP_failed k Event.invokes
  omega

theorem count_lands_failed (changes : Bool) : (failed k).count (.lands changes) = 0 := by
  have hcount : (failed k).count (.lands changes) = 0 + k * 0 :=
    countP_failed k (· == .lands changes)
  omega

end Failed

section Course

variable {α : Type} {calls : List (Call α)} {t t' : Thread α} {loops : List Loop} {k : Nat}
  {own : List Event}

theorem Course.goes [Codec α] {v v' : α} {e : Event} (hc : Course calls t loops k own)
    (h : t.Goes v e t' v') :
    ∃ loops' k', Course calls t' loops' k' (own ++ [e]) := by
  obtain ⟨hevents, houtcomes, hlength, -⟩ := hc
  -- a loop is added to those ended where it declines or lands, with the failures it had so far
  cases h with
  | loads =>
    refine ⟨loops, 0, ?_, houtcomes, hlength, nofun⟩
    rw [hevents]
    simp [Place.events, failed]
  | declines =>
    refine ⟨loops ++ [⟨k, .declines⟩], 0, ?_, ?_, ?_, fun _ => rfl⟩
    · rw [hevents]
      simp [Place.events, Loop.events, Conclusion.events]
    · simp [houtcomes, Loop.succeeded, Return.succeeded]
    · simpa [Nat.add_assoc, Nat.add_comm 1] using hlength
  | proposes =>
    refine ⟨loops, k, ?_, houtcomes, hlength, nofun⟩
    rw [hevents]
    simp [Place.events]
  | lands =>
    refine ⟨loops ++ [⟨k, .lands (decide (v' ≠ v))⟩], 0, ?_, ?_, ?_, fun _ => rfl⟩
    · rw [hevents]
      simp [Place.events, Loop.events, Conclusion.events]
    · simp [houtcomes, Loop.succeeded, Return.succeeded]
    · simpa [Nat.add_assoc, Nat.add_comm 1] using hlength
  | misses hv =>
    refine ⟨loops, k + 1, ?_, houtcomes, hlength, nofun⟩
    rw [hevents]
    simp [Place.events, failed_succ]

/-! ## Counting -/

namespace Loop

theorem count_misses (l : Loop) : l.events.count .misses = l.failures := by
  rw [events, List.count_append, count_misses_failed]
  cases l.conclusion <;> rfl

/-- A loop calls its function once more than it fails. -/
theorem countP_invokes (l : Loop) : l.events.countP Event.invokes = l.events.count .misses + 1 := by
  rw [l.count_misses, events, List.countP_append, countP_invokes_failed]
  cases l.conclusion <;> rfl

theorem count_changes_le (l : Loop) : l.events.count (.lands true) ≤ 1 := by
  rw [events, List.count_append, count_lands_failed]
  cases l.conclusion with
  | declines => exact Nat.zero_le 1
  | lands changes => cases changes <;> decide

theorem length_events_le (l : Loop) : l.events.length ≤ 2 * l.events.count .misses + 3 := by
  have hconclusion : l.conclusion.events.length ≤ 2 := by
    cases l.conclusion with
    | declines => exact Nat.le_succ 1
    | lands changes => exact Nat.le_refl 2
  rw [l.count_misses, events, List.length_append, length_failed]
  omega

theorem length_flatMap_le (loops : List Loop) :
    (loops.flatMap events).length ≤
      2 * (loops.flatMap events).count .misses + 3 * loops.length := by
  induction loops with
  | nil => exact Nat.zero_le _
  | cons l loops ih =>
    have hl := l.length_events_le
    rw [List.flatMap_cons, List.length_append, List.count_append, List.length_cons]
    omega

theorem count_changes_flatMap_le (loops : List Loop) :
    (loops.flatMap events).count (.lands true) ≤ loops.length := by
  induction loops with
  | nil => exact Nat.zero_le _
  | cons l loops ih =>
    have hl := l.count_changes_le
    rw [List.flatMap_cons, List.count_append, List.length_cons]
    omega

end Loop

namespace Place

theorem length_events_le (p : Place α) (k : Nat) :
    (p.events k).length ≤ 2 * (p.events k).count .misses + 2 := by
  cases p with
  | start => exact Nat.zero_le _
  | read current =>
    rw [events, length_failed, count_misses_failed]
    omega
  | computed current next =>
    rw [events, List.length_append, List.count_append, length_failed, count_misses_failed]
    exact Nat.le_refl _

theorem count_changes_events (p : Place α) (k : Nat) : (p.events k).count (.lands true) = 0 := by
  cases p with
  | start => rfl
  | read current => exact count_lands_failed k true
  | computed current next =>
    rw [events, List.count_append, count_lands_failed]
    rfl

end Place

namespace Course

/-- A thread takes three steps for each of its calls, and two more for each failure. -/
theorem length_le (hc : Course calls t loops k own) :
    own.length ≤ 3 * calls.length + 2 * own.count .misses := by
  have hloops := Loop.length_flatMap_le loops
  have hplace := t.place.length_events_le k
  have hlength := hc.length
  rw [hc.events, List.length_append, List.count_append]
  by_cases hpending : t.pending = []
  · rw [hc.begun hpending] at hplace ⊢
    simp only [Place.events, List.length_nil, List.count_nil]
    omega
  · have hpos := List.length_pos_iff.mpr hpending
    omega

theorem count_changes_le (hc : Course calls t loops k own) :
    own.count (.lands true) ≤ calls.length := by
  have hloops := Loop.count_changes_flatMap_le loops
  have hlength := hc.length
  rw [hc.events, List.count_append, t.place.count_changes_events]
  omega

end Course

end Course

end OrderedAtomics
