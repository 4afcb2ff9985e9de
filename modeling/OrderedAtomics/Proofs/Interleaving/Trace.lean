import OrderedAtomics.Proofs.Interleaving.Moves

/-
  What happens in a run, step by step.  An event is what one step of a thread does, and the trace of
  a schedule lists the events with the threads they belong to; a turn of a thread that has no call
  left leaves no event.  What holds at first and is kept by every event holds of the machine and the
  trace after every run (`trace_induction`).
-/
namespace OrderedAtomics

/-- What a step of a thread does. -/
inductive Event where
  /-- An operation. -/
  | operates
  /-- A retry loop reads the value for the first time. -/
  | loads
  /-- Its function declines the value. -/
  | declines
  /-- Its function proposes another. -/
  | proposes
  /-- Its compare-exchange happens, and changes the value or not. -/
  | lands (changes : Bool)
  /-- Its compare-exchange fails, and reads the value again. -/
  | misses
  deriving DecidableEq

/-- What the next step of a thread does where `v` is stored. -/
def Thread.event? {α : Type} [Codec α] (t : Thread α) (v : α) : Option Event :=
  match t.pending, t.place with
  | [], _ => none
  | .operate _ :: _, _ => some .operates
  | .update _ _ :: _, .start => some .loads
  | .update f _ :: _, .read current => some (if (f current).isSome then .proposes else .declines)
  | .update _ _ :: _, .computed current next =>
    some (if v = current then .lands (decide (next ≠ current)) else .misses)

/-- The events of a run, each with its thread. -/
abbrev Trace := List (Nat × Event)

namespace Trace

/-- The events of one thread. -/
def own (i : Nat) (tr : Trace) : List Event :=
  tr.filterMap fun x => if x.1 = i then some x.2 else none

theorem own_concat_self (i : Nat) (tr : Trace) (e : Event) :
    own i (tr ++ [(i, e)]) = own i tr ++ [e] := by
  simp [own]

theorem own_concat_other {i j : Nat} (h : i ≠ j) (tr : Trace) (e : Event) :
    own j (tr ++ [(i, e)]) = own j tr := by
  simp [own, h]

end Trace

namespace Machine

variable {α : Type} [Codec α] {m m' : Machine α} {i : Nat}

/-- What the next step of thread `i` does. -/
def event? (m : Machine α) (i : Nat) : Option Event :=
  m.threads[i]?.bind fun t => t.event? m.storage.dispose

/-- What happens along a schedule. -/
def trace : Machine α → List Nat → Trace
  | _, [] => []
  | m, i :: schedule =>
    match m.step i with
    | .ok m' => ((m.event? i).map (i, ·)).toList ++ m'.trace schedule
    | .error _ => []

/-! ## The events of the steps -/

theorem event?_eq {t : Thread α} (ht : m.threads[i]? = some t) :
    m.event? i = t.event? m.storage.dispose := by
  rw [event?, ht]
  rfl

theorem event?_idle (hi : ∀ t, m.threads[i]? = some t → t.pending = []) : m.event? i = none := by
  cases ht : m.threads[i]? with
  | none =>
    rw [event?, ht]
    rfl
  | some t =>
    rw [event?_eq ht, Thread.event?, hi t ht]

section Update

variable {f : α → Option α} {o : ExchangeOrdering} {rest : List (Call α)} {current next : α}
  {returned : List (Return α)}

theorem event?_loads
    (ht : m.threads[i]? = some ⟨.update f o :: rest, .start, returned⟩) :
    m.event? i = some .loads := event?_eq ht

theorem event?_declines
    (ht : m.threads[i]? = some ⟨.update f o :: rest, .read current, returned⟩)
    (hf : f current = none) : m.event? i = some .declines := by
  simp [event?_eq ht, Thread.event?, hf]

theorem event?_proposes
    (ht : m.threads[i]? = some ⟨.update f o :: rest, .read current, returned⟩)
    (hf : f current = some next) : m.event? i = some .proposes := by
  simp [event?_eq ht, Thread.event?, hf]

theorem event?_lands
    (ht : m.threads[i]? = some ⟨.update f o :: rest, .computed current next, returned⟩)
    (hv : m.storage.dispose = current) :
    m.event? i = some (.lands (decide (next ≠ current))) := by
  simp [event?_eq ht, Thread.event?, hv]

theorem event?_misses
    (ht : m.threads[i]? = some ⟨.update f o :: rest, .computed current next, returned⟩)
    (hv : m.storage.dispose ≠ current) : m.event? i = some .misses := by
  simp [event?_eq ht, Thread.event?, hv]

end Update

/-- Nothing happens exactly where no call is left. -/
theorem event?_eq_none_iff {t : Thread α} (ht : m.threads[i]? = some t) :
    m.event? i = none ↔ t.pending = [] := by
  rw [event?_eq ht]
  unfold Thread.event?
  constructor
  · intro h
    split at h
    · assumption
    all_goals cases h
  · intro h
    rw [h]

/-- Where nothing happens, nothing changes. -/
theorem Moves.eq_of_no_event (h : m.Moves i m') (he : m.event? i = none) : m' = m := by
  cases h with
  | idle => rfl
  | operates ht | loads ht | declines ht | proposes ht | lands ht | misses ht =>
    cases (event?_eq_none_iff ht).mp he

theorem lt_of_event {e : Event} (h : m.event? i = some e) : i < m.threads.length := by
  obtain ⟨t, ht, -⟩ := Option.bind_eq_some_iff.mp h
  exact (List.getElem?_eq_some_iff.mp ht).1

/-! ## Traces -/

theorem trace_concat {schedule : List Nat} (hrun : m.run schedule = .ok m') (i : Nat) :
    m.trace (schedule ++ [i]) = m.trace schedule ++ ((m'.event? i).map (i, ·)).toList := by
  induction schedule generalizing m with
  | nil =>
    have heq : m = m' := Except.ok.inj hrun
    subst heq
    obtain ⟨m₁, h1, -⟩ := step_moves m i
    simp [trace, h1]
  | cons j schedule ih =>
    obtain ⟨m₁, h1, -⟩ := step_moves m j
    rw [run, h1] at hrun
    rw [List.cons_append, trace, trace, h1]
    dsimp only
    rw [ih hrun, List.append_assoc]

/-- What holds at first and is kept by every event holds of the machine and the trace after every
run. -/
theorem trace_induction {P : Machine α → Trace → Prop}
    (hstep : ∀ {m m' : Machine α} {i : Nat} {e : Event} {tr : Trace}, P m tr → m.Moves i m' →
      m.event? i = some e → P m' (tr ++ [(i, e)]))
    (h : P m []) {schedule : List Nat} (hrun : m.run schedule = .ok m') :
    P m' (m.trace schedule) := by
  induction schedule using List.reverseRecOn generalizing m' with
  | nil =>
    cases hrun
    exact h
  | append_singleton schedule i ih =>
    obtain ⟨m₁, hbefore, hlast⟩ := run_concat hrun
    rw [trace_concat hbefore]
    have hmoves := moves_of_step hlast
    cases he : m₁.event? i with
    | none =>
      rw [hmoves.eq_of_no_event he, Option.map_none, Option.toList_none, List.append_nil]
      exact ih hbefore
    | some e => exact hstep (ih hbefore) hmoves he

end Machine

end OrderedAtomics
