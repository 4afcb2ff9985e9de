import OrderedAtomics.Proofs.Construction
import OrderedAtomics.Proofs.Retry

/-
  Runs with steps left out.  A run is recorded step by step (`record`), for anything that takes
  steps.  If steps that fail leave the state as it was, then whichever of them are left out, the
  other entries of the record stay as they are (`traceless_of_unchanged`): an entry left out ends
  where it began, so that the next one begins there too.  On a cell an access fails exactly for its
  orderings (`perform_eq_error_iff`).  On a slot what is refused changes nothing unless another
  writer stored something meanwhile (`act_of_refuses`).
-/
namespace OrderedAtomics

/-! ## Records -/

/-- An entry in the record of a run: the state before a step, the step, what it gave back, and the
state it left. -/
structure Record (σ A R : Type) where
  before : σ
  step : A
  answer : R
  after : σ

section Record

variable {σ A R : Type} (take : σ → A → R × σ)

/-- The record of the steps of a run, for a way to take steps. -/
def record : σ → List A → List (Record σ A R)
  | _, [] => []
  | s, a :: steps => ⟨s, a, (take s a).1, (take s a).2⟩ :: record (take s a).2 steps

/-- The state in which a run ends. -/
def ending : σ → List A → σ
  | s, [] => s
  | s, a :: steps => ending (take s a).2 steps

/-- Whichever of the steps that fail are left out of a run, each of the others has the same entry in
the record, and the run ends in the same state. -/
def Traceless (fails : Record σ A R → Prop) : Prop :=
  ∀ (s : σ) (steps : List A) (dropped : Record σ A R → Bool),
    (∀ r ∈ record take s steps, dropped r = true → fails r) →
    ∀ kept, kept = (record take s steps).filter (!dropped ·) →
      record take s (kept.map Record.step) = kept ∧
        ending take s (kept.map Record.step) = ending take s steps

variable {take} {fails : Record σ A R → Prop}

/-- Steps leave no trace if they leave the state as it was.  The induction is on the steps, from any
state. -/
theorem traceless_of_unchanged
    (h : ∀ s a, fails ⟨s, a, (take s a).1, (take s a).2⟩ → (take s a).2 = s) :
    Traceless take fails := by
  intro s steps dropped hdropped kept hkept
  induction steps generalizing s kept with
  | nil =>
    rw [hkept]
    exact ⟨rfl, rfl⟩
  | cons a steps ih =>
    obtain ⟨hfirst, hrest⟩ := List.forall_mem_cons.mp hdropped
    rw [record, List.filter_cons] at hkept
    cases hd : dropped ⟨s, a, (take s a).1, (take s a).2⟩ with
    | true =>
      have hsame : (take s a).2 = s := h s a (hfirst hd)
      have hkept' : kept = (record take (take s a).2 steps).filter (!dropped ·) := by
        rwa [hd] at hkept
      obtain ⟨hrecord, hending⟩ := ih _ hrest kept hkept'
      rw [hsame] at hrecord hending
      rw [ending, hsame]
      exact ⟨hrecord, hending⟩
    | false =>
      rw [hd] at hkept
      obtain ⟨hrecord, hending⟩ := ih _ hrest _ rfl
      rw [hkept]
      refine ⟨?_, hending⟩
      exact congrArg _ hrecord

end Record

/-! ## Accesses to a cell -/

/-- The accesses with an ordering that makes no sense for them. -/
inductive Access.Illegal {w : Nat} : Access w → Prop
  | load {o : MemoryOrder} (h : o = .release ∨ o = .acqRel) : Illegal (.load o)
  | store {v : BitVec w} {o : MemoryOrder} (h : o = .acquire ∨ o = .acqRel) : Illegal (.store v o)
  | compareExchange {k : Strength} {expected desired : BitVec w} {success failure : MemoryOrder}
      (h : failure = .release ∨ failure = .acqRel) :
      Illegal (.compareExchange k expected desired success failure)

namespace Cell

variable {w : Nat} {c c' : Cell w} {a : Access w}

/-- What an access gives back, and the cell it leaves; one that faults leaves the cell as it was. -/
def take (c : Cell w) (a : Access w) : Except Fault (Reply (BitVec w)) × Cell w :=
  match c.perform a with
  | .ok (reply, c') => (.ok reply, c')
  | .error f => (.error f, c)

theorem take_ok {reply : Reply (BitVec w)} (h : c.perform a = .ok (reply, c')) :
    c.take a = (.ok reply, c') := by
  rw [take, h]

theorem take_error {f : Fault} (h : c.perform a = .error f) : c.take a = (.error f, c) := by
  rw [take, h]

/-- A run gives back the answers in its record, and the cells. -/
theorem run_eq_record (c : Cell w) (accesses : List (Access w)) :
    c.run accesses = (record take c accesses).map fun r => (r.answer, r.after) := by
  induction accesses generalizing c with
  | nil => rfl
  | cons a accesses ih =>
    rw [run, record, List.map_cons]
    cases h : c.perform a with
    | ok result =>
      rw [take_ok h]
      exact congrArg _ (ih _)
    | error f =>
      rw [take_error h]
      exact congrArg _ (ih c)

theorem perform_load_eq_error_iff (o : MemoryOrder) :
    (∃ f, c.perform (.load o) = .error f) ↔ o = .release ∨ o = .acqRel := by
  cases o <;> simp [perform, load, guardOrder, MemoryOrder.loadFault?, bind, Except.bind, pure,
    Except.pure]

theorem perform_store_eq_error_iff (v : BitVec w) (o : MemoryOrder) :
    (∃ f, c.perform (.store v o) = .error f) ↔ o = .acquire ∨ o = .acqRel := by
  cases o <;> simp [perform, store, guardOrder, MemoryOrder.storeFault?, bind, Except.bind, pure,
    Except.pure]

theorem perform_swap (c : Cell w) (v : BitVec w) (o : MemoryOrder) :
    c.perform (.swap v o) = .ok (.value c.bits, ⟨v⟩) := rfl

theorem perform_fetch (c : Cell w) (op : FetchOp) (v : BitVec w) (o : MemoryOrder) :
    c.perform (.fetch op v o) = .ok (.value c.bits, ⟨op.apply c.bits v⟩) := rfl

/-- Any success ordering goes with any failure ordering that a load may use, also with a stronger
one. -/
theorem perform_compareExchange (c : Cell w) (k : Strength) (expected desired : BitVec w)
    (success : MemoryOrder) (failure : LoadOrdering) :
    c.perform (.compareExchange k expected desired success failure.toMemoryOrder) =
      .ok (if c.bits = expected then (.exchanged (.ok c.bits), ⟨desired⟩)
        else (.exchanged (.error c.bits), c)) := by
  by_cases h : c.bits = expected
  · rw [if_pos h]
    cases failure <;> simp only [perform, compareExchange, if_pos h] <;> rfl
  · rw [if_neg h]
    cases failure <;> simp only [perform, compareExchange, if_neg h] <;> rfl

theorem perform_compareExchange_eq_error_iff (k : Strength) (expected desired : BitVec w)
    (success failure : MemoryOrder) :
    (∃ f, c.perform (.compareExchange k expected desired success failure) = .error f) ↔
      failure = .release ∨ failure = .acqRel := by
  have hlegal : ∀ o : LoadOrdering, ¬ ∃ f,
      c.perform (.compareExchange k expected desired success o.toMemoryOrder) = .error f := by
    intro o
    rw [perform_compareExchange]
    exact nofun
  cases failure with
  | relaxed => exact iff_of_false (hlegal .relaxed) (by decide)
  | acquire => exact iff_of_false (hlegal .acquire) (by decide)
  | seqCst => exact iff_of_false (hlegal .seqCst) (by decide)
  | release => exact iff_of_true ⟨_, rfl⟩ (.inl rfl)
  | acqRel => exact iff_of_true ⟨_, rfl⟩ (.inr rfl)

/-- An access fails exactly if its ordering makes no sense for it. -/
theorem perform_eq_error_iff : (∃ f, c.perform a = .error f) ↔ a.Illegal := by
  constructor
  · intro h
    cases a with
    | load o => exact .load ((perform_load_eq_error_iff o).mp h)
    | store v o => exact .store ((perform_store_eq_error_iff v o).mp h)
    | swap v o => simp [perform_swap] at h
    | compareExchange k expected desired success failure =>
      exact .compareExchange
        ((perform_compareExchange_eq_error_iff k expected desired success failure).mp h)
    | fetch op v o => simp [perform_fetch] at h
  · intro h
    cases h with
    | load h => exact (perform_load_eq_error_iff _).mpr h
    | store h => exact (perform_store_eq_error_iff _ _).mpr h
    | compareExchange h => exact (perform_compareExchange_eq_error_iff _ _ _ _ _).mpr h

theorem take_of_illegal (h : a.Illegal) : (c.take a).2 = c := by
  obtain ⟨f, hf⟩ := perform_eq_error_iff.mpr h
  rw [take_error hf]

end Cell

/-! ## Actions on a slot -/

namespace Slot

variable {α : Type} [Codec α] {slot : Slot α} {a : Action α}

/-- The actions that a slot refuses. -/
inductive Refuses : Slot α → Action α → Prop
  /-- There is no storage for the type. -/
  | notLockFree {slot : Slot α} {a : Action α} {v : α} (hmade : a.made? = some v)
      (hlock : Codec.lockFree α = false) : Refuses slot a
  /-- The action needs a storage and the slot is empty. -/
  | noStorage {a : Action α} (hneeds : a.needsStorage = true) : Refuses none a
  /-- The cell of the type lacks the operation. -/
  | unsupported {s : Storage α} {op : Operation α} (hop : op.supported = false) :
      Refuses (some s) (.step (.operate op))
  /-- The function of a retry loop fails. -/
  | interrupted {s s' : Storage α} {script : List (Turn α)} {o : ExchangeOrdering} {seen : List α}
      (hend : s.retry o script = .ok ⟨.panicked, seen, s'⟩) :
      Refuses (some s) (.step (.update script o))

/-- No other writer stores anything while an action is taken. -/
def Alone (slot : Slot α) (a : Action α) : Prop :=
  ∀ s script o r, slot = some s → a = .step (.update script o) → s.retry o script = .ok r →
    ∀ c ∈ visits script r.seen, c.intrusion = none

theorem retry_panics_iff {s : Storage α} {script : List (Turn α)} {o : ExchangeOrdering} :
    (∃ seen s', s.retry o script = .ok ⟨.panicked, seen, s'⟩) ↔
      (Register.retryFrom script s.dispose s.dispose).ending = .panicked := by
  rw [Storage.retry_eq]
  constructor
  · rintro ⟨seen, s', h⟩
    exact congrArg Retried.ending (Except.ok.inj h)
  · intro h
    rw [h]
    exact ⟨_, _, rfl⟩

variable [Inspect α]

theorem act_operate (s : Storage α) (op : Operation α) :
    act (some s) (.step (.operate op)) = if op.supported then
      (.ok (.reply (Register.perform s.dispose op).1),
        some (Storage.holding (Register.perform s.dispose op).2))
      else (.error .unsupported, some s) := by
  simp only [act, step, Storage.perform_eq]

theorem act_update (s : Storage α) (script : List (Turn α)) (o : ExchangeOrdering) :
    act (some s) (.step (.update script o)) =
      (Register.conclude (Register.retryFrom script s.dispose s.dispose),
        some (Storage.holding (Register.retryFrom script s.dispose s.dispose).value)) := by
  simp only [act, step, Storage.retry_eq, Register.conclude]
  cases (Register.retryFrom script s.dispose s.dispose).ending <;> rfl

/-- An action gets an error exactly if the slot refuses it. -/
theorem act_eq_error_iff : (∃ refusal, (slot.act a).1 = .error refusal) ↔ Refuses slot a := by
  constructor
  · rintro ⟨refusal, h⟩
    cases hmade : a.made? with
    | some v =>
      rw [act_made hmade] at h
      cases hlock : Codec.lockFree α with
      | true => simp [hlock] at h
      | false => exact .notLockFree hmade hlock
    | none =>
      cases slot with
      | none =>
        rw [act_none hmade] at h
        cases hneeds : a.needsStorage with
        | true => exact .noStorage hneeds
        | false => simp [hneeds] at h
      | some s =>
        cases a with
        | convert v => cases hmade
        | initial => cases hmade
        | step b =>
          cases b with
          | prepare v => cases hmade
          | dispose | fence _ | inspect => cases h
          | operate op =>
            rw [act_operate] at h
            cases hop : op.supported with
            | true => simp [hop] at h
            | false => exact .unsupported hop
          | update script o =>
            rw [act_update, Register.conclude] at h
            have hend : (Register.retryFrom script s.dispose s.dispose).ending = .panicked := by
              split at h
              · assumption
              · cases h
              · cases h
            obtain ⟨seen, s', hretry⟩ := retry_panics_iff.mpr hend
            exact .interrupted hretry
  · intro h
    cases h with
    | notLockFree hmade hlock =>
      rw [act_made hmade, hlock]
      exact ⟨_, rfl⟩
    | noStorage hneeds =>
      rw [act_none (Action.made_of_needsStorage hneeds), if_pos hneeds]
      exact ⟨_, rfl⟩
    | unsupported hop =>
      rw [act_operate, hop]
      exact ⟨_, rfl⟩
    | interrupted hend =>
      rw [act_update, Register.conclude, retry_panics_iff.mp ⟨_, _, hend⟩]
      exact ⟨_, rfl⟩

/-- What a slot refuses leaves it as it was, unless another writer stored something. -/
theorem act_of_refuses (h : Refuses slot a) (halone : Alone slot a) : (slot.act a).2 = slot := by
  cases h with
  | notLockFree hmade hlock =>
    rw [act_made hmade, hlock]
    rfl
  | noStorage hneeds => rw [act_none (Action.made_of_needsStorage hneeds)]
  | unsupported hop =>
    rw [act_operate, hop]
    rfl
  | @interrupted s s' script o seen hend =>
    have hpanicked := retry_panics_iff.mp ⟨seen, s', hend⟩
    have hnone := halone s script o _ rfl rfl (Storage.retry_eq s o script)
    have hkept := (Register.retryFrom_follows script s.dispose).kept (by simp [hpanicked])
    rw [List.filterMap_eq_nil_iff.mpr hnone] at hkept
    rw [act_update, hkept]
    exact congrArg some (Storage.holding_dispose s)

/-- A run gives back the answers in its record, and the slots. -/
theorem run_eq_record (slot : Slot α) (actions : List (Action α)) :
    slot.run actions = (record act slot actions).map fun r => (r.answer, r.after) := by
  induction actions generalizing slot with
  | nil => rfl
  | cons a actions ih =>
    rw [run, ih]
    rfl

end Slot

/-- **Steps that fail leave no trace.** On a cell these are the accesses with an ordering that makes
no sense for them; on a slot, what it refuses while no other writer stores anything: a way to make
storage for a type that has none, a retry loop whose function fails, and what the slot or the cell
lacks.  Whichever of them are left out of a run, every other step finds the same state, gives back
the same and leaves the same state, and the run ends in the same state.  All orderings will do for
an exchange or a fetch, and for a compare-exchange all that have a failure ordering of loads. -/
theorem failing_steps_leave_no_trace {w : Nat} {α : Type} [Codec α] [Inspect α] :
    Traceless (@Cell.take w) (fun r => r.step.Illegal) ∧
    Traceless (@Slot.act α _ _)
      (fun r => Slot.Refuses r.before r.step ∧ Slot.Alone r.before r.step) ∧
    (∀ (c : Cell w) (accesses : List (Access w)),
      c.run accesses = (record Cell.take c accesses).map fun r => (r.answer, r.after)) ∧
    (∀ (slot : Slot α) (actions : List (Action α)),
      slot.run actions = (record Slot.act slot actions).map fun r => (r.answer, r.after)) ∧
    (∀ (c : Cell w) (a : Access w), (∃ f, c.perform a = .error f) ↔ a.Illegal) ∧
    (∀ (slot : Slot α) (a : Action α),
      (∃ refusal, (slot.act a).1 = .error refusal) ↔ Slot.Refuses slot a) ∧
    ∀ (c : Cell w) (v expected : BitVec w) (op : FetchOp) (k : Strength) (o : MemoryOrder)
      (failure : LoadOrdering),
      c.perform (.swap v o) = .ok (.value c.bits, ⟨v⟩) ∧
      c.perform (.fetch op v o) = .ok (.value c.bits, ⟨op.apply c.bits v⟩) ∧
      c.perform (.compareExchange k expected v o failure.toMemoryOrder) =
        .ok (if c.bits = expected then (.exchanged (.ok c.bits), ⟨v⟩)
          else (.exchanged (.error c.bits), c)) := by
  refine ⟨traceless_of_unchanged fun c a h => Cell.take_of_illegal h,
    traceless_of_unchanged fun slot a h => Slot.act_of_refuses h.1 h.2, Cell.run_eq_record,
    Slot.run_eq_record, fun c a => Cell.perform_eq_error_iff,
    fun slot a => Slot.act_eq_error_iff, ?_⟩
  intro c v expected op k o failure
  exact ⟨Cell.perform_swap c v o, Cell.perform_fetch c op v o,
    Cell.perform_compareExchange c k expected v o failure⟩

end OrderedAtomics
