import OrderedAtomics.Storage.Construction

/-
  A plain register: a value of the stored type itself, with no cell and no orderings, and what each
  action on a slot comes to on it.  An exchange and a fetch give back the old value, a
  compare-exchange compares values, and a fetch leaves what stands for the sum, the difference or
  the bitwise combination of the two encodings, whichever method it was asked for by.  Storage
  refines the register: `perform_eq` for one operation, `retry_eq` for a retry loop, `act_value` for
  one action and `run_refines_register` for a run.  The register has no way to fault, so no ordering
  handed down to a cell is ever refused.
-/
namespace OrderedAtomics

/-! ## The register -/

/-- What a retry loop comes to on a plain value: how it ends, the values its function is given,
in order, and the value it leaves. -/
structure Settlement (α : Type) where
  ending : Ending α
  seen : List α
  value : α

namespace Register

variable {α : Type} [Codec α]

/-- What an operation gives back on a value, and the value it leaves.  Orderings play no part.  The
methods named after an operation and those that are handed it come to the same. -/
def perform (v : α) : Operation α → Reply α × α
  | .load _ => (.value v, v)
  | .store next _ => (.done, next)
  | .exchange next _ => (.value v, next)
  | .compareExchange _ expected desired _ =>
    if v = expected then (.exchanged (.ok v), desired) else (.exchanged (.error v), v)
  | .fetch .add x _ | .fetchModify .add x _ =>
    (.value v, Codec.decode (Codec.encode v + Codec.encode x))
  | .fetch .sub x _ | .fetchModify .sub x _ =>
    (.value v, Codec.decode (Codec.encode v - Codec.encode x))
  | .fetch .or x _ | .fetchModify .or x _ | .fetchBitwise .or x _ =>
    (.value v, Codec.decode (Codec.encode v ||| Codec.encode x))
  | .fetch .xor x _ | .fetchModify .xor x _ | .fetchBitwise .xor x _ =>
    (.value v, Codec.decode (Codec.encode v ^^^ Codec.encode x))
  | .fetch .and x _ | .fetchModify .and x _ | .fetchBitwise .and x _ =>
    (.value v, Codec.decode (Codec.encode v &&& Codec.encode x))

theorem perform_fetch (v : α) (op : FetchOp) (x : α) (o : UpdateOrdering) :
    perform v (.fetch op x o) =
      (.value v, Codec.decode (op.apply (Codec.encode v) (Codec.encode x))) := by
  cases op <;> rfl

theorem perform_fetchModify (v : α) (op : FetchOp) (x : α) (o : UpdateOrdering) :
    perform v (.fetchModify op x o) = perform v (.fetch op x o) := by
  cases op <;> rfl

theorem perform_fetchBitwise (v : α) (op : BitwiseOp) (x : α) (o : UpdateOrdering) :
    perform v (.fetchBitwise op x o) = perform v (.fetch op.toFetchOp x o) := by
  cases op <;> rfl

/-- The rounds of a retry loop that last read `current`, on a register that holds `v`. -/
def retryFrom : List (Turn α) → α → α → Settlement α
  | [], current, v => ⟨.declined current, [current], v⟩
  | turn :: turns, current, v =>
    let met := turn.intrusion.getD v
    match turn.react current with
    | .panics => ⟨.panicked, [current], met⟩
    | .returns none => ⟨.declined current, [current], met⟩
    | .returns (some next) =>
      if met = current then ⟨.landed met, [current], next⟩
      else
        let rest := retryFrom turns met met
        { rest with seen := current :: rest.seen }

/-- The answer to a retry loop that ended. -/
def conclude (r : Settlement α) : Except Refusal (Answer α) :=
  match r.ending with
  | .panicked => .error .interrupted
  | .landed previous => .ok (.updated (.ok previous) r.seen)
  | .declined current => .ok (.updated (.error current) r.seen)

/-- The fetches that the cell of the type must have for an operation. -/
def needs : Operation α → List FetchOp
  | .fetch op _ _ => [op]
  | .fetchModify _ _ _ => [.add, .sub, .or, .xor, .and]
  | .fetchBitwise _ _ _ => [.or, .xor, .and]
  | .load _ | .store _ _ | .exchange _ _ | .compareExchange _ _ _ _ => []

/-- A value is made into storage, in place of what was there, unless there is none for the type. -/
def fill (r : Option α) (v : α) : Except Refusal (Answer α) × Option α :=
  if Codec.lockFree α then (.ok (.reply .done), some v) else (.error .notLockFree, r)

variable [Inspect α]

/-- What a step gives back on a register that holds a value or nothing, and what it leaves. -/
def step (r : Option α) : Step α → Except Refusal (Answer α) × Option α
  | .prepare v => fill r v
  | .fence _ => (.ok (.reply .done), r)
  | .dispose =>
    match r with
    | none => (.error .noStorage, none)
    | some v => (.ok (.reply (.value v)), none)
  | .inspect =>
    match r with
    | none => (.error .noStorage, none)
    | some v => (.ok (.shown (.wrapper "AtomicStorage" (Inspect.inspect v))), some v)
  | .operate op =>
    match r with
    | none => (.error .noStorage, none)
    | some v =>
      if ∀ f ∈ needs op, f ∈ Codec.fetches α then
        (.ok (.reply (perform v op).1), some (perform v op).2)
      else (.error .unsupported, some v)
  | .update script _ =>
    match r with
    | none => (.error .noStorage, none)
    | some v => (conclude (retryFrom script v v), some (retryFrom script v v).value)

/-- What an action gives back on a register, and what it leaves. -/
def act (r : Option α) : Action α → Except Refusal (Answer α) × Option α
  | .step a => step r a
  | .convert v => fill r v
  | @Action.initial _ inst => fill r inst.default

/-- The answers to actions taken one after the other, each with what the register then holds. -/
def run (r : Option α) : List (Action α) → List (Except Refusal (Answer α) × Option α)
  | [] => []
  | a :: rest => act r a :: run (act r a).2 rest

end Register

/-! ## Storage refines it -/

namespace Storage

variable {α : Type} [Codec α]

theorem prepare?_eq (v : α) :
    prepare? v = if Codec.lockFree α then some (holding v) else none := rfl

theorem perform_eq (s : Storage α) (op : Operation α) :
    s.perform op =
      .ok ((Register.perform s.dispose op).1, holding (Register.perform s.dispose op).2) := by
  cases op with
  | load o =>
    rw [perform, load_eq]
    simp only [Register.perform, holding_dispose]
    rfl
  | store v o =>
    rw [perform, store_eq]
    rfl
  | exchange v o =>
    rw [perform, exchange_eq]
    rfl
  | compareExchange k expected desired o =>
    rw [perform, compareExchange_eq]
    by_cases h : s.dispose = expected
    · simp only [Register.perform, if_pos h]
      rfl
    · simp only [Register.perform, if_neg h, holding_dispose]
      rfl
  | fetch op operand o =>
    rw [perform, fetch_eq, Register.perform_fetch]
    rfl
  | fetchModify op operand o =>
    rw [perform, fetchModify_eq, fetch_eq, Register.perform_fetchModify, Register.perform_fetch]
    rfl
  | fetchBitwise op operand o =>
    rw [perform, fetchBitwise_eq, fetch_eq, Register.perform_fetchBitwise, Register.perform_fetch]
    rfl

theorem intrude_eq (s : Storage α) (v? : Option α) :
    s.intrude v? = .ok (holding (v?.getD s.dispose)) := by
  cases v? with
  | none => rw [intrude, Option.getD_none, holding_dispose]
  | some v => rw [intrude, store_eq, Option.getD_some]

/-- A retry loop on storage ends as on a register.  The induction is on the script, for any value
last read: a round that fails goes on with the value it met. -/
theorem retryFrom_eq (o : ExchangeOrdering) (script : List (Turn α)) (current : α)
    (s : Storage α) :
    retryFrom o script current s =
      .ok ⟨(Register.retryFrom script current s.dispose).ending,
        (Register.retryFrom script current s.dispose).seen,
        holding (Register.retryFrom script current s.dispose).value⟩ := by
  induction script generalizing current s with
  | nil => simp [retryFrom, Register.retryFrom]
  | cons turn turns ih =>
    unfold retryFrom Register.retryFrom
    rw [intrude_eq]
    dsimp only [bind, Except.bind]
    cases turn.react current with
    | panics => rfl
    | returns next? =>
      cases next? with
      | none => rfl
      | some next =>
        dsimp only
        rw [compareExchange_eq, dispose_holding]
        by_cases h : turn.intrusion.getD s.dispose = current
        · rw [if_pos h, if_pos h]
          rfl
        · rw [if_neg h, if_neg h]
          dsimp only
          rw [ih, dispose_holding]
          rfl

theorem retry_eq (s : Storage α) (o : ExchangeOrdering) (script : List (Turn α)) :
    s.retry o script =
      .ok ⟨(Register.retryFrom script s.dispose s.dispose).ending,
        (Register.retryFrom script s.dispose s.dispose).seen,
        holding (Register.retryFrom script s.dispose s.dispose).value⟩ := by
  rw [retry, load_eq]
  exact retryFrom_eq o script s.dispose s

end Storage

/-- A type has an operation if its cell has the fetches that the operation needs. -/
theorem Operation.supported_iff {α : Type} [Codec α] {op : Operation α} :
    op.supported = true ↔ ∀ f ∈ Register.needs op, f ∈ Codec.fetches α := by
  cases op <;>
    simp [supported, Register.needs, Codec.supports, Codec.supportsAll, Codec.supportsBitwise,
      FetchOp.all]

namespace Slot

variable {α : Type} [Codec α]

theorem value?_some (s : Storage α) : value? (some s) = some s.dispose := rfl

theorem fill_value (slot : Slot α) (v : α) :
    ((slot.fill (Storage.prepare? v)).1, (slot.fill (Storage.prepare? v)).2.value?) =
      Register.fill slot.value? v := by
  rw [Storage.prepare?_eq, Register.fill]
  split
  · simp only [fill, value?_some, Storage.dispose_holding]
  · rfl

variable [Inspect α]

theorem step_prepare (slot : Slot α) (v : α) :
    slot.step (.prepare v) = slot.fill (Storage.prepare? v) := by
  rw [step]
  cases Storage.prepare? v <;> rfl

/-- One step on a slot gives the answer of the register and leaves the value it leaves. -/
theorem step_value (slot : Slot α) (a : Step α) :
    ((slot.step a).1, (slot.step a).2.value?) = Register.step slot.value? a := by
  cases a with
  | prepare v =>
    rw [step_prepare, Register.step]
    exact fill_value slot v
  | dispose => cases slot <;> rfl
  | fence o => rfl
  | inspect => cases slot <;> rfl
  | operate op =>
    cases slot with
    | none => rfl
    | some s =>
      simp only [step, value?_some, Register.step, Operation.supported_iff]
      split
      · rw [Storage.perform_eq]
        dsimp only
        rw [value?_some, Storage.dispose_holding]
      · rfl
  | update script o =>
    cases slot with
    | none => rfl
    | some s =>
      simp only [step, value?_some, Register.step, Register.conclude]
      rw [Storage.retry_eq]
      cases (Register.retryFrom script s.dispose s.dispose).ending <;>
        simp only [value?_some, Storage.dispose_holding]

/-- One action on a slot gives the answer of the register and leaves the value it leaves. -/
theorem act_value (slot : Slot α) (a : Action α) :
    ((slot.act a).1, (slot.act a).2.value?) = Register.act slot.value? a := by
  cases a with
  | step a => exact step_value slot a
  | convert v => exact fill_value slot v
  | initial => exact fill_value slot _

end Slot

namespace Register

variable {α : Type} [Codec α]

theorem fill_ne_fault (r : Option α) (v : α) (f : Fault) : (fill r v).1 ≠ .error (.fault f) := by
  rw [fill]
  split <;> simp

variable [Inspect α]

theorem step_ne_fault (r : Option α) (a : Step α) (f : Fault) :
    (step r a).1 ≠ .error (.fault f) := by
  cases a with
  | prepare v => exact fill_ne_fault r v f
  | fence o => simp [step]
  | dispose => cases r <;> simp [step]
  | inspect => cases r <;> simp [step]
  | operate op =>
    cases r with
    | none => simp [step]
    | some v => simp only [step]; split <;> simp
  | update script o =>
    cases r with
    | none => simp [step]
    | some v => simp only [step, conclude]; split <;> simp

theorem act_ne_fault (r : Option α) (a : Action α) (f : Fault) :
    (act r a).1 ≠ .error (.fault f) := by
  cases a with
  | step a => exact step_ne_fault r a f
  | convert v => exact fill_ne_fault r v f
  | initial => exact fill_ne_fault r _ f

theorem run_ne_fault (r : Option α) (actions : List (Action α)) (f : Fault) :
    ∀ x ∈ run r actions, x.1 ≠ .error (.fault f) := by
  induction actions generalizing r with
  | nil => intro x hx; cases hx
  | cons a rest ih =>
    intro x hx
    rcases List.mem_cons.mp hx with hx | hx
    · rw [hx]; exact act_ne_fault r a f
    · exact ih _ x hx

end Register

namespace Slot

variable {α : Type} [Codec α] [Inspect α]

theorem run_value (slot : Slot α) (actions : List (Action α)) :
    (slot.run actions).map (fun x => (x.1, x.2.value?)) = Register.run slot.value? actions := by
  induction actions generalizing slot with
  | nil => rfl
  | cons a rest ih =>
    have h := act_value slot a
    rw [run, Register.run, List.map_cons, ih, ← h]

/-- **Storage refines a plain register.** From any state of the slot, and for any actions with any
values and orderings, every answer and every value in between are those of a register that holds
the value itself; and no action is refused for the ordering that its cell was handed. -/
theorem run_refines_register (slot : Slot α) (actions : List (Action α)) :
    (slot.run actions).map (fun x => (x.1, x.2.value?)) = Register.run slot.value? actions ∧
      ∀ x ∈ slot.run actions, ∀ f, x.1 ≠ .error (.fault f) := by
  refine ⟨run_value slot actions, ?_⟩
  intro x hx f
  have hx' : (x.1, x.2.value?) ∈ Register.run slot.value? actions := by
    rw [← run_value]
    exact List.mem_map.mpr ⟨x, hx, rfl⟩
  exact Register.run_ne_fault _ actions f _ hx'

end Slot

end OrderedAtomics
