import OrderedAtomics.Export.Call
import OrderedAtomics.Proofs.Export.Spelling
import OrderedAtomics.Proofs.Register

/-
  A caller in another language, which knows the functions of a type by their names alone.  It works
  on one slot and has variables of its own; a compare-exchange is handed the reference of one of
  them, where it finds the value it expects and leaves the value it met.  Whatever such a caller
  does, the exported functions give it what the generic operations give that their names spell, and
  hand the same accesses to the cell, with the orderings and the strength of the names
  (`run_exported`).  A compare-exchange that did not happen leaves its caller ready for one that
  does (`act_flag_false`).
-/
namespace OrderedAtomics.Export

/-! ## Callers -/

/-- A caller: the slot it works on, the values of its variables, and what its calls have handed to
the cell, the latest first. -/
structure ForeignCaller (α : Type) [Codec α] where
  slot : Slot α
  vars : Nat → α
  handed : List (Access (Codec.width α)) := []

/-- What a caller does. -/
inductive ForeignAct (α : Type) where
  /-- Writes one of its variables. -/
  | assign (x : Nat) (v : α)
  /-- Calls a function by name, with the reference of variable `x` where it wants one. -/
  | call (symbol : String) (x : Nat) (values : List α)

/-- The functions that names lead to: what each does to a slot, given the value behind the reference
and the values passed.  A name may lead nowhere. -/
abbrev Linkage (α : Type) [Codec α] :=
  String → Slot α → α → List α → Option (Except Refusal (Called α))

namespace ForeignCaller

variable {α : Type} [Codec α]

/-- Writes a variable. -/
def assign (c : ForeignCaller α) (x : Nat) (v : α) : ForeignCaller α :=
  { c with vars := fun y => if y = x then v else c.vars y }

/-- The caller with another slot, after accesses to the cell. -/
def proceed (c : ForeignCaller α) (slot : Slot α) (accesses : List (Access (Codec.width α))) :
    ForeignCaller α :=
  { c with slot, handed := accesses ++ c.handed }

/-- The caller when a call is over that was handed the reference of variable `x`. -/
def receive (c : ForeignCaller α) (x : Nat) (called : Called α) : ForeignCaller α :=
  match called.outcome with
  | .flag _ expected => (c.proceed called.slot called.accesses).assign x expected
  | .nothing | .value _ => c.proceed called.slot called.accesses

/-- What the caller is told by an act, and the caller after it.  It is told nothing by an
assignment nor by a name that leads nowhere, and a call that is refused leaves all as it was. -/
def act (linkage : Linkage α) (c : ForeignCaller α) :
    ForeignAct α → Option (Except Refusal (Outcome α)) × ForeignCaller α
  | .assign x v => (none, c.assign x v)
  | .call symbol x values =>
    match linkage symbol c.slot (c.vars x) values with
    | none => (none, c)
    | some (.error r) => (some (.error r), c)
    | some (.ok called) => (some (.ok called.outcome), c.receive x called)

/-- What the caller is told by each of its acts in turn, with the caller after it. -/
def run (linkage : Linkage α) (c : ForeignCaller α) :
    List (ForeignAct α) → List (Option (Except Refusal (Outcome α)) × ForeignCaller α)
  | [] => []
  | a :: rest => c.act linkage a :: run linkage (c.act linkage a).2 rest

theorem assign_self (c : ForeignCaller α) (x : Nat) : c.assign x (c.vars x) = c := by
  have h : (fun y => if y = x then c.vars x else c.vars y) = c.vars := by
    funext y
    split
    · next h => rw [h]
    · rfl
  rw [assign, h]

end ForeignCaller

/-! ## What the names lead to -/

namespace Entry

variable {α : Type}

/-- The arguments of a call, the value behind the reference among them where it is wanted. -/
def arguments (e : Entry) (expected : α) (values : List α) : List α :=
  match e with
  | .compareExchange _ _ => expected :: values
  | _ => values

/-- The generic step that a function stands for, unless too few values are passed. -/
def step? (e : Entry) (expected : α) (values : List α) : Option (Step α) :=
  match e, values with
  | .prepare, v :: _ => some (.prepare v)
  | .dispose, _ => some .dispose
  | .load o, _ => some (.operate (.load o))
  | .store o, v :: _ => some (.operate (.store v o))
  | .exchange o, v :: _ => some (.operate (.exchange v o))
  | .compareExchange k o, v :: _ => some (.operate (.compareExchange k expected v o))
  | .fetch op o, v :: _ => some (.operate (.fetch op v o))
  | _, [] => none

/-- What the name of a function spells for the cell: at most one access. -/
def accesses [Codec α] (e : Entry) (expected : α) (values : List α) :
    List (Access (Codec.width α)) :=
  match e, values with
  | .load o, _ => [.load o.toMemoryOrder]
  | .store o, v :: _ => [.store (Codec.encode v) o.toMemoryOrder]
  | .exchange o, v :: _ => [.swap (Codec.encode v) o.toMemoryOrder]
  | .compareExchange k o, v :: _ => [.compareExchange k (Codec.encode expected) (Codec.encode v)
    o.success.toMemoryOrder o.failure.toMemoryOrder]
  | .fetch op o, v :: _ => [.fetch op (Codec.encode v) o.toMemoryOrder]
  | .prepare, _ | .dispose, _ | _, [] => []

end Entry

/-- The answer to a step as a caller in another language sees it: of an exchange, whether it
happened, and what it then finds behind its reference. -/
def Outcome.ofAnswer {α : Type} (expected : α) : Answer α → Outcome α
  | .reply (.value v) => .value v
  | .reply (.exchanged (.ok _)) => .flag true expected
  | .reply (.exchanged (.error observed)) => .flag false observed
  | .reply .done | .updated _ _ | .shown _ => .nothing

/-- The generic step that a function stands for, taken. -/
def Entry.take {α : Type} [Codec α] [Inspect α] (e : Entry) (slot : Slot α) (expected : α)
    (values : List α) : Except Refusal (Called α) :=
  match e.step? expected values with
  | none => .error .unsupported
  | some step =>
    match slot.step step with
    | (.error r, _) => .error r
    | (.ok answer, slot') => .ok ⟨.ofAnswer expected answer, slot', e.accesses expected values⟩

/-- The storage function that a function is on a type, if it is one that the type has. -/
def Symbol.entryOn? (t : ExportedType) : Symbol → Option Entry
  | .storage e t' => if t' = t ∧ e ∈ Entry.all t then some e else none
  | .threadFence _ | .retain | .release => none

/-- The exported functions of a type. -/
def exported (t : ExportedType) : Linkage t.Carrier := fun symbol slot expected values =>
  (Symbol.entryNamed t symbol).map fun e => ForeignCall.run slot ⟨e, e.arguments expected values⟩

/-- The generic operations on a type: a name is read, and the step that it spells is taken. -/
def spelled (t : ExportedType) : Linkage t.Carrier := fun symbol slot expected values =>
  ((Symbol.read? symbol).bind (Symbol.entryOn? t)).map fun e => e.take slot expected values

/-! ## Names are read as they are linked -/

namespace Symbol

theorem entryOn?_eq_some_iff {t : ExportedType} {f : Symbol} {e : Entry} :
    entryOn? t f = some e ↔ f = .storage e t ∧ e ∈ Entry.all t := by
  cases f with
  | storage e' t' =>
    rw [entryOn?]
    constructor
    · intro h
      split at h
      next hin =>
        cases h
        exact ⟨by rw [hin.1], hin.2⟩
      next => cases h
    · rintro ⟨h, he⟩
      cases h
      rw [if_pos ⟨rfl, he⟩]
  | threadFence _ | retain | release => exact ⟨nofun, fun h => nomatch h.1⟩

theorem entryNamed_eq_some_iff {t : ExportedType} {s : String} {e : Entry} :
    entryNamed t s = some e ↔ (storage e t).name = s ∧ e ∈ Entry.all t := by
  constructor
  · intro h
    have hname := List.find?_some h
    exact ⟨beq_iff_eq.mp hname, List.mem_of_find?_eq_some h⟩
  · rintro ⟨rfl, he⟩
    have hsome : (entryNamed t (storage e t).name).isSome := by
      rw [entryNamed, List.find?_isSome]
      exact ⟨e, he, beq_self_eq_true _⟩
    obtain ⟨e', he'⟩ := Option.isSome_iff_exists.mp hsome
    -- Another function of the type with that name would be read as this one.
    have hname := List.find?_some he'
    cases name_inj (beq_iff_eq.mp hname)
    exact he'

theorem entryNamed_eq (t : ExportedType) (s : String) :
    entryNamed t s = (read? s).bind (entryOn? t) := by
  apply Option.ext
  intro e
  rw [entryNamed_eq_some_iff, Option.bind_eq_some_iff]
  constructor
  · rintro ⟨hname, he⟩
    exact ⟨_, read?_eq_some_iff.mpr hname, entryOn?_eq_some_iff.mpr ⟨rfl, he⟩⟩
  · rintro ⟨f, hread, hentry⟩
    obtain ⟨rfl, he⟩ := entryOn?_eq_some_iff.mp hentry
    exact ⟨read?_eq_some_iff.mp hread, he⟩

end Symbol

/-! ## Exported functions take the steps that they stand for -/

theorem Entry.supports_of_mem {t : ExportedType} {op : FetchOp} {o : UpdateOrdering}
    (h : Entry.fetch op o ∈ Entry.all t) : Codec.supports t.Carrier op = true := by
  have hop : op ∈ Codec.fetches t.Carrier := by
    simpa [Entry.all, o.mem_all] using h
  exact decide_eq_true hop

theorem Entry.compareExchange_mem (t : ExportedType) (k : Strength) (o : ExchangeOrdering) :
    Entry.compareExchange k o ∈ Entry.all t := by
  simp [Entry.all, k.mem_all, o.mem_all]

namespace ForeignCall

variable {α : Type} [Codec α]

theorem operate_some (s : Storage α) (op : Operation α) (outcome : Reply α → Outcome α) :
    operate (some s) op outcome = .ok ⟨outcome (Register.perform s.dispose op).1,
      some (.holding (Register.perform s.dispose op).2), [op.access]⟩ := by
  simp only [operate, storageOf, bind, Except.bind, Storage.perform_eq, checked]
  rfl

/-- A fetch function does the same whichever method it calls. -/
theorem operate_fetch (slot : Slot α) (op : FetchOp) (v : α) (o : UpdateOrdering)
    (outcome : Reply α → Outcome α) :
    operate slot (if Codec.supportsAll α then .fetchModify op v o else .fetch op v o) outcome =
      operate slot (.fetch op v o) outcome := by
  split
  · cases slot with
    | none => rfl
    | some s =>
      rw [operate_some, operate_some, Register.perform_fetchModify]
      rfl
  · rfl

/-- A function that stands for an operation on the stored value, with storage in the slot. -/
theorem run_operate {e : Entry} {expected : α} {values : List α} {op : Operation α} (s : Storage α)
    (h : e.step? expected values = some (.operate op)) :
    run (some s) ⟨e, e.arguments expected values⟩ =
      .ok ⟨.ofAnswer expected (.reply (Register.perform s.dispose op).1),
        some (.holding (Register.perform s.dispose op).2), e.accesses expected values⟩ := by
  cases e with
  | prepare | dispose =>
    cases values <;> cases h
  | load o =>
    cases h
    exact operate_some s _ _
  | store o | exchange o =>
    cases values <;> cases h
    exact operate_some s _ _
  | compareExchange k o =>
    cases values <;> cases h
    refine (operate_some s _ _).trans ?_
    rw [Register.perform]
    split <;> rfl
  | fetch op o =>
    cases values <;> cases h
    refine (operate_fetch _ op _ o _).trans ((operate_some s _ _).trans ?_)
    rw [Register.perform_fetch]
    rfl

/-- A call with enough values, and with storage where it is wanted, is not refused, and hands to the
cell what its name spells. -/
theorem run_ok {e : Entry} {slot : Slot α} {expected : α} {values : List α}
    (hfree : Codec.lockFree α = true) (hvalues : e.arity ≤ (e.arguments expected values).length)
    (hslot : e = .prepare ∨ slot.isSome) :
    ∃ outcome slot', run slot ⟨e, e.arguments expected values⟩ =
      .ok ⟨outcome, slot', e.accesses expected values⟩ := by
  by_cases hprepare : e = .prepare
  · subst hprepare
    obtain ⟨v, rest, rfl⟩ := List.exists_cons_of_length_pos hvalues
    refine ⟨.nothing, some (.holding v), ?_⟩
    simp only [run, Entry.arguments, Storage.prepare?_eq, hfree, if_true]
    rfl
  · obtain ⟨s, rfl⟩ := Option.isSome_iff_exists.mp (hslot.resolve_left hprepare)
    cases e with
    | prepare => exact absurd rfl hprepare
    | dispose => exact ⟨_, _, rfl⟩
    | load o => exact ⟨_, _, run_operate s rfl⟩
    | store o | exchange o | fetch op o =>
      obtain ⟨v, rest, rfl⟩ := List.exists_cons_of_length_pos hvalues
      exact ⟨_, _, run_operate s rfl⟩
    | compareExchange k o =>
      obtain ⟨v, rest, rfl⟩ := List.exists_cons_of_length_pos (Nat.le_of_succ_le_succ hvalues)
      exact ⟨_, _, run_operate s rfl⟩

/-- A call that says that an exchange did not happen leaves what it met behind the reference, and in
the slot. -/
theorem run_flag_false {e : Entry} {slot slot' : Slot α} {expected observed : α} {values : List α}
    {accesses : List (Access (Codec.width α))}
    (h : run slot ⟨e, e.arguments expected values⟩ = .ok ⟨.flag false observed, slot', accesses⟩) :
    ∃ s, slot' = some s ∧ s.dispose = observed := by
  cases e with
  | prepare =>
    cases values with
    | nil => cases h
    | cons v rest =>
      simp only [run, Entry.arguments] at h
      split at h <;> cases h
  | dispose => cases slot <;> cases h
  | load o =>
    cases slot with
    | none => cases h
    | some s =>
      rw [run_operate s rfl] at h
      cases h
  | store o | exchange o =>
    cases values with
    | nil => cases h
    | cons v rest =>
      cases slot with
      | none => cases h
      | some s =>
        rw [run_operate s rfl] at h
        cases h
  | fetch op o =>
    cases values with
    | nil => cases h
    | cons v rest =>
      cases slot with
      | none => cases h
      | some s =>
        rw [run_operate s rfl, Register.perform_fetch] at h
        cases h
  | compareExchange k o =>
    cases values with
    | nil => cases h
    | cons v rest =>
      cases slot with
      | none => cases h
      | some s =>
        rw [run_operate s rfl, Register.perform] at h
        split at h
        · cases h
        · cases h
          exact ⟨_, rfl, Storage.dispose_holding _⟩

variable [Inspect α]

theorem run_eq_take_of_operate {e : Entry} {expected : α} {values : List α} {op : Operation α}
    (slot : Slot α) (h : e.step? expected values = some (.operate op)) (hop : op.supported = true) :
    run slot ⟨e, e.arguments expected values⟩ = e.take slot expected values := by
  rw [Entry.take, h]
  cases slot with
  | none =>
    cases e <;> cases values <;> cases h <;> rfl
  | some s =>
    rw [run_operate s h]
    simp only [Slot.step, hop, if_true, Storage.perform_eq]

/-- An exported function of a type does what the generic step does that it stands for. -/
theorem run_eq_take {t : ExportedType} {e : Entry} (he : e ∈ Entry.all t) (slot : Slot t.Carrier)
    (expected : t.Carrier) (values : List t.Carrier) :
    run slot ⟨e, e.arguments expected values⟩ = e.take slot expected values := by
  cases e with
  | prepare =>
    cases values with
    | nil => rfl
    | cons v rest =>
      simp only [run, Entry.arguments, Entry.take, Entry.step?, Slot.step]
      cases Storage.prepare? v <;> rfl
  | dispose => cases slot <;> rfl
  | load o => exact run_eq_take_of_operate slot rfl rfl
  | store o | exchange o | compareExchange k o =>
    cases values with
    | nil => rfl
    | cons v rest => exact run_eq_take_of_operate slot rfl rfl
  | fetch op o =>
    cases values with
    | nil => rfl
    | cons v rest => exact run_eq_take_of_operate slot rfl (Entry.supports_of_mem he)

end ForeignCall

/-- What a name leads to is what it spells, whether or not a function has it. -/
theorem exported_eq_spelled (t : ExportedType) (symbol : String) (slot : Slot t.Carrier)
    (expected : t.Carrier) (values : List t.Carrier) :
    exported t symbol slot expected values = spelled t symbol slot expected values := by
  rw [exported, spelled, Symbol.entryNamed_eq]
  cases h : (Symbol.read? symbol).bind (Symbol.entryOn? t) with
  | none => rfl
  | some e =>
    obtain ⟨f, -, hentry⟩ := Option.bind_eq_some_iff.mp h
    have he : e ∈ Entry.all t := (Symbol.entryOn?_eq_some_iff.mp hentry).2
    rw [Option.map_some, Option.map_some, ForeignCall.run_eq_take he]

namespace ForeignCaller

variable {t : ExportedType}

theorem act_exported (c : ForeignCaller t.Carrier) (a : ForeignAct t.Carrier) :
    c.act (exported t) a = c.act (spelled t) a := by
  cases a with
  | assign x v => rfl
  | call symbol x values => rw [act, exported_eq_spelled]; rfl

/-- A caller cannot tell the exported functions from the generic operations. -/
theorem run_exported (c : ForeignCaller t.Carrier) (acts : List (ForeignAct t.Carrier)) :
    c.run (exported t) acts = c.run (spelled t) acts := by
  induction acts generalizing c with
  | nil => rfl
  | cons a rest ih => rw [run, run, act_exported, ih]

/-- A compare-exchange called by name, with storage in the slot. -/
theorem act_compareExchange {symbol : String} {k : Strength} {o : ExchangeOrdering}
    (hread : Symbol.read? symbol = some (.storage (.compareExchange k o) t))
    {c : ForeignCaller t.Carrier} {s : Storage t.Carrier} (hslot : c.slot = some s) (x : Nat)
    (desired : t.Carrier) :
    c.act (exported t) (.call symbol x [desired]) =
      if s.dispose = c.vars x then
        (some (.ok (.flag true (c.vars x))), c.proceed (some (.holding desired))
          ((Entry.compareExchange k o).accesses (c.vars x) [desired]))
      else
        (some (.ok (.flag false s.dispose)), (c.proceed c.slot
          ((Entry.compareExchange k o).accesses (c.vars x) [desired])).assign x s.dispose) := by
  have hentry : Symbol.entryNamed t symbol = some (.compareExchange k o) :=
    Symbol.entryNamed_eq_some_iff.mpr
      ⟨Symbol.read?_eq_some_iff.mp hread, Entry.compareExchange_mem t k o⟩
  have hcall : exported t symbol c.slot (c.vars x) [desired] = some (.ok
      ⟨.ofAnswer (c.vars x) (.reply (Register.perform s.dispose
        (.compareExchange k (c.vars x) desired o)).1),
      some (.holding (Register.perform s.dispose
        (.compareExchange k (c.vars x) desired o)).2),
      (Entry.compareExchange k o).accesses (c.vars x) [desired]⟩) := by
    rw [exported, hentry, hslot, Option.map_some, ForeignCall.run_operate s rfl]
  rw [act, hcall, Register.perform]
  by_cases heq : s.dispose = c.vars x
  · simp only [if_pos heq, Outcome.ofAnswer, receive]
    exact congrArg _ (assign_self (c.proceed _ _) x)
  · simp only [if_neg heq, Outcome.ofAnswer, receive, Storage.holding_dispose, ← hslot]

/-- When any call says that an exchange did not happen, what it met is in the slot and behind the
reference. -/
theorem act_flag_false {c c' : ForeignCaller t.Carrier} {symbol : String} {x : Nat}
    {values : List t.Carrier} {observed : t.Carrier}
    (h : c.act (exported t) (.call symbol x values) = (some (.ok (.flag false observed)), c')) :
    ∃ s, c'.slot = some s ∧ s.dispose = observed ∧ c'.vars x = observed := by
  rw [act] at h
  split at h
  next => cases h
  next => cases h
  next called hcall =>
    obtain ⟨outcome, slot, accesses⟩ := called
    cases h
    obtain ⟨e, -, hrun⟩ := Option.map_eq_some_iff.mp hcall
    obtain ⟨s, hs, hobserved⟩ := ForeignCall.run_flag_false hrun
    exact ⟨s, hs, hobserved, if_pos rfl⟩

theorem lockFree_carrier (t : ExportedType) : Codec.lockFree t.Carrier = true := by
  cases t <;> rfl

theorem handed_receive (c : ForeignCaller t.Carrier) (x : Nat) (called : Called t.Carrier) :
    (c.receive x called).handed = called.accesses ++ c.handed := by
  unfold receive
  split <;> rfl

/-- A function of the type that is handed as many values as it takes gives something back, provided
there is storage for it to work on, and hands to the cell what its name spells. -/
theorem act_returns (c : ForeignCaller t.Carrier) {e : Entry} (he : e ∈ Entry.all t) (x : Nat)
    (values : List t.Carrier) (hvalues : e.arity ≤ (e.arguments (c.vars x) values).length)
    (hslot : e = .prepare ∨ c.slot.isSome) :
    ∃ outcome after, c.act (exported t) (.call (Symbol.storage e t).name x values) =
      (some (.ok outcome), after) ∧ after.handed = e.accesses (c.vars x) values ++ c.handed := by
  have hentry : Symbol.entryNamed t (Symbol.storage e t).name = some e :=
    Symbol.entryNamed_eq_some_iff.mpr ⟨rfl, he⟩
  obtain ⟨outcome, slot, hrun⟩ := ForeignCall.run_ok (lockFree_carrier t) hvalues hslot
  refine ⟨outcome, c.receive x ⟨outcome, slot, e.accesses (c.vars x) values⟩, ?_,
    handed_receive ..⟩
  rw [act, exported, hentry, Option.map_some, hrun]

/-- **The exported functions simulate the generic operations.**  A caller that does anything, for as
long as it likes, is told the same by the functions that it names as by the operations that the
names spell, is left with the same slot and the same variables after each act, and hands the same
accesses to the cell.  A function that has what it needs always gives something back, and hands to
the cell what its name spells, ordering and strength included.  A compare-exchange says that it
happened exactly if the generic one gives back the previous value, and then leaves the variable of
its caller alone; it says that it did not happen exactly if the generic one met another value, and
then that value is in the variable, and still in the slot.  After any call that says so, a
compare-exchange with the same
variable happens, whatever its strength and its orderings, and leaves its desired value. -/
theorem exported_simulates_spelled (t : ExportedType) :
    (∀ (c : ForeignCaller t.Carrier) (acts : List (ForeignAct t.Carrier)),
      c.run (exported t) acts = c.run (spelled t) acts) ∧
    (∀ (c : ForeignCaller t.Carrier) (e : Entry) (x : Nat) (values : List t.Carrier),
      e ∈ Entry.all t → e.arity ≤ (e.arguments (c.vars x) values).length →
      (e = .prepare ∨ c.slot.isSome) →
      ∃ outcome after, c.act (exported t) (.call (Symbol.storage e t).name x values) =
        (some (.ok outcome), after) ∧ after.handed = e.accesses (c.vars x) values ++ c.handed) ∧
    (∀ (c : ForeignCaller t.Carrier) (s : Storage t.Carrier) (symbol : String) (k : Strength)
      (o : ExchangeOrdering) (x : Nat) (desired : t.Carrier),
      Symbol.read? symbol = some (.storage (.compareExchange k o) t) → c.slot = some s →
      ∃ result s' happened after,
        s.compareExchange k (c.vars x) desired o = .ok (result, s') ∧
        c.act (exported t) (.call symbol x [desired]) =
          (some (.ok (.flag happened (after.vars x))), after) ∧
        after.slot = some s' ∧
        (happened = true ↔ ∃ previous, result = .ok previous) ∧
        (happened = true → after.vars = c.vars) ∧
        (happened = false ↔ ∃ observed, result = .error observed) ∧
        ∀ observed, result = .error observed →
          after.vars = (c.assign x observed).vars ∧ s' = s ∧ s.dispose = observed) ∧
    (∀ (c met : ForeignCaller t.Carrier) (symbol : String) (x : Nat) (values : List t.Carrier)
      (observed : t.Carrier),
      c.act (exported t) (.call symbol x values) = (some (.ok (.flag false observed)), met) →
      ∀ (symbol' : String) (k : Strength) (o : ExchangeOrdering) (desired : t.Carrier),
        Symbol.read? symbol' = some (.storage (.compareExchange k o) t) →
        ∃ after, met.act (exported t) (.call symbol' x [desired]) =
            (some (.ok (.flag true observed)), after) ∧
          after.slot.value? = some desired ∧ after.vars = met.vars) := by
  refine ⟨run_exported, fun c e x values he => act_returns c he x values, ?_, ?_⟩
  · intro c s symbol k o x desired hread hslot
    let accesses := (Entry.compareExchange k o).accesses (c.vars x) [desired]
    have hact := act_compareExchange hread hslot x desired
    have hgeneric := s.compareExchange_eq k (c.vars x) desired o
    by_cases heq : s.dispose = c.vars x
    · rw [if_pos heq] at hact hgeneric
      refine ⟨_, _, true, c.proceed (some (.holding desired)) accesses, hgeneric, hact, rfl, ?_,
        fun _ => rfl, ?_, nofun⟩
      · exact ⟨fun _ => ⟨_, rfl⟩, fun _ => rfl⟩
      · exact ⟨nofun, fun ⟨_, h⟩ => nomatch h⟩
    · rw [if_neg heq] at hact hgeneric
      have hmet : ((c.proceed c.slot accesses).assign x s.dispose).vars x = s.dispose := if_pos rfl
      refine ⟨_, _, false, (c.proceed c.slot accesses).assign x s.dispose, hgeneric, ?_, hslot, ?_,
        nofun, ?_, ?_⟩
      · rw [hact, hmet]
      · exact ⟨nofun, fun ⟨_, h⟩ => nomatch h⟩
      · exact ⟨fun _ => ⟨_, rfl⟩, fun _ => rfl⟩
      · rintro observed ⟨⟩
        exact ⟨rfl, rfl, rfl⟩
  · intro c met symbol x values observed hcall symbol' k o desired hread
    obtain ⟨s, hslot, hs, hx⟩ := act_flag_false hcall
    have hact := act_compareExchange hread hslot x desired
    rw [if_pos (hs.trans hx.symm), hx] at hact
    refine ⟨_, hact, ?_, rfl⟩
    exact congrArg some (Storage.dispose_holding desired)

/-- A slot with 3 in it and a variable with 4: a strong exchange to 9 does not happen, and leaves 3
in the variable, whereupon a weak one happens. -/
theorem exported_simulates_spelled_second_try :
    let c : ForeignCaller (ExportedType.Carrier (.integer .int32)) :=
      { slot := some (.holding ⟨3⟩), vars := fun _ => ⟨4⟩ }
    ∃ met after,
      c.act (exported _) (.call "_sa_cmpxchg_strong_acq_rel_acquire_int32" 0 [⟨9⟩]) =
        (some (.ok (.flag false ⟨3⟩)), met) ∧
      met.slot.value? = some ⟨3⟩ ∧ met.vars 0 = ⟨3⟩ ∧
      met.act (exported _) (.call "_sa_cmpxchg_weak_seq_cst_seq_cst_int32" 0 [⟨9⟩]) =
        (some (.ok (.flag true ⟨3⟩)), after) ∧
      after.slot.value? = some ⟨9⟩ ∧ after.vars 0 = ⟨3⟩ := by
  intro c
  obtain ⟨-, -, hexchange, hagain⟩ := exported_simulates_spelled (.integer .int32)
  obtain ⟨result, s', happened, met, hgeneric, hact, hslot, -, -, hfalse, hmet⟩ :=
    hexchange c (.holding ⟨3⟩) "_sa_cmpxchg_strong_acq_rel_acquire_int32" .strong
      ⟨.acqRel, .acquire, by decide⟩ 0 ⟨9⟩ rfl rfl
  have hresult : Except.ok (Except.error ⟨3⟩, Storage.holding ⟨3⟩) = Except.ok (result, s') :=
    hgeneric
  cases hresult
  obtain ⟨hvariables, -, -⟩ := hmet ⟨3⟩ rfl
  have hx : met.vars 0 = ⟨3⟩ := by rw [hvariables]; rfl
  rw [hfalse.mpr ⟨_, rfl⟩, hx] at hact
  obtain ⟨after, hact', hafter, hsame⟩ :=
    hagain c met _ 0 [⟨9⟩] ⟨3⟩ hact "_sa_cmpxchg_weak_seq_cst_seq_cst_int32" .weak
      ⟨.seqCst, .seqCst, by decide⟩ ⟨9⟩ rfl
  exact ⟨met, after, hact, by rw [hslot]; rfl, hx, hact', hafter, by rw [hsame, hx]⟩

end ForeignCaller

end OrderedAtomics.Export
