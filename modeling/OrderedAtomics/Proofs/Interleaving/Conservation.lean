import OrderedAtomics.Proofs.Interleaving.Outcomes
import Mathlib.Data.List.Nodup

/-
  Threads that trade on one storage neither lose nor duplicate a value.  An exchange, a
  compare-exchange that happens and a retry loop that lands each take the value that is stored and
  put one in its place; a load and a call that fails leave the storage alone (`trade?_perform`).
  Calls made one after the other thus form a chain of trades (`replay_chain`), in which every value
  put in is taken out by the next trade or left in the end (`Chain.balance`).  The outcomes of
  threads are those of such calls, in some order.
-/
namespace OrderedAtomics

/-! ## Trades -/

/-- A value that a call took out of the storage, and the one it put there instead. -/
structure Trade (α : Type) where
  taken : α
  given : α

namespace Trade

variable {α : Type}

/-- Trades in a row: each takes the value that was put in before. -/
def Chain : α → List (Trade α) → α → Prop
  | first, [], last => first = last
  | first, t :: rest, last => t.taken = first ∧ Chain t.given rest last

variable {first last last' : α} {trades trades' : List (Trade α)}

theorem Chain.balance (h : Chain first trades last) :
    first :: trades.map given = trades.map taken ++ [last] := by
  induction trades generalizing first with
  | nil =>
    rw [show first = last from h]
    rfl
  | cons t rest ih =>
    obtain ⟨htaken, hrest⟩ := h
    rw [List.map_cons, List.map_cons, List.cons_append, htaken, ih hrest]

/-- Where no value is taken twice there is one way to put trades in a row. -/
theorem Chain.unique (h : Chain first trades last) (h' : Chain first trades' last')
    (hp : trades'.Perm trades) (hn : (trades.map taken).Nodup) : trades' = trades := by
  induction trades generalizing first trades' with
  | nil => exact List.perm_nil.mp hp
  | cons t rest ih =>
    cases trades' with
    | nil => exact (List.nil_perm.mp hp).symm
    | cons t' rest' =>
      obtain ⟨htaken, hrest⟩ := h
      obtain ⟨htaken', hrest'⟩ := h'
      have ht : t' = t := List.inj_on_of_nodup_map hn (hp.mem_iff.mp List.mem_cons_self)
        List.mem_cons_self (htaken'.trans htaken.symm)
      subst ht
      rw [ih hrest hrest' hp.cons_inv (List.nodup_cons.mp hn).2]

end Trade

namespace Call

variable {α : Type}

/-- Whether a call takes one value for each that it puts in, if it does anything at all. -/
def trades : Call α → Bool
  | .operate (.store _ _) | .operate (.fetch _ _ _) | .operate (.fetchModify _ _ _)
  | .operate (.fetchBitwise _ _ _) => false
  | _ => true

/-- Whether a call only looks. -/
def looks : Call α → Bool
  | .operate (.load _) => true
  | _ => false

/-- The trade in a call that gave something back.  A retry loop that landed put in what its function
made of the value it took. -/
def trade? : Call α × Return α → Option (Trade α)
  | (.operate (.exchange v _), .reply (.value previous)) => some ⟨previous, v⟩
  | (.operate (.compareExchange _ _ desired _), .reply (.exchanged (.ok previous))) =>
    some ⟨previous, desired⟩
  | (.update f _, .updated (.ok previous)) => (f previous).map fun next => ⟨previous, next⟩
  | _ => none

theorem trade?_declined (call : Call α) (current : α) :
    trade? (call, .updated (.error current)) = none := by
  cases call with
  | operate op => cases op <;> rfl
  | update f o => rfl

variable [Codec α]

theorem trade?_perform {call : Call α} (h : call.trades = true) (v : α) :
    trade? (call, (call.perform v).1) = some ⟨v, (call.perform v).2⟩ ∨
      trade? (call, (call.perform v).1) = none ∧ (call.perform v).2 = v := by
  cases call with
  | operate op =>
    cases op with
    | load o => exact .inr ⟨rfl, rfl⟩
    | store v o => cases h
    | exchange next o => exact .inl rfl
    | compareExchange k expected desired o =>
      simp only [perform, Register.perform]
      split
      · exact .inl rfl
      · exact .inr ⟨rfl, rfl⟩
    | fetch op operand o | fetchModify op operand o | fetchBitwise op operand o => cases h
  | update f o =>
    simp only [perform]
    cases hf : f v with
    | none => exact .inr ⟨rfl, rfl⟩
    | some next =>
      left
      simp only [trade?, hf, Option.map_some]

/-- A call that succeeds trades, unless it only looks. -/
theorem isSome_trade? {call : Call α} (h : call.trades = true) (v : α) :
    (trade? (call, (call.perform v).1)).isSome =
      (!call.looks && (call.perform v).1.succeeded) := by
  cases call with
  | operate op =>
    cases op with
    | load o => rfl
    | store v o => cases h
    | exchange next o => rfl
    | compareExchange k expected desired o =>
      simp only [perform, Register.perform]
      split <;> rfl
    | fetch op operand o | fetchModify op operand o | fetchBitwise op operand o => cases h
  | update f o =>
    simp only [perform]
    cases hf : f v with
    | none => rfl
    | some next => simp [trade?, hf, looks, Return.succeeded]

/-- Calls made one after the other form a chain of trades. -/
theorem replay_chain {calls : List (Call α)} (h : ∀ call ∈ calls, call.trades = true) (v : α) :
    Trade.Chain v ((calls.zip (replay v calls).1).filterMap trade?) (replay v calls).2 := by
  induction calls generalizing v with
  | nil => rfl
  | cons call rest ih =>
    have ih := ih fun c hc => h c (List.mem_cons_of_mem call hc)
    rw [replay, List.zip_cons_cons]
    rcases trade?_perform (h call List.mem_cons_self) v with ht | ⟨ht, hv⟩
    · rw [List.filterMap_cons_some ht]
      exact ⟨rfl, ih _⟩
    · rw [List.filterMap_cons_none ht, hv]
      exact ih v

end Call

/-! ## Conservation -/

namespace Machine

variable {α : Type} [Codec α]

/-- The trades in the calls that have ended. -/
def trades (programs : List (List (Call α))) (m : Machine α) : List (Trade α) :=
  (m.outcomes programs).filterMap Call.trade?

/-- **Values are conserved.** Threads load, exchange, compare-exchange and run retry loops on one
storage.  Whatever the schedule, and wherever it stops, the first value and those put in are the
values taken out and the one that is left; and the trades made, put in the right order, form a
chain from the first value to the last.  Where all values put in are distinct, and from the first
one, that order is the only one, and each value is taken out once unless it is the one left. -/
theorem values_conserved (s : Storage α) (programs : List (List (Call α)))
    (h : ∀ call ∈ programs.flatten, call.trades = true) (schedule : List Nat) :
    ∃ m, (init s programs).run schedule = .ok m ∧
      ((m.outcomes programs).map Prod.snd).Perm m.returns ∧
      (∀ x ∈ m.outcomes programs, (Call.trade? x).isSome = (!x.1.looks && x.2.succeeded)) ∧
      (s.dispose :: (m.trades programs).map Trade.given).Perm
        ((m.trades programs).map Trade.taken ++ [m.storage.dispose]) ∧
      (∃ chain, chain.Perm (m.trades programs) ∧
        Trade.Chain s.dispose chain m.storage.dispose) ∧
      ((s.dispose :: (m.trades programs).map Trade.given).Nodup →
        (∀ v ∈ s.dispose :: (m.trades programs).map Trade.given,
          ((m.trades programs).map Trade.taken).count v =
            if v = m.storage.dispose then 0 else 1) ∧
        ∀ chain chain',
          chain.Perm (m.trades programs) → Trade.Chain s.dispose chain m.storage.dispose →
          chain'.Perm (m.trades programs) → Trade.Chain s.dispose chain' m.storage.dispose →
          chain = chain') := by
  obtain ⟨m, hrun, hreturns, calls, hcalls, hvalue, houtcomes⟩ := run_outcomes s programs schedule
  have htrades : ((calls.zip (Call.replay s.dispose calls).1).filterMap Call.trade?).Perm
      (m.trades programs) := by
    rw [trades, ← filterMap_outcomes Call.trade?_declined]
    exact (houtcomes.filterMap _).symm
  have hchain := Call.replay_chain (fun call hcall => h call (hcalls call hcall)) s.dispose
  rw [← hvalue] at hchain
  have hbalance : (s.dispose :: (m.trades programs).map Trade.given).Perm
      ((m.trades programs).map Trade.taken ++ [m.storage.dispose]) := by
    refine ((htrades.map Trade.given).symm.cons s.dispose).trans ?_
    rw [hchain.balance]
    exact (htrades.map Trade.taken).append_right _
  refine ⟨m, hrun, hreturns, ?_, hbalance, ⟨_, htrades, hchain⟩, fun hn => ⟨?_, ?_⟩⟩
  · intro x hx
    obtain ⟨hmem, v, hv⟩ := Call.of_mem_replay (houtcomes.mem_iff.mp (mem_outcomes_settled hx))
    have hsome := Call.isSome_trade? (h x.1 (hcalls x.1 hmem)) v
    rw [← hv] at hsome
    exact hsome
  · intro v hv
    have hone := List.count_eq_one_of_mem hn hv
    rw [hbalance.count_eq, List.count_append, List.count_singleton] at hone
    by_cases hlast : v = m.storage.dispose
    · rw [if_pos (beq_iff_eq.mpr hlast.symm)] at hone
      rw [if_pos hlast]
      omega
    · rw [if_neg fun e => hlast (beq_iff_eq.mp e).symm] at hone
      rw [if_neg hlast]
      exact hone
  · intro chain chain' hp hc hp' hc'
    have htaken : ((m.trades programs).map Trade.taken).Nodup :=
      (List.nodup_append.mp (hbalance.nodup_iff.mp hn)).1
    exact hc'.unique hc (hp.trans hp'.symm) ((hp'.map _).nodup_iff.mpr htaken)

/-- An exchange, a retry loop that turns 2 into 7 and 3 into 5, and two compare-exchanges before a
load. -/
def handovers : List (List (Call (MachineInt .unsigned 8))) :=
  [[.operate (.exchange ⟨3⟩ .acqRel)],
    [.update (fun v => if v = ⟨2⟩ then some ⟨7⟩ else if v = ⟨3⟩ then some ⟨5⟩ else none)
      ⟨.seqCst, .acquire, by decide⟩],
    [.operate (.compareExchange .strong ⟨9⟩ ⟨4⟩ ⟨.seqCst, .seqCst, by decide⟩),
      .operate (.compareExchange .weak ⟨5⟩ ⟨6⟩ ⟨.release, .relaxed, by decide⟩),
      .operate (.load .relaxed)]]

/-- The exchange comes between the load and the compare-exchange of the loop, which fails and lands
in its second round; the first of the two compare-exchanges fails too. -/
theorem values_conserved_handovers :
    ∃ m, (init (.holding ⟨2⟩) handovers).run [1, 1, 0, 2, 1, 1, 1, 2, 2] = .ok m ∧
      m.finished = true ∧ m.storage.dispose = ⟨6⟩ ∧
      m.trades handovers = [⟨⟨2⟩, ⟨3⟩⟩, ⟨⟨3⟩, ⟨5⟩⟩, ⟨⟨5⟩, ⟨6⟩⟩] ∧
      ∀ chain, chain.Perm (m.trades handovers) → Trade.Chain ⟨2⟩ chain ⟨6⟩ →
        chain = m.trades handovers := by
  obtain ⟨m, hrun, -, -, -, -, hdistinct⟩ :=
    values_conserved (.holding ⟨2⟩) handovers (by decide) [1, 1, 0, 2, 1, 1, 1, 2, 2]
  have hm := Except.ok.inj (hrun.symm.trans rfl)
  have htrades : m.trades handovers = [⟨⟨2⟩, ⟨3⟩⟩, ⟨⟨3⟩, ⟨5⟩⟩, ⟨⟨5⟩, ⟨6⟩⟩] := by
    rw [hm]
    rfl
  have hlast : m.storage.dispose = ⟨6⟩ := by
    rw [hm]
    rfl
  refine ⟨m, hrun, ?_, hlast, htrades, ?_⟩
  · rw [hm]
    rfl
  · intro chain hp hc
    rw [htrades, hlast] at hdistinct
    rw [htrades] at hp ⊢
    exact (hdistinct (by decide)).2 _ _ hp hc (List.Perm.refl _) ⟨rfl, rfl, rfl, rfl⟩

end Machine

end OrderedAtomics
