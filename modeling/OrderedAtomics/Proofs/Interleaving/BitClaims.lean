import OrderedAtomics.Proofs.Interleaving.History

/-
  Bits that threads claim on one storage.  A bitwise or claims the bits of its operand that are
  still clear, and a bitwise and those still set that its operand lacks.  A call that asks for a bit
  leaves it taken and no call gives it back (`bit_result`); so among calls in a row that ask for it
  the first finds it free and all others find it taken (`claimed_of_free`), however the operands
  overlap.
-/
namespace OrderedAtomics

/-- A bit of a value, as it is stored. -/
def Codec.bit {α : Type} [Codec α] (v : α) (i : Nat) : Bool := (Codec.encode v).getLsbD i

/-- The fetch that claims bits in the state they are free in: clear ones by setting them, and set
ones by clearing them. -/
def FetchOp.claiming : Bool → FetchOp
  | false => .or
  | true => .and

namespace Fetch

variable {α : Type} [Codec α]

/-- Whether a fetch asks for bit `i`. -/
def asks (free : Bool) (i : Nat) (c : Fetch α) : Bool := Codec.bit c.operand i != free

variable {free : Bool} {i : Nat}

/-- A call that asks for a bit leaves it taken, and no other call changes it. -/
theorem bit_result {c : Fetch α} (hc : c.op = .claiming free) (v : α) :
    Codec.bit (c.result v) i = if asks free i c then !free else Codec.bit v i := by
  unfold asks Codec.bit
  rw [Fetch.encode_result, hc]
  cases free with
  | false =>
    rw [FetchOp.claiming, FetchOp.apply, BitVec.getLsbD_or]
    cases (Codec.encode c.operand).getLsbD i <;> simp
  | true =>
    rw [FetchOp.claiming, FetchOp.apply, BitVec.getLsbD_and]
    cases (Codec.encode c.operand).getLsbD i <;> simp

end Fetch

namespace Fetched

variable {α : Type} [Codec α]

/-- Of the calls that ask for bit `i` exactly one finds it free, and that is the first. -/
def ClaimedOnce (free : Bool) (i : Nat) (made : List (Fetched α)) : Prop :=
  ∃ first rest, (made.filter fun c => c.fetch.asks free i) = first :: rest ∧
    Codec.bit first.previous i = free ∧ ∀ c ∈ rest, Codec.bit c.previous i = !free

variable {free : Bool} {i : Nat} {fetches : List (Fetch α)} {v : α}

/-- A bit that is taken stays so. -/
theorem taken_of_taken (hf : ∀ c ∈ fetches, c.op = .claiming free) (hv : Codec.bit v i = !free) :
    ∀ c ∈ row v fetches, Codec.bit c.previous i = !free := by
  induction fetches generalizing v with
  | nil => exact nofun
  | cons c rest ih =>
    intro d hd
    rcases List.mem_cons.mp hd with rfl | hd
    · exact hv
    · refine ih (fun e he => hf e (List.mem_cons_of_mem c he)) ?_ d hd
      rw [Fetch.bit_result (hf c List.mem_cons_self), hv, ite_self]

/-- A bit that is free is claimed once by calls of which one asks for it.  The induction is on the
calls, for any value they start from: a call that does not ask leaves the bit free. -/
theorem claimed_of_free (hf : ∀ c ∈ fetches, c.op = .claiming free) (hv : Codec.bit v i = free)
    (hasks : ∃ c ∈ fetches, c.asks free i = true) : ClaimedOnce free i (row v fetches) := by
  induction fetches generalizing v with
  | nil => exact hasks.elim fun c hc => nomatch hc.1
  | cons c rest ih =>
    have hrest : ∀ d ∈ rest, d.op = .claiming free := fun d hd => hf d (List.mem_cons_of_mem c hd)
    have hresult := Fetch.bit_result (i := i) (hf c List.mem_cons_self) v
    by_cases hc : c.asks free i = true
    · rw [if_pos hc] at hresult
      refine ⟨⟨c, v⟩, _, List.filter_cons_of_pos hc, hv, fun d hd => ?_⟩
      exact taken_of_taken hrest hresult d (List.mem_filter.mp hd).1
    · rw [if_neg hc, hv] at hresult
      obtain ⟨d, hd, hdasks⟩ := hasks
      rcases List.mem_cons.mp hd with rfl | hd
      · exact absurd hdasks hc
      · obtain ⟨first, others, hfilter, hfirst⟩ := ih hrest hresult ⟨d, hd, hdasks⟩
        refine ⟨first, others, ?_, hfirst⟩
        rw [row, List.filter_cons, if_neg hc, hfilter]

end Fetched

/-! ## Flags -/

/-- The only bit of a flag is the flag. -/
theorem Codec.bit_flag (v : Bool) : bit v 0 = v := by cases v <;> rfl

theorem Fetch.asks_flag (c : Fetch Bool) : c.asks false 0 = c.operand := by
  rw [asks, Codec.bit_flag, Bool.bne_false]

/-! ## Threads that claim bits -/

namespace Machine

variable {α : Type} [Codec α]

/-- Threads that claim bits: the calls that end are fetches in a row, and those that ask for one
that is free at first claim it once. -/
theorem run_claims (free : Bool) (s : Storage α) {programs : List (List (Fetch α))}
    (hf : ∀ c ∈ programs.flatten, c.op = .claiming free) (schedule : List Nat) :
    ∃ (m : Machine α) (made : List (Fetched α)),
      (init s (programs.map (List.map Fetch.toCall))).run schedule = .ok m ∧
      (init s (programs.map (List.map Fetch.toCall))).history schedule =
        made.map Fetched.outcome ∧
      (m.finished = true → (made.map Fetched.fetch).Perm programs.flatten ∧
        ∀ i, Codec.bit s.dispose i = free →
          (∃ c ∈ programs.flatten, c.asks free i = true) →
          Fetched.ClaimedOnce free i made) := by
  obtain ⟨m, fetches, left, hrun, hhistory, -, hperm, hleft⟩ := run_fetches s programs schedule
  refine ⟨m, Fetched.row s.dispose fetches, hrun, hhistory, fun hm => ?_⟩
  rw [hleft hm, List.append_nil] at hperm
  refine ⟨by rwa [Fetched.fetch_row], fun i hi hasks => ?_⟩
  obtain ⟨c, hc, hcasks⟩ := hasks
  exact Fetched.claimed_of_free (fun d hd => hf d (hperm.mem_iff.mp hd)) hi
    ⟨c, hperm.mem_iff.mpr hc, hcasks⟩

/-- **Each bit is claimed once.** Threads make fetches that set bits, or fetches that clear them,
with whatever operands.  Whatever the schedule, the calls that end are fetches in a row, and all
of them once all threads have finished; then, for each bit that is free at first and that some
operand asks for, exactly one of the calls that ask for it finds it free, and that one comes before
all others.  For a flag that is down, exactly one of the calls that raise it finds it down. -/
theorem each_bit_claimed_once :
    (∀ (α : Type) [Codec α] (free : Bool) (s : Storage α) (programs : List (List (Fetch α))),
      (∀ c ∈ programs.flatten, c.op = .claiming free) → ∀ schedule,
      ∃ (m : Machine α) (made : List (Fetched α)),
        (init s (programs.map (List.map Fetch.toCall))).run schedule = .ok m ∧
        (init s (programs.map (List.map Fetch.toCall))).history schedule =
          made.map Fetched.outcome ∧
        (m.finished = true → (made.map Fetched.fetch).Perm programs.flatten ∧
          ∀ i, Codec.bit s.dispose i = free →
            (∃ c ∈ programs.flatten, c.asks free i = true) →
            Fetched.ClaimedOnce free i made)) ∧
    (∀ (s : Storage Bool) (programs : List (List (Fetch Bool))),
      (∀ c ∈ programs.flatten, c.op = .or) → s.dispose = false →
      (∃ c ∈ programs.flatten, c.operand = true) → ∀ schedule,
      ∃ (m : Machine Bool) (made : List (Fetched Bool)),
        (init s (programs.map (List.map Fetch.toCall))).run schedule = .ok m ∧
        (init s (programs.map (List.map Fetch.toCall))).history schedule =
          made.map Fetched.outcome ∧
        (m.finished = true → (made.map Fetched.fetch).Perm programs.flatten ∧
          ∃ first rest, (made.filter fun c => c.fetch.operand) = first :: rest ∧
            first.previous = false ∧ ∀ c ∈ rest, c.previous = true)) := by
  constructor
  · intro α _ free s programs hf schedule
    exact run_claims free s hf schedule
  · intro s programs hf hs hraised schedule
    obtain ⟨m, made, hrun, hhistory, hdone⟩ := run_claims false s hf schedule
    refine ⟨m, made, hrun, hhistory, fun hm => ?_⟩
    obtain ⟨hperm, hclaimed⟩ := hdone hm
    have hasks : ∃ c ∈ programs.flatten, c.asks false 0 = true := by
      obtain ⟨c, hc, hcraised⟩ := hraised
      exact ⟨c, hc, c.asks_flag.trans hcraised⟩
    obtain ⟨first, rest, hfilter, hfirst, hrest⟩ :=
      hclaimed 0 ((Codec.bit_flag _).trans hs) hasks
    simp only [Fetch.asks_flag] at hfilter
    refine ⟨hperm, first, rest, hfilter, (Codec.bit_flag _).symm.trans hfirst, fun c hc => ?_⟩
    exact (Codec.bit_flag _).symm.trans (hrest c hc)

/-- Fetches that set bits of a byte, some of them the same. -/
def overlaps : List (List (Fetch (MachineInt .unsigned 8))) :=
  [[.modify .or ⟨6⟩ .relaxed, .bitwise .or ⟨3⟩ .seqCst], [.modify .or ⟨12⟩ .acqRel]]

/-- Fetches that clear bits of a byte stored complemented. -/
def clearings : List (List (Fetch Inverted)) :=
  [[.modify .and ⟨⟨6⟩⟩ .release], [.bitwise .and ⟨⟨7⟩⟩ .acquire]]

/-- Fetches of a flag, of which two raise it. -/
def raisings : List (List (Fetch Bool)) :=
  [[.bitwise .or true .relaxed], [.bitwise .or false .acqRel, .bitwise .or true .seqCst]]

/-- Of three fetches two ask for each of two bits of a byte that is one; two clear a bit of a byte
that is stored as all ones; and two raise a flag. -/
theorem each_bit_claimed_once_overlaps :
    (∃ m made, (init (.holding ⟨1⟩) (overlaps.map (List.map Fetch.toCall))).run [0, 1, 0] =
      .ok m ∧ m.finished = true ∧
      (init (.holding ⟨1⟩) (overlaps.map (List.map Fetch.toCall))).history [0, 1, 0] =
        made.map Fetched.outcome ∧
      Fetched.ClaimedOnce false 1 made ∧ Fetched.ClaimedOnce false 2 made) ∧
    (∃ m made, (init (.holding ⟨⟨0⟩⟩) (clearings.map (List.map Fetch.toCall))).run [1, 0] =
      .ok m ∧ m.finished = true ∧
      (init (.holding ⟨⟨0⟩⟩) (clearings.map (List.map Fetch.toCall))).history [1, 0] =
        made.map Fetched.outcome ∧
      Fetched.ClaimedOnce true 1 made) ∧
    (∃ (m : Machine Bool) (made : List (Fetched Bool)),
      (init (.holding false) (raisings.map (List.map Fetch.toCall))).run [1, 1, 0] = .ok m ∧
      m.finished = true ∧ (made.map Fetched.fetch).Perm raisings.flatten ∧
      ∃ first rest, (made.filter fun c => c.fetch.operand) = first :: rest ∧
        first.previous = false ∧ ∀ c ∈ rest, c.previous = true) := by
  refine ⟨?_, ?_, ?_⟩
  · obtain ⟨m, made, hrun, hhistory, hdone⟩ :=
      each_bit_claimed_once.1 _ false (.holding ⟨1⟩) overlaps (by decide) [0, 1, 0]
    have hm : m.finished = true := finished_of_run hrun rfl
    have hclaimed := (hdone hm).2
    exact ⟨m, made, hrun, hm, hhistory, hclaimed 1 (by decide) (by decide),
      hclaimed 2 (by decide) (by decide)⟩
  · obtain ⟨m, made, hrun, hhistory, hdone⟩ :=
      each_bit_claimed_once.1 _ true (.holding ⟨⟨0⟩⟩) clearings (by decide) [1, 0]
    have hm : m.finished = true := finished_of_run hrun rfl
    exact ⟨m, made, hrun, hm, hhistory, (hdone hm).2 1 (by decide) (by decide)⟩
  · obtain ⟨m, made, hrun, -, hdone⟩ :=
      each_bit_claimed_once.2 (.holding false) raisings (by decide) (by decide) (by decide)
        [1, 1, 0]
    have hm : m.finished = true := finished_of_run hrun rfl
    exact ⟨m, made, hrun, hm, hdone hm⟩

end Machine

end OrderedAtomics
