import OrderedAtomics.Proofs.Interleaving.Linearization
import OrderedAtomics.Proofs.Counter

/-
  Fetches that many threads make on one storage all count.  Additions and subtractions may be made
  in any order, and so may fetches of one bitwise operation (`apply_comm`); hence the calls of all
  threads leave what they leave in the order of the programs, and that is the first value combined
  with every operand (`foldl_apply_sum`, `no_fetch_lost`).  Operands count as they are stored: for
  machine integers these are the numbers themselves, modulo two to the width.
-/
namespace OrderedAtomics

/-! ## Fetches and their families -/

/-- A fetch as a thread asks for it: by the method named after the operation, or by one of the two
that are handed it. -/
inductive Fetch (α : Type) where
  | named (op : FetchOp) (operand : α) (o : UpdateOrdering)
  | modify (op : FetchOp) (operand : α) (o : UpdateOrdering)
  | bitwise (op : BitwiseOp) (operand : α) (o : UpdateOrdering)

namespace Fetch

variable {α : Type}

/-- The operation asked for. -/
def op : Fetch α → FetchOp
  | .named op _ _ | .modify op _ _ => op
  | .bitwise .or _ _ => .or
  | .bitwise .xor _ _ => .xor
  | .bitwise .and _ _ => .and

/-- The operand of the fetch. -/
def operand : Fetch α → α
  | .named _ x _ | .modify _ x _ | .bitwise _ x _ => x

/-- The call that makes the fetch. -/
def toCall : Fetch α → Call α
  | .named op x o => .operate (.fetch op x o)
  | .modify op x o => .operate (.fetchModify op x o)
  | .bitwise op x o => .operate (.fetchBitwise op x o)

/-- The sum of the operands of one operation, read as numbers. -/
def sumOf (read : α → Int) (op : FetchOp) (fetches : List (Fetch α)) : Int :=
  ((fetches.filter fun c => c.op = op).map fun c => read c.operand).sum

theorem sumOf_cons (read : α → Int) (op : FetchOp) (c : Fetch α) (fetches : List (Fetch α)) :
    sumOf read op (c :: fetches) =
      (if c.op = op then read c.operand else 0) + sumOf read op fetches := by
  unfold sumOf
  by_cases h : c.op = op
  · rw [List.filter_cons_of_pos (by simpa using h), if_pos h, List.map_cons, List.sum_cons]
  · rw [List.filter_cons_of_neg (by simpa using h), if_neg h, Int.zero_add]

end Fetch

/-- A family of fetches that may be made in any order. -/
inductive FetchFamily where
  | sum
  | or
  | xor
  | and
  deriving DecidableEq

namespace FetchFamily

/-- The operations of a family. -/
def members : FetchFamily → List FetchOp
  | .sum => [.add, .sub]
  | .or => [.or]
  | .xor => [.xor]
  | .and => [.and]

/-- Two operations of one family may change places. -/
theorem apply_comm {f : FetchFamily} {op₁ op₂ : FetchOp} (h₁ : op₁ ∈ f.members)
    (h₂ : op₂ ∈ f.members) {w : Nat} (bits x y : BitVec w) :
    op₂.apply (op₁.apply bits x) y = op₁.apply (op₂.apply bits y) x := by
  cases f with
  | sum =>
    simp only [members, List.mem_cons, List.not_mem_nil, or_false] at h₁ h₂
    rcases h₁ with rfl | rfl <;> rcases h₂ with rfl | rfl <;>
      simp only [FetchOp.apply, BitVec.sub_eq_add_neg] <;> ac_rfl
  | or | xor | and =>
    rw [List.mem_singleton.mp h₁, List.mem_singleton.mp h₂]
    simp only [FetchOp.apply]
    ac_rfl

variable {α : Type} [Codec α]

/-- What the fetches of a family leave of a value, as it is stored, in whatever order they are
made. -/
def total (f : FetchFamily) (v : α) (fetches : List (Fetch α)) : BitVec (Codec.width α) :=
  match f with
  | .sum => BitVec.ofInt _ ((Codec.encode v).toNat +
      Fetch.sumOf (fun x => (Codec.encode x).toNat) .add fetches -
      Fetch.sumOf (fun x => (Codec.encode x).toNat) .sub fetches)
  | .or => (fetches.map fun c => Codec.encode c.operand).foldl (· ||| ·) (Codec.encode v)
  | .xor => (fetches.map fun c => Codec.encode c.operand).foldl (· ^^^ ·) (Codec.encode v)
  | .and => (fetches.map fun c => Codec.encode c.operand).foldl (· &&& ·) (Codec.encode v)

/-- Additions and subtractions leave the exact sum modulo two to the width, for any way to read
values as numbers that agrees with their bits.  The induction is on the fetches, for any exact sum
`n` so far. -/
theorem foldl_apply_sum {read : α → Int}
    (hread : ∀ x, BitVec.ofInt (Codec.width α) (read x) = Codec.encode x)
    {fetches : List (Fetch α)} (hf : ∀ c ∈ fetches, c.op ∈ FetchFamily.sum.members) (n : Int) :
    fetches.foldl (fun bits c => c.op.apply bits (Codec.encode c.operand)) (BitVec.ofInt _ n) =
      BitVec.ofInt _ (n + Fetch.sumOf read .add fetches - Fetch.sumOf read .sub fetches) := by
  induction fetches generalizing n with
  | nil => simp [Fetch.sumOf]
  | cons c fetches ih =>
    have ih' := ih fun d hd => hf d (List.mem_cons_of_mem c hd)
    rw [List.foldl_cons, Fetch.sumOf_cons, Fetch.sumOf_cons, ← hread]
    have hc := hf c List.mem_cons_self
    simp only [members, List.mem_cons, List.not_mem_nil, or_false] at hc
    rcases hc with hc | hc
    · rw [hc, FetchOp.apply, ← BitVec.ofInt_add, ih', if_pos rfl, if_neg (by decide)]
      congr 1
      omega
    · rw [hc, FetchOp.apply, BitVec.sub_eq_add_neg, ← BitVec.ofInt_neg, ← BitVec.ofInt_add, ih',
        if_neg (by decide), if_pos rfl]
      congr 1
      omega

theorem ofInt_encode (x : α) :
    BitVec.ofInt (Codec.width α) ((Codec.encode x).toNat : Int) = Codec.encode x := by
  rw [BitVec.ofInt_natCast, BitVec.ofNat_toNat, BitVec.setWidth_eq]

/-- Fetches of one operation combine every operand with it. -/
theorem foldl_apply_same {op : FetchOp} {fetches : List (Fetch α)}
    (hf : ∀ c ∈ fetches, c.op = op) (bits : BitVec (Codec.width α)) :
    fetches.foldl (fun bits c => c.op.apply bits (Codec.encode c.operand)) bits =
      (fetches.map fun c => Codec.encode c.operand).foldl op.apply bits := by
  induction fetches generalizing bits with
  | nil => rfl
  | cons c fetches ih =>
    rw [List.foldl_cons, List.map_cons, List.foldl_cons, hf c List.mem_cons_self]
    exact ih (fun d hd => hf d (List.mem_cons_of_mem c hd)) _

/-- The fetches of a family, made in the order they are listed, leave its total. -/
theorem foldl_apply_eq_total (f : FetchFamily) (v : α) {fetches : List (Fetch α)}
    (hf : ∀ c ∈ fetches, c.op ∈ f.members) :
    fetches.foldl (fun bits c => c.op.apply bits (Codec.encode c.operand)) (Codec.encode v) =
      f.total v fetches := by
  cases f with
  | sum =>
    rw [← ofInt_encode v]
    exact foldl_apply_sum ofInt_encode hf _
  | or | xor | and => exact foldl_apply_same (fun c hc => List.mem_singleton.mp (hf c hc)) _

end FetchFamily

/-! ## Fetches as calls -/

namespace Fetch

variable {α : Type} [Codec α]

/-- A fetch gives back the value there was and leaves it combined with the operand. -/
theorem perform_toCall (v : α) (c : Fetch α) : c.toCall.perform v =
    (.reply (.value v), Codec.decode (c.op.apply (Codec.encode v) (Codec.encode c.operand))) := by
  cases c with
  | named op x o => rw [toCall, Call.perform, Register.perform_fetch]; rfl
  | modify op x o => cases op <;> rfl
  | bitwise op x o => cases op <;> rfl

/-- The value a fetch leaves of `v`. -/
def result (v : α) (c : Fetch α) : α := (c.toCall.perform v).2

theorem encode_result (v : α) (c : Fetch α) :
    Codec.encode (c.result v) = c.op.apply (Codec.encode v) (Codec.encode c.operand) := by
  rw [result, perform_toCall, Codec.encode_decode]

theorem encode_foldl_result (v : α) (fetches : List (Fetch α)) :
    Codec.encode (fetches.foldl result v) =
      fetches.foldl (fun bits c => c.op.apply bits (Codec.encode c.operand))
        (Codec.encode v) := by
  induction fetches generalizing v with
  | nil => rfl
  | cons c fetches ih => rw [List.foldl_cons, List.foldl_cons, ih, encode_result]

theorem result_comm {f : FetchFamily} {c d : Fetch α} (hc : c.op ∈ f.members)
    (hd : d.op ∈ f.members) (v : α) : d.result (c.result v) = c.result (d.result v) := by
  apply Codec.encode_inj.mp
  rw [encode_result, encode_result, encode_result, encode_result]
  exact FetchFamily.apply_comm hc hd _ _ _

end Fetch

namespace Machine

variable {α : Type} [Codec α]

/-- The threads never fault, whatever the schedule, and once all have finished they leave `v`. -/
def Leaves (m : Machine α) (v : α) : Prop :=
  ∀ schedule, ∃ m', m.run schedule = .ok m' ∧ (m'.finished = true → m'.storage.dispose = v)

/-- Threads that make fetches of one family leave what the fetches leave in program order. -/
theorem leaves_foldl {f : FetchFamily} (s : Storage α) {programs : List (List (Fetch α))}
    (hf : ∀ c ∈ programs.flatten, c.op ∈ f.members) :
    (init s (programs.map (List.map Fetch.toCall))).Leaves
      (programs.flatten.foldl Fetch.result s.dispose) := by
  intro schedule
  obtain ⟨m, hrun, hreplay⟩ := run_replay s (programs.map (List.map Fetch.toCall)) schedule
  refine ⟨m, hrun, fun hm => ?_⟩
  obtain ⟨calls, hperm, -, hvalue⟩ := hreplay hm
  rw [← List.map_flatten] at hperm
  have hcomm : ∀ x ∈ calls, ∀ y ∈ calls, ∀ v : α,
      (y.perform (x.perform v).2).2 = (x.perform (y.perform v).2).2 := by
    intro x hx y hy v
    obtain ⟨c, hc, rfl⟩ := List.mem_map.mp (hperm.mem_iff.mp hx)
    obtain ⟨d, hd, rfl⟩ := List.mem_map.mp (hperm.mem_iff.mp hy)
    exact Fetch.result_comm (hf c hc) (hf d hd) v
  rw [hvalue, Call.replay_value, hperm.foldl_eq' hcomm, List.foldl_map]
  rfl

end Machine

/-! ## Machine integers -/

namespace MachineInt

variable {s : Signedness} {w : Nat}

/-- Sums and differences of machine integers leave the exact number, reduced into the range. -/
theorem toInt_foldl_result (v : MachineInt s w) {fetches : List (Fetch (MachineInt s w))}
    (hf : ∀ c ∈ fetches, c.op ∈ FetchFamily.sum.members) :
    (fetches.foldl Fetch.result v).toInt =
      wrap s w (v.toInt + Fetch.sumOf toInt .add fetches - Fetch.sumOf toInt .sub fetches) := by
  have hread : ∀ x : MachineInt s w,
      BitVec.ofInt (Codec.width (MachineInt s w)) x.toInt = Codec.encode x := ofInt_toInt
  have hfold := FetchFamily.foldl_apply_sum hread hf v.toInt
  rw [hread, ← Fetch.encode_foldl_result] at hfold
  rw [← toInt_ofInt]
  exact congrArg (fun bits => toInt (⟨bits⟩ : MachineInt s w)) hfold

end MachineInt

/-! ## No fetch is lost -/

/-- **No fetch is lost, whatever the schedule.** Threads that make fetches of one family on one
storage never fault, and there is one value that they leave under every schedule in which all
finish: as it is stored, the first value combined with every operand, so that it is the first value
again where as much is added as is subtracted.  For sums of machine integers it is the exact number,
reduced into the range of the type. -/
theorem no_fetch_lost :
    (∀ (α : Type) [Codec α] (f : FetchFamily) (s : Storage α) (programs : List (List (Fetch α))),
      (∀ c ∈ programs.flatten, c.op ∈ f.members) →
      ∃ v : α, (Machine.init s (programs.map (List.map Fetch.toCall))).Leaves v ∧
        Codec.encode v = f.total s.dispose programs.flatten ∧
        (f = .sum →
          Fetch.sumOf (fun x => (Codec.encode x).toNat) .add programs.flatten =
            Fetch.sumOf (fun x => (Codec.encode x).toNat) .sub programs.flatten →
          v = s.dispose)) ∧
    (∀ (g : Signedness) (w : Nat) (s : Storage (MachineInt g w))
      (programs : List (List (Fetch (MachineInt g w)))),
      (∀ c ∈ programs.flatten, c.op ∈ FetchFamily.sum.members) →
      ∃ v : MachineInt g w, (Machine.init s (programs.map (List.map Fetch.toCall))).Leaves v ∧
        v.toInt = MachineInt.wrap g w (s.dispose.toInt +
          Fetch.sumOf MachineInt.toInt .add programs.flatten -
          Fetch.sumOf MachineInt.toInt .sub programs.flatten)) := by
  constructor
  · intro α _ f s programs hf
    have htotal : Codec.encode (programs.flatten.foldl Fetch.result s.dispose) =
        f.total s.dispose programs.flatten := by
      rw [Fetch.encode_foldl_result]
      exact FetchFamily.foldl_apply_eq_total f s.dispose hf
    refine ⟨_, Machine.leaves_foldl s hf, htotal, ?_⟩
    rintro rfl hbalanced
    apply Codec.encode_inj.mp
    rw [htotal, FetchFamily.total, hbalanced, Int.add_sub_cancel, FetchFamily.ofInt_encode]
  · intro g w s programs hf
    exact ⟨_, Machine.leaves_foldl s hf, MachineInt.toInt_foldl_result s.dispose hf⟩

/-- Two additions of numbers stored with the sign in the lowest bit. -/
def zigzagSums : List (List (Fetch Zigzag)) :=
  [[.modify .add ⟨⟨-1⟩⟩ .relaxed], [.modify .add ⟨⟨1⟩⟩ .seqCst]]

/-- Additions and a subtraction that pass the greatest byte on the way. -/
def byteSums : List (List (Fetch (MachineInt .signed 8))) :=
  [[.modify .add ⟨100⟩ .acqRel, .modify .sub ⟨2⟩ .relaxed], [.modify .add ⟨100⟩ .release]]

/-- Minus one and one, added to zero as they are stored, make minus two; and a hundred twice, but
for two, is 198, which a signed byte holds as minus 58. -/
theorem no_fetch_lost_sums :
    (∃ m, (Machine.init (.holding ⟨⟨0⟩⟩) (zigzagSums.map (List.map Fetch.toCall))).run [1, 0] =
      .ok m ∧ m.finished = true ∧ m.storage.dispose = ⟨⟨-2⟩⟩) ∧
    (∃ m, (Machine.init (.holding ⟨0⟩) (byteSums.map (List.map Fetch.toCall))).run [0, 1, 0] =
      .ok m ∧ m.finished = true ∧ m.storage.dispose.toInt = -58) := by
  constructor
  · obtain ⟨v, hleaves, htotal, -⟩ :=
      no_fetch_lost.1 Zigzag .sum (.holding ⟨⟨0⟩⟩) zigzagSums (by decide)
    obtain ⟨m, hrun, hv⟩ := hleaves [1, 0]
    have hm : m.finished = true := by
      rw [Except.ok.inj (hrun.symm.trans rfl)]
      rfl
    refine ⟨m, hrun, hm, (hv hm).trans ?_⟩
    exact Codec.encode_inj.mp (htotal.trans (by decide))
  · obtain ⟨v, hleaves, htotal⟩ := no_fetch_lost.2 .signed 8 (.holding ⟨0⟩) byteSums (by decide)
    obtain ⟨m, hrun, hv⟩ := hleaves [0, 1, 0]
    have hm : m.finished = true := by
      rw [Except.ok.inj (hrun.symm.trans rfl)]
      rfl
    refine ⟨m, hrun, hm, ?_⟩
    rw [hv hm, htotal]
    decide

end OrderedAtomics
