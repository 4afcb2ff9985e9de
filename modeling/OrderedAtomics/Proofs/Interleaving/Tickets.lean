import OrderedAtomics.Proofs.Interleaving.History
import Mathlib

/-
  A counter that threads add to hands out tickets: the values before each addition are the first
  value and its multiples of the step, whatever the schedule.  They are reduced into the cell, so
  tickets come round again; two of them are the same exactly when their numbers agree modulo the
  period of the step (`ticket_eq_iff`), and that is how many there are before the first repeats
  (`nodup_tickets`).
-/
namespace OrderedAtomics

/-- The way a counter runs. -/
inductive Direction where
  | up
  | down

namespace Direction

/-- The fetch that counts this way. -/
def op : Direction → FetchOp
  | .up => .add
  | .down => .sub

/-- How far a fetch moves the number stored, before it is reduced. -/
def stride {w : Nat} (d : Direction) (x : BitVec w) : Int :=
  match d with
  | .up => x.toNat
  | .down => -x.toNat

/-- The number stored after `k` fetches. -/
def ticket {w : Nat} (d : Direction) (first x : BitVec w) (k : Nat) : Int :=
  (first.toNat + k * d.stride x) % (2 ^ w : Nat)

/-- How many fetches lead back to the number they started from. -/
def period {w : Nat} (x : BitVec w) : Nat := 2 ^ w / (2 ^ w).gcd x.toNat

section Bits

variable {w : Nat} (d : Direction) (first x : BitVec w)

theorem ticket_zero : d.ticket first x 0 = first.toNat := by
  rw [ticket, Int.natCast_zero, Int.zero_mul, Int.add_zero, ← Int.natCast_emod,
    Nat.mod_eq_of_lt first.isLt]

/-- One fetch leaves the next number. -/
theorem toNat_apply : ((d.op.apply first x).toNat : Int) = d.ticket first x 1 := by
  have hx : x.toNat ≤ 2 ^ w := x.isLt.le
  cases d with
  | up => simp [op, FetchOp.apply, ticket, stride, BitVec.toNat_add]
  | down =>
    rw [op, FetchOp.apply, BitVec.toNat_sub, ticket, stride, Int.natCast_one, Int.one_mul,
      Int.natCast_emod, Int.natCast_add, Int.natCast_sub hx, sub_add_eq_add_sub, add_sub_assoc,
      Int.add_emod_left, Int.sub_eq_add_neg]

/-- The fetches after the first one start from what it leaves. -/
theorem ticket_apply (k : Nat) :
    d.ticket (d.op.apply first x) x k = d.ticket first x (k + 1) := by
  rw [ticket, toNat_apply, ticket, Int.emod_add_emod, ticket]
  congr 1
  push_cast
  ring

theorem period_pos : 0 < period x :=
  Nat.div_pos (Nat.le_of_dvd (Nat.two_pow_pos w) (Nat.gcd_dvd_left _ _))
    (Nat.gcd_pos_of_pos_left _ (Nat.two_pow_pos w))

/-- Tickets are the same exactly when their numbers agree modulo the period: their difference is a
multiple of the step, and that vanishes in the cell when the part of two to the width that the step
does not have divides how often it is taken. -/
theorem ticket_eq_iff (j k : Nat) :
    d.ticket first x j = d.ticket first x k ↔ j % period x = k % period x := by
  have hgcd : ((2 ^ w : Nat) : Int).gcd (d.stride x) = (2 ^ w).gcd x.toNat := by
    cases d with
    | up => exact Int.gcd_natCast_natCast _ _
    | down => exact Int.gcd_neg.trans (Int.gcd_natCast_natCast _ _)
  have hdvd : (((2 ^ w).gcd x.toNat : Nat) : Int) ∣ (2 ^ w : Nat) :=
    Int.natCast_dvd_natCast.mpr (Nat.gcd_dvd_left _ _)
  have hne : (((2 ^ w).gcd x.toNat : Nat) : Int) ≠ 0 :=
    Int.natCast_ne_zero.mpr (Nat.gcd_pos_of_pos_left _ (Nat.two_pow_pos w)).ne'
  calc d.ticket first x j = d.ticket first x k
      ↔ ((2 ^ w : Nat) : Int) ∣
          first.toNat + k * d.stride x - (first.toNat + j * d.stride x) := Int.modEq_iff_dvd
    _ ↔ ((2 ^ w : Nat) : Int) ∣ d.stride x * (k - j) := by
        rw [show first.toNat + k * d.stride x - (first.toNat + j * d.stride x) =
          d.stride x * (k - j) by ring]
    _ ↔ ((2 ^ w : Nat) : Int) ∣ ((2 ^ w).gcd x.toNat : Nat) * (k - j) := by
        rw [← hgcd, Int.dvd_gcd_mul_iff_dvd_mul]
    _ ↔ (period x : Int) ∣ k - j := by
        rw [← Int.ediv_dvd_iff_dvd_mul hdvd hne, period, Int.natCast_ediv]
    _ ↔ j % period x = k % period x := Nat.modEq_iff_dvd.symm

/-- Tickets are all different as long as there are no more than a period of them. -/
theorem nodup_tickets (n : Nat) :
    ((List.range n).map (d.ticket first x)).Nodup ↔ n ≤ period x := by
  rw [List.nodup_map_iff_inj_on List.nodup_range]
  constructor
  · intro hinj
    by_contra hlt
    have hback : d.ticket first x 0 = d.ticket first x (period x) :=
      (d.ticket_eq_iff first x _ _).mpr (by rw [Nat.zero_mod, Nat.mod_self])
    have hpos := period_pos x
    have := hinj 0 (List.mem_range.mpr (by omega)) (period x) (List.mem_range.mpr (by omega)) hback
    omega
  · intro hn j hj k hk h
    have hmod := (d.ticket_eq_iff first x j k).mp h
    rwa [Nat.mod_eq_of_lt ((List.mem_range.mp hj).trans_le hn),
      Nat.mod_eq_of_lt ((List.mem_range.mp hk).trans_le hn)] at hmod

/-- A step that is odd passes through every number of the cell. -/
theorem period_of_odd (h : Odd x.toNat) : period x = 2 ^ w := by
  rw [period, ((Nat.coprime_two_left.mpr h).pow_left w).gcd_eq_one, Nat.div_one]

end Bits

variable {α : Type} [Codec α]

/-- Fetches of one operand, as threads make them: each program is the orderings it fetches with. -/
def draws (d : Direction) (v : α) (programs : List (List UpdateOrdering)) :
    List (List (Fetch α)) :=
  programs.map (List.map (Fetch.named d.op v))

/-- Fetches of one operand in a row give back the tickets, one by one.  The induction is on the
fetches, for any value they start from: after the first one the tickets are those of what it
leaves. -/
theorem encode_row (d : Direction) (v : α) (orderings : List UpdateOrdering) (first : α) :
    (Fetched.row first (orderings.map (Fetch.named d.op v))).map
        (fun c => ((Codec.encode c.previous).toNat : Int)) =
      (List.range orderings.length).map (d.ticket (Codec.encode first) (Codec.encode v)) := by
  induction orderings generalizing first with
  | nil => rfl
  | cons o rest ih =>
    rw [List.map_cons, Fetched.row, List.map_cons, ih, List.length_cons, List.range_succ_eq_map,
      List.map_cons, List.map_map, ticket_zero, Fetch.encode_result]
    congr 1
    exact List.map_congr_left fun k _ => ticket_apply d (Codec.encode first) (Codec.encode v) k

/-- Values are all different as long as the tickets are that they stand for. -/
theorem nodup_of_tickets {d : Direction} {values : List α} {first x : BitVec (Codec.width α)}
    (h : values.map (fun v => ((Codec.encode v).toNat : Int)) =
      (List.range values.length).map (d.ticket first x)) :
    values.Nodup ↔ values.length ≤ period x := by
  have hinj : Function.Injective fun v : α => ((Codec.encode v).toNat : Int) :=
    fun a b hab => Codec.encode_inj.mp (BitVec.eq_of_toNat_eq (Int.natCast_inj.mp hab))
  rw [← List.nodup_map_iff hinj, h, nodup_tickets]

end Direction

namespace Machine

variable {α : Type} [Codec α]

/-- **Fetches hand out tickets.** Threads add one operand `v` to a storage, or subtract it, any
number of times.  Whatever the schedule, what their calls give back, in the order in which they
end, are as they are stored the first value and its successive multiples of `v`, reduced modulo two
to the width; there is one for each call once all threads have finished.  No two are the same
exactly as long as there are no more than two to the width, divided by what that and `v` have in
common; where `v` is odd that is every number of the cell. -/
theorem fetches_hand_out_tickets (d : Direction) (s : Storage α) (v : α)
    (programs : List (List UpdateOrdering)) (schedule : List Nat) :
    ∃ (m : Machine α) (values : List α),
      (init s ((d.draws v programs).map (List.map Fetch.toCall))).run schedule = .ok m ∧
      ((init s ((d.draws v programs).map (List.map Fetch.toCall))).history schedule).map Prod.snd =
        values.map (fun x => .reply (.value x)) ∧
      m.returns.Perm (values.map fun x => .reply (.value x)) ∧
      (m.finished = true → values.length = programs.flatten.length) ∧
      values.map (fun x => ((Codec.encode x).toNat : Int)) =
        (List.range values.length).map
          (d.ticket (Codec.encode s.dispose) (Codec.encode v)) ∧
      (values.Nodup ↔ values.length ≤ Direction.period (Codec.encode v)) ∧
      (Odd (Codec.encode v).toNat → values.length ≤ 2 ^ Codec.width α → values.Nodup) := by
  obtain ⟨m, fetches, left, hrun, hhistory, hreturns, hperm, hleft⟩ :=
    run_fetches s (d.draws v programs) schedule
  -- the fetches made are draws, since all are
  have hdraws : (d.draws v programs).flatten = programs.flatten.map (Fetch.named d.op v) :=
    List.map_flatten.symm
  rw [hdraws] at hperm
  obtain ⟨all, hall, hmap⟩ := perm_of_map hperm
  obtain ⟨orderings, rest, rfl, rfl, rfl⟩ := List.map_eq_append_iff.mp hmap
  have hencode := d.encode_row v orderings s.dispose
  generalize Fetched.row s.dispose (orderings.map (Fetch.named d.op v)) = made at *
  have hlength : (made.map Fetched.previous).length = orderings.length := by
    simpa using congrArg List.length hencode
  have htickets : (made.map Fetched.previous).map (fun x => ((Codec.encode x).toNat : Int)) =
      (List.range (made.map Fetched.previous).length).map
        (d.ticket (Codec.encode s.dispose) (Codec.encode v)) := by
    rw [hlength, ← hencode, List.map_map]
    rfl
  have hnodup := Direction.nodup_of_tickets htickets
  refine ⟨m, made.map Fetched.previous, hrun, ?_, ?_, ?_, htickets, hnodup, ?_⟩
  · rw [hhistory, List.map_map, List.map_map]
    rfl
  · rw [List.map_map]
    exact hreturns
  · intro hm
    rw [List.map_eq_nil_iff.mp (hleft hm), List.append_nil] at hall
    rw [hlength, hall.length_eq]
  · intro hodd hle
    exact hnodup.mpr (by rwa [Direction.period_of_odd _ hodd])

/-- Five times 64 is taken from a byte that holds one, and four times lead back to it.  A step of
three, which is odd, brings a signed byte a new number each time. -/
theorem fetches_hand_out_tickets_down :
    (∃ m, (init (.holding (⟨1⟩ : MachineInt .unsigned 8))
        ((Direction.down.draws ⟨64⟩ [[.relaxed, .acqRel, .relaxed], [.release, .seqCst]]).map
          (List.map Fetch.toCall))).run [0, 1, 1, 0, 0] = .ok m ∧ m.finished = true ∧
      ∃ values : List (MachineInt .unsigned 8),
        m.returns.Perm (values.map fun x => .reply (.value x)) ∧
        values.map (fun x => (x.bits.toNat : Int)) = [1, 193, 129, 65, 1] ∧ ¬ values.Nodup) ∧
    (∃ m, (init (.holding (⟨-126⟩ : MachineInt .signed 8))
        ((Direction.down.draws ⟨3⟩ [[.relaxed], [.release, .acquire]]).map
          (List.map Fetch.toCall))).run [1, 0, 1] = .ok m ∧ m.finished = true ∧
      ∃ values : List (MachineInt .signed 8),
        m.returns.Perm (values.map fun x => .reply (.value x)) ∧
        values.map (fun x => (x.bits.toNat : Int)) = [130, 127, 124] ∧ values.Nodup) := by
  constructor
  · obtain ⟨m, values, hrun, -, hreturns, hlength, htickets, hnodup, -⟩ :=
      fetches_hand_out_tickets .down (.holding (⟨1⟩ : MachineInt .unsigned 8)) ⟨64⟩
        [[.relaxed, .acqRel, .relaxed], [.release, .seqCst]] [0, 1, 1, 0, 0]
    have hm : m.finished = true := finished_of_run hrun rfl
    have hfive : values.length = 5 := hlength hm
    rw [hfive] at htickets hnodup
    exact ⟨m, hrun, hm, values, hreturns, htickets, by rw [hnodup]; decide⟩
  · obtain ⟨m, values, hrun, -, hreturns, hlength, htickets, -, hodd⟩ :=
      fetches_hand_out_tickets .down (.holding (⟨-126⟩ : MachineInt .signed 8)) ⟨3⟩
        [[.relaxed], [.release, .acquire]] [1, 0, 1]
    have hm : m.finished = true := finished_of_run hrun rfl
    have hthree : values.length = 3 := hlength hm
    rw [hthree] at htickets hodd
    exact ⟨m, hrun, hm, values, hreturns, htickets, hodd (by decide) (by decide)⟩

end Machine

end OrderedAtomics
