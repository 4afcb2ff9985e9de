import OrderedAtomics.MemoryOrder

/-
  The pair of orderings a compare-exchange takes: one for the exchange, one for the load that
  remains when the comparison fails.  A pair is legal when the failure ordering is no stronger
  than the read half of the success ordering, which leaves nine pairs.
-/
namespace OrderedAtomics

/-- A legal pair of a success and a failure ordering. -/
structure ExchangeOrdering where
  success : UpdateOrdering
  failure : LoadOrdering
  failure_le : failure.rank ≤ success.loadHalf.rank
  deriving DecidableEq

namespace ExchangeOrdering

/-- Pairs two orderings, if the pair is legal. -/
def ofPair? (success : UpdateOrdering) (failure : LoadOrdering) : Option ExchangeOrdering :=
  if h : failure.rank ≤ success.loadHalf.rank then some ⟨success, failure, h⟩ else none

/-- Every legal pair: by failure ordering, then by success ordering, weakest first. -/
def all : List ExchangeOrdering :=
  LoadOrdering.all.flatMap fun failure =>
    UpdateOrdering.all.filterMap fun success => ofPair? success failure

/-- The name used inside exported symbols. -/
def name (o : ExchangeOrdering) : String := o.success.name ++ "_" ++ o.failure.name

/-- The name shown in diagnostics. -/
def label (o : ExchangeOrdering) : String := o.success.label ++ o.failure.label

theorem ofPair?_self (o : ExchangeOrdering) : ofPair? o.success o.failure = some o := by
  simp [ofPair?, o.failure_le]

theorem ofPair?_eq_some {success : UpdateOrdering} {failure : LoadOrdering} {o : ExchangeOrdering}
    (h : ofPair? success failure = some o) : o.success = success ∧ o.failure = failure := by
  rw [ofPair?] at h
  split at h
  · cases h
    exact ⟨rfl, rfl⟩
  · cases h

theorem mem_all (o : ExchangeOrdering) : o ∈ all := by
  simp only [all, List.mem_flatMap, List.mem_filterMap]
  exact ⟨o.failure, o.failure.mem_all, o.success, o.success.mem_all, ofPair?_self o⟩

end ExchangeOrdering

/-- Whether a compare-exchange may fail although the values are equal. -/
inductive Strength where
  /-- Fails only when the stored value differs from the expected one. -/
  | strong
  /-- May fail spuriously; meant for retry loops. -/
  | weak
  deriving DecidableEq

namespace Strength

/-- Both strengths. -/
def all : List Strength := [.strong, .weak]

/-- The name used inside exported symbols. -/
def name : Strength → String
  | .strong => "strong"
  | .weak => "weak"

/-- The name shown in diagnostics. -/
def label : Strength → String
  | .strong => "Strong"
  | .weak => "Weak"

/-- The strength with the given name. -/
def ofName? (s : String) : Option Strength := all.find? fun k => k.name == s

theorem mem_all (k : Strength) : k ∈ all := by cases k <;> decide

end Strength

end OrderedAtomics
