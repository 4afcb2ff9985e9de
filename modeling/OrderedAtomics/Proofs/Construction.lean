import OrderedAtomics.Proofs.Register
import OrderedAtomics.Storage.Construction
import OrderedAtomics.Value.Adapter
import Mathlib.Data.List.DropRight

/-
  When a slot holds storage.  An action makes a value into storage (`made?`), gives up what the slot
  holds (`disposes`), works on it (`needsStorage`), or is a fence.  What each of them does to an
  empty slot and to a full one is said once, for both kinds of types (`act_made`, `act_unmade`).
  For a type whose cell needs a lock the slot therefore never fills, and for any other it is empty
  exactly if nothing was made since storage was last given up; both by induction from the last
  action.
-/
namespace OrderedAtomics

namespace Action

variable {α : Type}

/-- The value that an action makes into storage. -/
def made? : Action α → Option α
  | .step (.prepare v) => some v
  | .convert v => some v
  | @Action.initial _ inst => some inst.default
  | .step _ => none

/-- An action gives up what the slot holds. -/
def disposes : Action α → Bool
  | .step .dispose => true
  | _ => false

/-- An action works on what the slot holds. -/
def needsStorage : Action α → Bool
  | .step .dispose | .step .inspect | .step (.operate _) | .step (.update _ _) => true
  | .step (.prepare _) | .step (.fence _) | .convert _ | @Action.initial _ _ => false

theorem disposes_of_made {a : Action α} {v : α} (h : a.made? = some v) : a.disposes = false := by
  cases a with
  | step b =>
    cases b with
    | dispose => cases h
    | prepare _ | fence _ | inspect | operate _ | update _ _ => rfl
  | convert u => rfl
  | initial => rfl

theorem made_of_needsStorage {a : Action α} (h : a.needsStorage = true) : a.made? = none := by
  cases a with
  | step b =>
    cases b with
    | prepare _ => cases h
    | dispose | fence _ | inspect | operate _ | update _ _ => rfl
  | convert u => cases h
  | initial => cases h

end Action

namespace Slot

variable {α : Type} [Codec α] [Inspect α] {slot : Slot α} {a : Action α}

/-! ## One action -/

/-- All ways to make storage are one. -/
theorem act_made {v : α} (h : a.made? = some v) (slot : Slot α) :
    slot.act a = if Codec.lockFree α then (.ok (.reply .done), some (Storage.holding v))
      else (.error .notLockFree, slot) := by
  have hfill : slot.act a = slot.fill (Storage.prepare? v) := by
    cases a with
    | step b =>
      cases b with
      | prepare u =>
        cases h
        simp only [act, step]
        cases Storage.prepare? v <;> rfl
      | dispose | fence _ | inspect | operate _ | update _ _ => cases h
    | convert u =>
      cases h
      rfl
    | initial =>
      cases h
      rfl
  rw [hfill, Storage.prepare?_eq]
  split <;> rfl

/-- Without making storage, an empty slot stays empty. -/
theorem act_none (h : a.made? = none) :
    act none a = (if a.needsStorage then .error .noStorage else .ok (.reply .done), none) := by
  cases a with
  | step b =>
    cases b with
    | prepare v => cases h
    | dispose | fence _ | inspect | operate _ | update _ _ => rfl
  | convert v => cases h
  | initial => cases h

/-- Without making storage, what a slot holds is given up by nothing but `dispose`. -/
theorem act_some (s : Storage α) (h : a.made? = none) :
    (act (some s) a).2 = none ↔ a.disposes = true := by
  cases a with
  | step b =>
    cases b with
    | prepare v => cases h
    | dispose => exact ⟨fun _ => rfl, fun _ => rfl⟩
    | fence o => simp [act, step, Action.disposes]
    | inspect => simp [act, step, Action.disposes]
    | operate op =>
      simp only [act, step, Storage.perform_eq, Action.disposes]
      split <;> simp
    | update script o =>
      simp only [act, step, Storage.retry_eq, Action.disposes]
      cases (Register.retryFrom script s.dispose s.dispose).ending <;> simp
  | convert v => cases h
  | initial => cases h

/-- Without making storage, a slot is left empty if it was empty, or by `dispose`. -/
theorem act_unmade (h : a.made? = none) :
    (slot.act a).2 = none ↔ slot = none ∨ a.disposes = true := by
  cases slot with
  | none => simp [act_none h]
  | some s => simp [act_some s h]

/-! ## Runs -/

theorem after_concat (slot : Slot α) (actions : List (Action α)) (a : Action α) :
    slot.after (actions ++ [a]) = ((slot.after actions).act a).2 := by
  rw [after, List.foldl_append]
  rfl

/-- For a type whose cell needs a lock, an empty slot stays empty. -/
theorem after_of_not_lockFree (hlock : Codec.lockFree α = false) (actions : List (Action α)) :
    after none actions = none := by
  induction actions using List.reverseRecOn with
  | nil => rfl
  | append_singleton actions a ih =>
    rw [after_concat, ih]
    cases hmade : a.made? with
    | none => rw [act_none hmade]
    | some v => rw [act_made hmade, hlock, if_neg Bool.false_ne_true]

/-- For any other type, the slot is empty if nothing was made since storage was last given up. -/
theorem after_of_lockFree (hlock : Codec.lockFree α = true) (actions : List (Action α)) :
    after none actions = none ↔ ∀ a ∈ actions.rtakeWhile (!·.disposes), a.made? = none := by
  induction actions using List.reverseRecOn with
  | nil => simp [after]
  | append_singleton actions a ih =>
    rw [after_concat, List.rtakeWhile_concat]
    cases hmade : a.made? with
    | some v =>
      rw [act_made hmade, Action.disposes_of_made hmade]
      simp [hlock, hmade]
    | none =>
      rw [act_unmade hmade, ih]
      -- `dispose` cuts off all that was done before, and nothing else does
      cases a.disposes with
      | true => simp
      | false => simp [hmade, or_imp, forall_and]

/-- **Storage exists only for lock-free types.** For a type whose cell needs a lock, whatever is
done from an empty slot on leaves it empty: each way to make storage is refused, and so is all that
needs storage.  For any other type each of them succeeds on any slot and replaces what it holds, and
the slot is empty exactly if nothing was made since the start or since storage was last given up. -/
theorem storage_only_if_lock_free (actions : List (Action α)) :
    (Codec.lockFree α = false → after none actions = none ∧ ∀ a : Action α,
      (a.made?.isSome → (after none actions).act a = (.error .notLockFree, none)) ∧
      (a.needsStorage → (after none actions).act a = (.error .noStorage, none))) ∧
    (Codec.lockFree α = true →
      (∀ (slot : Slot α) (a : Action α) (v : α), a.made? = some v →
        slot.act a = (.ok (.reply .done), some (Storage.holding v))) ∧
      (after none actions = none ↔
        ∀ a ∈ actions.rtakeWhile (!·.disposes), a.made? = none)) := by
  refine ⟨fun hlock => ?_, fun hlock => ⟨?_, after_of_lockFree hlock actions⟩⟩
  · have hempty := after_of_not_lockFree hlock actions
    rw [hempty]
    refine ⟨rfl, fun a => ⟨fun hmade => ?_, fun hneeds => ?_⟩⟩
    · obtain ⟨v, hv⟩ := Option.isSome_iff_exists.mp hmade
      rw [act_made hv, hlock]
      rfl
    · rw [act_none (Action.made_of_needsStorage hneeds), if_pos hneeds]
  · intro slot a v hmade
    rw [act_made hmade, hlock]
    rfl

/-- A byte whose cell needs a lock, tried in two ways; and one whose cell needs none, made again
after it was given up. -/
theorem storage_only_if_lock_free_bytes :
    after none [.initial, .step .dispose, .convert (default : Locking)] = none ∧
    act (after none [.initial]) (.convert (default : Locking)) = (.error .notLockFree, none) ∧
    after none [.convert (default : Inverted), .step .dispose] = none ∧
    after none [.convert (default : Inverted), .step .dispose, .initial] ≠ none := by
  refine ⟨?_, ?_, ?_, ?_⟩
  · exact ((storage_only_if_lock_free _).1 rfl).1
  · exact (((storage_only_if_lock_free _).1 rfl).2 _).1 rfl
  · exact ((storage_only_if_lock_free _).2 rfl).2.mpr (by decide)
  · rw [ne_eq, ((storage_only_if_lock_free _).2 rfl).2]
    decide

end Slot

end OrderedAtomics
