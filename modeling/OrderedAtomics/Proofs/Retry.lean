import OrderedAtomics.Proofs.Register

/-
  A retry loop beside a scripted writer, call by call.  A round goes on only where the function has
  proposed a value and the other writer has stored one that differs from what the function saw
  (`FollowsScript.again`); then the next call sees just that value.  In every other case the loop
  ends with the round (`FollowsScript.ends`), and only a proposal that nobody has disturbed is ever
  stored.  `FollowsScript` says all this of the values seen, the ending and the value left; the loop
  on a register follows its script by induction on it (`retryFrom_follows`), and so does the loop on
  storage.
-/
namespace OrderedAtomics

/-! ## The calls of a loop -/

/-- A call of the function: the value it saw, what another writer stored meanwhile, and what the
function did. -/
structure Visit (α : Type) where
  seen : α
  intrusion : Option α
  reaction : Reaction α

namespace Visit

variable {α : Type} (c : Visit α)

/-- The stored value is still the one that was seen: nobody has stored anything, or just that
value. -/
def Undisturbed : Prop := c.intrusion = none ∨ c.intrusion = some c.seen

/-- The value that is stored when the function is done. -/
def met : α := c.intrusion.getD c.seen

theorem met_eq_seen_iff : c.met = c.seen ↔ c.Undisturbed := by
  unfold met Undisturbed
  cases c.intrusion with
  | none => simp
  | some w => simp

/-- How a loop ends with a call, and the value it leaves. -/
inductive Ends : Ending α → α → Prop
  | panics (h : c.reaction = .panics) : Ends .panicked c.met
  | declines (h : c.reaction = .returns none) : Ends (.declined c.seen) c.met
  | lands {next : α} (h : c.reaction = .returns (some next)) (hu : c.Undisturbed) :
      Ends (.landed c.seen) next

namespace Ends

variable {c} {ending : Ending α} {value : α}

theorem landed_iff (h : c.Ends ending value) : (∃ p, ending = .landed p) ↔
    (∃ next, c.reaction = .returns (some next)) ∧ c.Undisturbed := by
  cases h with
  | panics hr => simp [hr]
  | declines hr => simp [hr]
  | lands hr hu => simp [hr, hu]

theorem landed {next : α} (h : c.Ends ending value) (hr : c.reaction = .returns (some next)) :
    ending = .landed c.seen ∧ value = next := by
  cases h with
  | panics hr' => cases hr'.symm.trans hr
  | declines hr' => cases hr'.symm.trans hr
  | lands hr' _ =>
    cases hr'.symm.trans hr
    exact ⟨rfl, rfl⟩

theorem declined_iff (h : c.Ends ending value) (current : α) :
    ending = .declined current ↔ c.reaction = .returns none ∧ c.seen = current := by
  cases h with
  | panics hr => simp [hr]
  | declines hr => simp [hr]
  | lands hr hu => simp [hr]

theorem panicked_iff (h : c.Ends ending value) : ending = .panicked ↔ c.reaction = .panics := by
  cases h with
  | panics hr => simp [hr]
  | declines hr => simp [hr]
  | lands hr hu => simp [hr]

theorem kept (h : c.Ends ending value) (hnot : ∀ p, ending ≠ .landed p) : value = c.met := by
  cases h with
  | panics hr => rfl
  | declines hr => rfl
  | lands hr hu => exact absurd rfl (hnot c.seen)

end Ends

end Visit

/-- The call of a turn that sees `v`. -/
def Turn.visit {α : Type} (turn : Turn α) (v : α) : Visit α := ⟨v, turn.intrusion, turn.react v⟩

/-- What stands for the turns past the end of a script: nobody stores anything and the function
declines. -/
def Turn.idle {α : Type} : Turn α := ⟨none, fun _ => .returns none⟩

/-- The calls of a function that saw these values. -/
def visits {α : Type} : List (Turn α) → List α → List (Visit α)
  | _, [] => []
  | script, v :: seen => (script.headD .idle).visit v :: visits script.tail seen

/-! ## What the script decides -/

/-- What a retry loop that begins on `v` comes to, read off its script. -/
structure FollowsScript {α : Type} (script : List (Turn α)) (v : α) (r : Settlement α) : Prop where
  /-- The first value seen is the one that is stored. -/
  first : r.seen.head? = some v
  /-- Each further value is what another writer stored during the call before, which saw another
  one and proposed a value in vain. -/
  later : ∀ i v w, r.seen[i]? = some v → r.seen[i + 1]? = some w →
    w ≠ v ∧ ∃ turn next, script[i]? = some turn ∧ turn.intrusion = some w ∧
      turn.react v = .returns (some next)
  /-- The function is called once for each turn, and once more at most. -/
  length : r.seen.length ≤ script.length + 1
  /-- The loop lands exactly when some call proposes a value and is undisturbed. -/
  landed_iff : (∃ p, r.ending = .landed p) ↔
    ∃ c ∈ visits script r.seen, (∃ next, c.reaction = .returns (some next)) ∧ c.Undisturbed
  /-- Then the loop gives back the last value seen and leaves what that call proposed. -/
  landed : ∀ c ∈ visits script r.seen, ∀ next, c.reaction = .returns (some next) →
    c.Undisturbed →
      r.ending = .landed c.seen ∧ r.seen.getLast? = some c.seen ∧ r.value = next
  /-- It gives up with a value exactly when the last call declines and saw this value. -/
  declined_iff : ∀ current, r.ending = .declined current ↔
    ∃ c, (visits script r.seen).getLast? = some c ∧ c.reaction = .returns none ∧
      c.seen = current
  /-- It fails exactly when the last call does. -/
  panicked_iff : r.ending = .panicked ↔
    ∃ c, (visits script r.seen).getLast? = some c ∧ c.reaction = .panics
  /-- Unless it lands it leaves what another writer stored last, or the first value. -/
  kept : (∀ p, r.ending ≠ .landed p) →
    r.value = ((visits script r.seen).filterMap Visit.intrusion).getLast?.getD v

namespace FollowsScript

variable {α : Type} {script : List (Turn α)} {v : α}

/-- A loop that ends with its first call. -/
theorem ends {ending : Ending α} {value : α}
    (h : ((script.headD .idle).visit v).Ends ending value) :
    FollowsScript script v ⟨ending, [v], value⟩ := by
  have hvisits : visits script [v] = [(script.headD .idle).visit v] := rfl
  have hseen : ((script.headD .idle).visit v).seen = v := rfl
  generalize (script.headD .idle).visit v = c at h hvisits hseen
  exact {
    first := rfl
    later := by
      intro i _ _ _ hsecond
      simp at hsecond
    length := Nat.le_add_left 1 _
    landed_iff := by
      rw [hvisits]
      simpa using h.landed_iff
    landed := by
      rw [hvisits]
      intro d hd next hnext _
      cases List.mem_singleton.mp hd
      obtain ⟨hending, hvalue⟩ := h.landed hnext
      exact ⟨hending, congrArg some hseen.symm, hvalue⟩
    declined_iff := by
      rw [hvisits]
      simpa using h.declined_iff
    panicked_iff := by
      rw [hvisits]
      simpa using h.panicked_iff
    kept := by
      intro hnot
      rw [hvisits, h.kept hnot, Visit.met, hseen]
      cases hc : c.intrusion <;> simp [hc] }

variable {turn : Turn α} {next w : α} {r : Settlement α}

/-- A loop whose first call proposes a value in vain goes on with the value that was stored
meanwhile. -/
theorem again (hreact : turn.react v = .returns (some next)) (hw : turn.intrusion = some w)
    (hne : w ≠ v) (h : FollowsScript script w r) :
    FollowsScript (turn :: script) v { r with seen := v :: r.seen } := by
  have hvisits : visits (turn :: script) (v :: r.seen) = turn.visit v :: visits script r.seen := rfl
  have hdisturbed : ¬ (turn.visit v).Undisturbed := by
    unfold Visit.Undisturbed Turn.visit
    rw [hw]
    simp [hne]
  obtain ⟨seen, hseen⟩ : ∃ seen, r.seen = w :: seen := List.head?_eq_some_iff.mp h.first
  have hlast : (turn.visit v :: visits script r.seen).getLast? =
      (visits script r.seen).getLast? := by
    rw [hseen, visits, List.getLast?_cons_cons]
  exact {
    first := rfl
    later := by
      intro i v' w' hv' hw'
      cases i with
      | zero =>
        have hfirst : r.seen[0]? = some w := by rw [hseen]; rfl
        cases hv'
        cases hfirst.symm.trans hw'
        exact ⟨hne, turn, next, rfl, hw, hreact⟩
      | succ i => exact h.later i v' w' hv' hw'
    length := Nat.succ_le_succ h.length
    landed_iff := by
      rw [hvisits]
      simp only [List.mem_cons, exists_eq_or_imp, hdisturbed, and_false, false_or]
      exact h.landed_iff
    landed := by
      rw [hvisits]
      intro c hc next hnext hu
      rcases List.mem_cons.mp hc with rfl | hc
      · exact absurd hu hdisturbed
      · obtain ⟨hending, hgiven, hvalue⟩ := h.landed c hc next hnext hu
        refine ⟨hending, ?_, hvalue⟩
        dsimp only
        rw [← hgiven, hseen, List.getLast?_cons_cons]
    declined_iff := by
      rw [hvisits, hlast]
      exact h.declined_iff
    panicked_iff := by
      rw [hvisits, hlast]
      exact h.panicked_iff
    kept := by
      intro hnot
      have hkept := h.kept hnot
      have hintrusion : (turn.visit v).intrusion = some w := hw
      rw [hvisits, List.filterMap_cons_some hintrusion, List.getLast?_cons, Option.getD_some]
      exact hkept }

end FollowsScript

/-! ## The loop -/

namespace Register

variable {α : Type} [Codec α]

/-- A retry loop on a register follows its script.  The induction is on the script, for any value
that is stored: a round that goes on has read the value that is stored then. -/
theorem retryFrom_follows (script : List (Turn α)) (v : α) :
    FollowsScript script v (retryFrom script v v) := by
  induction script generalizing v with
  | nil => exact .ends (.declines rfl)
  | cons turn turns ih =>
    have hmet : (turn.visit v).met = turn.intrusion.getD v := rfl
    unfold retryFrom
    dsimp only
    rw [← hmet]
    cases hreact : turn.react v with
    | panics => exact .ends (.panics hreact)
    | returns next? =>
      cases next? with
      | none => exact .ends (.declines hreact)
      | some next =>
        dsimp only
        by_cases hv : (turn.visit v).met = v
        · rw [if_pos hv, hv]
          exact .ends (.lands hreact ((turn.visit v).met_eq_seen_iff.mp hv))
        · rw [if_neg hv]
          -- another value is stored only if the other writer has stored it
          cases hw : turn.intrusion with
          | none => simp [hmet, hw] at hv
          | some w =>
            rw [hmet, hw, Option.getD_some] at hv ⊢
            exact .again hreact hw hv (ih w)

end Register

namespace Storage

variable {α : Type} [Codec α]

/-- **A retry loop follows its script.** Beside a writer who may store a value during each call, and
for a function that in each call fails, declines or proposes a value, the loop never faults.  What
the function sees, how the loop ends and what it leaves stored are what the script decides. -/
theorem retry_follows_script (s : Storage α) (o : ExchangeOrdering) (script : List (Turn α)) :
    ∃ r, s.retry o script = .ok ⟨r.ending, r.seen, holding r.value⟩ ∧
      FollowsScript script s.dispose r :=
  ⟨_, retry_eq s o script, Register.retryFrom_follows script s.dispose⟩

end Storage

end OrderedAtomics
