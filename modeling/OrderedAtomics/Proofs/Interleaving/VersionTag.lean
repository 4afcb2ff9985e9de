import OrderedAtomics.Proofs.Interleaving.Moves
import OrderedAtomics.Value.DoubleWord
import Mathlib

/-
  A version tag beside a value lets a compare-exchange notice every update in between.  Each
  function moves the tag on by one, so the tag has advanced by the number of updates that landed,
  modulo two to its width (`Advances`, kept by every move).  The stored pair can thus be the one
  that was read only if none has landed, or as many as bring the tag round
  (`Advances.dispose_eq_iff`).  The pairs that threads get hold of are whole ones: the first one, or
  one that some update has put there (`run_mem_seen`).
-/
namespace OrderedAtomics

namespace DoubleWord

/-- One of the two words. -/
inductive Half where
  | high
  | low

/-- The word in one of the halves. -/
def half : Half → DoubleWord → BitVec 64
  | .high, d => d.high
  | .low, d => d.low

end DoubleWord

/-- A retry loop whose function moves a tag on by one whenever it proposes a value. -/
def Call.Bumps {α : Type} {w : Nat} (tag : α → BitVec w) : Call α → Prop
  | .update f _ => ∀ v next, f v = some next → tag next = tag v + 1
  | .operate _ => False

/-- The value that a finished retry loop gave back. -/
def Return.value? {α : Type} : Return α → Option α
  | .updated (.ok v) => some v
  | .updated (.error v) => some v
  | .reply _ => none

/-- The value a retry loop has loaded or observed, and that its function is given. -/
def Place.held {α : Type} : Place α → List α
  | .start => []
  | .read current => [current]
  | .computed current _ => [current]

/-- The values that the retry loops of a thread have got hold of. -/
def Thread.seen {α : Type} (t : Thread α) : List α :=
  t.place.held ++ t.returned.filterMap Return.value?

namespace Machine

variable {α : Type} [Codec α] {w : Nat} {tag : α → BitVec w} {m m' m'' : Machine α} {i : Nat}

/-! ## How far the tag has advanced -/

/-- The number of updates that have landed. -/
def landed (m : Machine α) : Nat := m.returns.countP Return.succeeded

theorem landed_set {t : Thread α} (ht : m.threads[i]? = some t) (s : Storage α) {t' : Thread α}
    {k : Nat} (hk : t'.returned.countP Return.succeeded = t.returned.countP Return.succeeded + k) :
    landed ⟨s, m.threads.set i t'⟩ = m.landed + k := by
  obtain ⟨others, hold, hnew⟩ := flatMap_set_perm Thread.returned ht
  show ((m.threads.set i t').flatMap Thread.returned).countP _ = _
  rw [(hnew t').countP_eq, List.countP_append, hk]
  unfold landed returns
  rw [hold.countP_eq, List.countP_append]
  omega

/-- From one machine to a later one the tag moves on by the number of updates that land in between;
without any, the storage stays. -/
def Advances (tag : α → BitVec w) (m m' : Machine α) : Prop :=
  ∃ n, m'.landed = m.landed + n ∧
    tag m'.storage.dispose = tag m.storage.dispose + BitVec.ofNat w n ∧
    (n = 0 → m'.storage = m.storage)

namespace Advances

theorem of_same (hlanded : m'.landed = m.landed) (hstorage : m'.storage = m.storage) :
    Advances tag m m' := by
  refine ⟨0, hlanded, ?_, fun _ => hstorage⟩
  rw [hstorage]
  exact (BitVec.add_zero _).symm

theorem trans (h : Advances tag m m') (h' : Advances tag m' m'') : Advances tag m m'' := by
  obtain ⟨n, hlanded, htag, hstorage⟩ := h
  obtain ⟨n', hlanded', htag', hstorage'⟩ := h'
  refine ⟨n + n', ?_, ?_, ?_⟩
  · rw [hlanded', hlanded, Nat.add_assoc]
  · rw [htag', htag, BitVec.ofNat_add, BitVec.add_assoc]
  · intro h
    rw [hstorage' (by omega), hstorage (by omega)]

theorem landed_le (h : Advances tag m m') : m.landed ≤ m'.landed := by
  obtain ⟨n, hlanded, -⟩ := h
  omega

/-- The value is back where it was only if no update has landed, or enough to bring the tag round.
-/
theorem dispose_eq_iff (h : Advances tag m m') (hlt : m'.landed < m.landed + 2 ^ w) :
    m'.storage.dispose = m.storage.dispose ↔ m'.landed = m.landed := by
  obtain ⟨n, hlanded, htag, hstorage⟩ := h
  constructor
  · intro e
    rw [e] at htag
    -- The tag has come back to where it was, and so few updates cannot have brought it round.
    have hzero : BitVec.ofNat w n = 0#w := BitVec.add_right_eq_self.mp htag.symm
    have hmod : n % 2 ^ w = 0 := by
      have := congrArg BitVec.toNat hzero
      simpa using this
    rw [Nat.mod_eq_of_lt (by omega)] at hmod
    omega
  · intro e
    rw [hstorage (by omega)]

end Advances

theorem Moves.advances (h : m.Moves i m') (hsound : m.Sound) (hbumps : m.Issues (Call.Bumps tag)) :
    Advances tag m m' := by
  cases h with
  | idle => exact .of_same rfl rfl
  | operates ht => exact (hbumps _ (List.mem_of_getElem? ht) _ List.mem_cons_self).elim
  | loads ht | proposes ht | misses ht => exact .of_same (landed_set ht _ (k := 0) rfl) rfl
  | declines ht => exact .of_same (landed_set ht _ (k := 0) (List.countP_cons_of_neg nofun)) rfl
  | lands ht hv =>
    rename_i f o rest current next returned
    have hf : f current = some next := hsound _ (List.mem_of_getElem? ht)
    have htag := hbumps _ (List.mem_of_getElem? ht) _ List.mem_cons_self current next hf
    refine ⟨1, landed_set ht _ (List.countP_cons_of_pos rfl), ?_, nofun⟩
    rw [Storage.dispose_holding, hv, htag]
    rfl

/-- Threads that only move the tag on keep doing so. -/
theorem run_kept (hsound : m.Sound) (hbumps : m.Issues (Call.Bumps tag)) {schedule : List Nat}
    (hrun : m.run schedule = .ok m') :
    m'.Sound ∧ m'.Issues (Call.Bumps tag) ∧ Advances tag m m' := by
  refine run_induction (P := fun m' => m'.Sound ∧ m'.Issues (Call.Bumps tag) ∧ Advances tag m m')
    ?_ ⟨hsound, hbumps, .of_same rfl rfl⟩ hrun
  rintro m₁ m₂ i ⟨hsound₁, hbumps₁, hadvances⟩ hstep
  have hmoves := moves_of_step hstep
  exact ⟨step_sound hsound₁ hstep, hmoves.issues hbumps₁,
    hadvances.trans (hmoves.advances hsound₁ hbumps₁)⟩

/-! ## The values that threads see -/

/-- The values that threads have got hold of, and the one that is stored. -/
def seen (m : Machine α) : List α := m.storage.dispose :: m.threads.flatMap Thread.seen

/-- The next step of thread `i` puts `v` into the storage, which its function made of the value that
is there. -/
def Puts (m : Machine α) (i : Nat) (v : α) : Prop :=
  ∃ f o rest returned,
    m.threads[i]? = some ⟨.update f o :: rest, .computed m.storage.dispose v, returned⟩ ∧
      f m.storage.dispose = some v

/-- Some step of a schedule puts `v` into the storage. -/
def Lands (m : Machine α) (schedule : List Nat) (v : α) : Prop :=
  ∃ before i m₁, before ++ [i] <+: schedule ∧ m.run before = .ok m₁ ∧ m₁.Puts i v

theorem Lands.append {schedule : List Nat} {v : α} (h : m.Lands schedule v) (after : List Nat) :
    m.Lands (schedule ++ after) v := by
  obtain ⟨before, i, m₁, hprefix, hrun, hputs⟩ := h
  exact ⟨before, i, m₁, hprefix.trans (List.prefix_append _ _), hrun, hputs⟩

/-- After one thread has changed, nothing is seen but the stored value and what was seen before, if
what the thread sees is. -/
theorem mem_seen_set {t t' : Thread α} (ht : m.threads[i]? = some t)
    {s : Storage α} {v : α} (h : v ∈ seen ⟨s, m.threads.set i t'⟩)
    (hseen : ∀ v ∈ t'.seen, v = m.storage.dispose ∨ v ∈ t.seen) : v = s.dispose ∨ v ∈ m.seen := by
  have hthread : ∀ t ∈ m.threads, ∀ v ∈ t.seen, v ∈ m.seen := fun t ht v hv =>
    List.mem_cons_of_mem _ (List.mem_flatMap.mpr ⟨t, ht, hv⟩)
  rcases List.mem_cons.mp h with h | h
  · exact .inl h
  · right
    obtain ⟨u, hu, hv⟩ := List.mem_flatMap.mp h
    rcases List.mem_or_eq_of_mem_set hu with hu | rfl
    · exact hthread u hu v hv
    · rcases hseen v hv with rfl | hv
      · exact List.mem_cons_self
      · exact hthread t (List.mem_of_getElem? ht) v hv

theorem mem_seen_of_set {t t' : Thread α} (ht : m.threads[i]? = some t) {v : α}
    (h : v ∈ seen ⟨m.storage, m.threads.set i t'⟩)
    (hseen : ∀ v ∈ t'.seen, v = m.storage.dispose ∨ v ∈ t.seen) : v ∈ m.seen := by
  rcases mem_seen_set ht h hseen with rfl | h
  · exact List.mem_cons_self
  · exact h

/-- A step shows no value that was not seen before, unless it has put it there. -/
theorem Moves.mem_seen (h : m.Moves i m') (hsound : m.Sound) (hbumps : m.Issues (Call.Bumps tag))
    {v : α} (hv : v ∈ m'.seen) : v ∈ m.seen ∨ m.Puts i v := by
  cases h with
  | idle => exact .inl hv
  | operates ht => exact (hbumps _ (List.mem_of_getElem? ht) _ List.mem_cons_self).elim
  | loads ht => exact .inl (mem_seen_of_set ht hv fun v hv => List.mem_cons.mp hv)
  | misses ht hne =>
    refine .inl (mem_seen_of_set ht hv fun v hv => ?_)
    exact (List.mem_cons.mp hv).imp_right (List.mem_cons_of_mem _)
  | declines ht hf | proposes ht hf => exact .inl (mem_seen_of_set ht hv fun v hv => .inr hv)
  | lands ht hcurrent =>
    subst hcurrent
    rcases mem_seen_set ht hv fun v hv => .inr hv with rfl | h
    · right
      rw [Storage.dispose_holding]
      exact ⟨_, _, _, _, ht, hsound _ (List.mem_of_getElem? ht)⟩
    · exact .inl h

/-- What is seen after a run was seen before it, or has been put there by some step. -/
theorem run_mem_seen (hsound : m.Sound) (hbumps : m.Issues (Call.Bumps tag))
    {schedule : List Nat} (hrun : m.run schedule = .ok m') {v : α} (hv : v ∈ m'.seen) :
    v ∈ m.seen ∨ m.Lands schedule v := by
  induction schedule using List.reverseRecOn generalizing m' with
  | nil =>
    cases hrun
    exact .inl hv
  | append_singleton schedule i ih =>
    obtain ⟨m₁, hbefore, hstep⟩ := run_concat hrun
    obtain ⟨hsound₁, hbumps₁, -⟩ := run_kept hsound hbumps hbefore
    rcases (moves_of_step hstep).mem_seen hsound₁ hbumps₁ hv with h | h
    · exact (ih hbefore h).imp_right fun h => h.append [i]
    · exact .inr ⟨schedule, i, m₁, List.prefix_refl _, hbefore, h⟩

theorem seen_init (s : Storage α) (programs : List (List (Call α))) :
    (init s programs).seen = [s.dispose] := by
  unfold seen init
  rw [List.flatMap_map]
  exact congrArg _ (List.flatMap_eq_nil_iff.mpr fun _ _ => rfl)

/-- **A version tag shows every change.** Threads run retry loops on one storage of two words, and
every function moves the tag, which is one of the words, on by one, whatever it makes of the other.
Under any schedule, what a loop has loaded, or observed in an exchange that failed, is the first
pair or one that an update has put there as a whole.  And whenever a thread is about to exchange, it
has read the pair it expects in its last step but one; if fewer than 2⁶⁴ updates have landed since,
the exchange happens if and only if none has. -/
theorem version_tag_notices_updates (half : DoubleWord.Half) (s : Storage DoubleWord)
    (programs : List (List (Call DoubleWord)))
    (h : ∀ call ∈ programs.flatten, call.Bumps (DoubleWord.half half)) (schedule : List Nat) :
    ∃ m, (init s programs).run schedule = .ok m ∧
      (∀ v ∈ m.seen, v = s.dispose ∨ (init s programs).Lands schedule v) ∧
      ∀ i f o rest current next returned,
        m.threads[i]? = some ⟨.update f o :: rest, .computed current next, returned⟩ →
        ∃ before between m₁, schedule = before ++ i :: between ∧ between.count i = 1 ∧
          (init s programs).run (before ++ [i]) = .ok m₁ ∧ m₁.run between = .ok m ∧
          m₁.threads[i]? = some ⟨.update f o :: rest, .read current, returned⟩ ∧
          m₁.storage.dispose = current ∧ m₁.landed ≤ m.landed ∧
          (m.landed < m₁.landed + 2 ^ 64 → m.step i = .ok
            (if m.landed = m₁.landed then
              ⟨.holding next, m.threads.set i ⟨rest, .start, .updated (.ok current) :: returned⟩⟩
            else
              ⟨m.storage,
                m.threads.set i ⟨.update f o :: rest, .read m.storage.dispose, returned⟩⟩)) := by
  have hsound := sound_init s programs
  have hbumps := issues_init h s
  obtain ⟨m, hrun⟩ := run_ok (init s programs) schedule
  refine ⟨m, hrun, ?_, ?_⟩
  · intro v hv
    rcases run_mem_seen hsound hbumps hrun hv with h | h
    · rw [seen_init] at h
      exact .inl (List.mem_singleton.mp h)
    · exact .inr h
  · intro i f o rest current next returned ht
    obtain ⟨before, between, m₁, hschedule, hcount, hread, hbetween, ht₁, hcurrent⟩ :=
      last_computed (atStart_init s programs) hrun ht
    obtain ⟨hsound₁, hbumps₁, -⟩ := run_kept hsound hbumps hread
    obtain ⟨-, -, hadvances⟩ := run_kept hsound₁ hbumps₁ hbetween
    refine ⟨before, between, m₁, hschedule, hcount, hread, hbetween, ht₁, hcurrent,
      hadvances.landed_le, fun hlt => ?_⟩
    have hiff := hadvances.dispose_eq_iff hlt
    rw [hcurrent] at hiff
    by_cases hnone : m.landed = m₁.landed
    · rw [if_pos hnone]
      exact step_eq ht (Thread.step_land _ _ _ _ (hiff.mpr hnone))
    · rw [if_neg hnone]
      exact step_eq ht (Thread.step_miss _ _ _ _ (mt hiff.mp hnone))

/-- One thread is about to push 7, while the other puts 6 there and takes it back; the tag is the
low word. -/
def restoredPayload : List (List (Call DoubleWord)) :=
  [[.update (fun d => some ⟨7, d.low + 1⟩) ⟨.acqRel, .relaxed, by decide⟩],
    [.update (fun d => some ⟨6, d.low + 1⟩) ⟨.acqRel, .relaxed, by decide⟩,
      .update (fun d => if d.high = 6 then some ⟨5, d.low + 1⟩ else none)
        ⟨.acquire, .relaxed, by decide⟩]]

/-- The high word is what it was when the first thread read it, but its exchange fails. -/
theorem version_tag_notices_updates_restored :
    ∃ m, (init (.holding ⟨5, 0⟩) restoredPayload).run [0, 0, 1, 1, 1, 1, 1, 1] = .ok m ∧
      m.storage.dispose = ⟨5, 2⟩ ∧
      ∃ f o, m.threads[0]? = some ⟨[.update f o], .computed ⟨5, 0⟩ ⟨7, 1⟩, []⟩ ∧
        m.step 0 = .ok ⟨m.storage, m.threads.set 0 ⟨[.update f o], .read ⟨5, 2⟩, []⟩⟩ := by
  have hbumps : ∀ call ∈ restoredPayload.flatten, call.Bumps (DoubleWord.half .low) := by
    refine List.forall_mem_cons.mpr ⟨fun v next hf => ?_, List.forall_mem_cons.mpr
      ⟨fun v next hf => ?_, List.forall_mem_singleton.mpr fun v next hf => ?_⟩⟩
    · cases hf
      rfl
    · cases hf
      rfl
    · dsimp only at hf
      split at hf
      · cases hf
        rfl
      · cases hf
  obtain ⟨m, hrun, -, hattempt⟩ := version_tag_notices_updates .low (.holding ⟨5, 0⟩)
    restoredPayload hbumps [0, 0, 1, 1, 1, 1, 1, 1]
  have hm := Except.ok.inj (hrun.symm.trans rfl)
  have hthread : m.threads[0]? = some ⟨[.update (fun d => some ⟨7, d.low + 1⟩)
      ⟨.acqRel, .relaxed, by decide⟩], .computed ⟨5, 0⟩ ⟨7, 1⟩, []⟩ := by
    rw [hm]
    rfl
  have hvalue : m.storage.dispose = ⟨5, 2⟩ := by
    rw [hm]
    rfl
  have hlanded : m.landed = 2 := by
    rw [hm]
    rfl
  obtain ⟨before, between, m₁, hschedule, hcount, hread, -, -, -, -, hstep⟩ :=
    hattempt 0 _ _ _ _ _ _ hthread
  have hbefore : before = [] := by
    have hzero : before.count 0 = 0 := by
      have htwo : (before ++ 0 :: between).count 0 = 2 := by
        rw [← hschedule]
        rfl
      rw [List.count_append, List.count_cons_self, hcount] at htwo
      omega
    cases before with
    | nil => rfl
    | cons i before =>
      obtain ⟨rfl, -⟩ := List.cons.inj hschedule
      rw [List.count_cons_self] at hzero
      cases hzero
  subst hbefore
  have hnone : m₁.landed = 0 := by
    rw [Except.ok.inj (hread.symm.trans rfl)]
    rfl
  rw [hlanded, hnone] at hstep
  refine ⟨m, hrun, hvalue, _, _, hthread, ?_⟩
  rw [← hvalue]
  exact hstep (by decide)

end Machine

end OrderedAtomics
