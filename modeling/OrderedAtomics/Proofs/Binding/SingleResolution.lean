import OrderedAtomics.Binding.Race
import OrderedAtomics.Proofs.Entries

/-
  A gate resolves once, however many threads race for it.  `Moves` says everything that one step
  can do.  Two invariants carry the rest: all callers but the initializer are at the start of a use
  (`Alone`), and the race is in one of three situations, open, running or settled, each of which
  says how many runs of the source there were and what they came to (`Situation`).  An observer
  reads the table and the mark one after the other, and both only ever get set, so that whatever
  stage it has read stays reached (`Watched`).
-/
namespace OrderedAtomics.Binding

/-! ## What can be said of a race -/

/-- The place of a stage on the way of a gate. -/
def Stage.rank : Stage → Nat
  | .uninitialized => 0
  | .initializing => 1
  | .ready => 2

/-- The runs of the source in progress at a place. -/
def CallerPlace.runs : CallerPlace → List Nat
  | .running k => [k]
  | _ => []

namespace Race

/-- Callers that will use a fresh gate so many times each, and observers. -/
def meeting (uses : List Nat) (watchers : Nat) : Race :=
  { callers := uses.map fun n => { remaining := n }
    observers := List.replicate watchers {} }

/-- The runs of the source in progress. -/
def runs (r : Race) : List Nat := r.callers.flatMap fun c => c.place.runs

/-- What all finished uses came to. -/
def results (r : Race) : List (Option Bindings) := r.callers.flatMap Caller.results

/-- How many runs of the source panicked. -/
def panics (r : Race) : Nat := r.results.countP Option.isNone

theorem mem_tables {r : Race} {t : Bindings} : t ∈ r.tables ↔ some t ∈ r.results := by
  simp only [tables, results, List.mem_flatMap, List.mem_filterMap, id_eq, exists_eq_right]

end Race

/-! ## Everything a step can do -/

/-- The observer after one more look at the gate. -/
def Observer.look (o : Observer) (g : Gate) : Observer :=
  if o.sawNoTable then ⟨false, (if g.begun then .initializing else .uninitialized) :: o.stages⟩
  else if g.table?.isSome then ⟨false, .ready :: o.stages⟩
  else ⟨true, o.stages⟩

namespace Race

/-- What one step makes of a race. -/
inductive Moves (attempts : Nat → Option Bindings) (r : Race) : Race → Prop
  /-- Nobody is there, has a use left or need not wait. -/
  | idle : Moves attempts r r
  /-- A caller finds the table. -/
  | finds {i c t} (hc : r.callers[i]? = some c) (hp : c.place = .start)
      (ht : r.gate.table? = some t) :
      Moves attempts r { r with callers := r.callers.set i (finishUse c (some t)) }
  /-- A caller is chosen to run the source. -/
  | chosen {i c} (hc : r.callers[i]? = some c) (ht : r.gate.table? = none)
      (hi : r.initializer? = none) :
      Moves attempts r
        { r with
          initializer? := some i
          callers := r.callers.set i { c with place := .chosen } }
  /-- The chosen caller sets the mark. -/
  | marks {i c} (hc : r.callers[i]? = some c) (hp : c.place = .chosen) :
      Moves attempts r
        { r with
          gate := { r.gate with begun := true }
          callers := r.callers.set i { c with place := .marked } }
  /-- It begins to run the source. -/
  | begins {i c} (hc : r.callers[i]? = some c) (hp : c.place = .marked) :
      Moves attempts r
        { r with
          calls := r.calls + 1
          callers := r.callers.set i { c with place := .running r.calls } }
  /-- The run gives a table, which all find from now on. -/
  | publishes {i c k t} (hc : r.callers[i]? = some c) (hp : c.place = .running k)
      (ht : attempts k = some t) :
      Moves attempts r
        { r with
          gate := { r.gate with table? := some t }
          initializer? := none
          callers := r.callers.set i (finishUse c (some t)) }
  /-- The run panics, and another caller may be chosen. -/
  | panics {i c k} (hc : r.callers[i]? = some c) (hp : c.place = .running k)
      (ht : attempts k = none) :
      Moves attempts r
        { r with
          initializer? := none
          callers := r.callers.set i (finishUse c none) }
  /-- An observer looks. -/
  | looks {i o} (ho : r.observers[i]? = some o) :
      Moves attempts r { r with observers := r.observers.set i (o.look r.gate) }

theorem callerStep_moves {attempts : Nat → Option Bindings} {r : Race} {i : Nat} {c : Caller}
    (hc : r.callers[i]? = some c) : Moves attempts r (r.callerStep attempts i c) := by
  unfold callerStep
  cases hp : c.place with
  | start =>
    dsimp only
    split
    · exact .idle
    · cases ht : r.gate.table? with
      | some t => exact .finds hc hp ht
      | none =>
        cases hi : r.initializer? with
        | some j => exact .idle
        | none => exact .chosen hc ht hi
  | chosen => exact .marks hc hp
  | marked => exact .begins hc hp
  | running k =>
    dsimp only
    cases ht : attempts k with
    | some t => exact .publishes hc hp ht
    | none => exact .panics hc hp ht

theorem observerStep_eq (r : Race) (i : Nat) (o : Observer) :
    r.observerStep i o = { r with observers := r.observers.set i (o.look r.gate) } := by
  unfold observerStep Observer.look
  split
  · rfl
  · split <;> rfl

theorem step_moves (attempts : Nat → Option Bindings) (r : Race) (turn : RaceTurn) :
    Moves attempts r (r.step attempts turn) := by
  cases turn with
  | caller i =>
    simp only [step]
    cases hc : r.callers[i]? with
    | none => exact .idle
    | some c => exact callerStep_moves hc
  | observer i =>
    simp only [step]
    cases ho : r.observers[i]? with
    | none => exact .idle
    | some o =>
      dsimp only
      rw [observerStep_eq]
      exact .looks ho

/-- What holds at first and is kept by every move holds after every schedule. -/
theorem run_induction {attempts : Nat → Option Bindings} {P : Race → Prop} {r : Race} (h : P r)
    (hmove : ∀ {r r'}, P r → Moves attempts r r' → P r') (schedule : List RaceTurn) :
    P (r.run attempts schedule) := by
  induction schedule generalizing r with
  | nil => exact h
  | cons turn schedule ih => exact ih (hmove h (step_moves attempts r turn))

end Race

/-! ## Who runs the source -/

namespace Race

variable {attempts : Nat → Option Bindings} {r r' : Race} {i : Nat} {c : Caller}

/-- Every caller but the initializer is at the start of a use. -/
def Alone (r : Race) : Prop :=
  ∀ j d, r.callers[j]? = some d → d.place = .start ∨ r.initializer? = some j

theorem Alone.initializer (h : r.Alone) (hc : r.callers[i]? = some c) (hp : c.place ≠ .start) :
    r.initializer? = some i :=
  (h i c hc).resolve_left hp

theorem Alone.only_initializer (h : r.Alone) (hc : r.callers[i]? = some c)
    (hp : c.place ≠ .start) (j : Nat) (hj : r.initializer? = some j) : j = i :=
  Option.some.inj (hj.symm.trans (h.initializer hc hp))

theorem Alone.moves (h : r.Alone) (hm : Moves attempts r r') : r'.Alone := by
  intro j d hd
  cases hm with
  | idle => exact h j d hd
  | finds hc hp ht =>
    rcases getElem?_set_cases hd with ⟨-, rfl⟩ | ⟨-, hd⟩
    · exact .inl rfl
    · exact h j d hd
  | chosen hc ht hi =>
    rcases getElem?_set_cases hd with ⟨rfl, -⟩ | ⟨-, hd⟩
    · exact .inr rfl
    · exact .inl ((h j d hd).resolve_right (by rw [hi]; nofun))
  | marks hc hp | begins hc hp =>
    rcases getElem?_set_cases hd with ⟨rfl, -⟩ | ⟨-, hd⟩
    · exact .inr (h.initializer hc (by rw [hp]; nofun))
    · exact h j d hd
  | publishes hc hp ht | panics hc hp ht =>
    rcases getElem?_set_cases hd with ⟨-, rfl⟩ | ⟨hne, hd⟩
    · exact .inl rfl
    · have hi := h.only_initializer hc (by rw [hp]; nofun) j
      exact .inl ((h j d hd).resolve_right fun hj => hne (hi hj))
  | looks ho => exact h j d hd

/-! ## What the runs came to -/

section Callers

-- What a race holds besides the callers plays no part in what these did.
variable {g : Gate} {initializer? : Option Nat} {calls : Nat} {observers : List Observer}

theorem Alone.runs_set (h : r.Alone) (hc : r.callers[i]? = some c)
    (hi : ∀ j, r.initializer? = some j → j = i) (d : Caller) :
    runs ⟨g, initializer?, calls, r.callers.set i d, observers⟩ = d.place.runs := by
  have hothers : ∀ j b, j ≠ i → r.callers[j]? = some b → b.place.runs = [] := by
    intro j b hne hb
    rw [(h j b hb).resolve_right fun hj => hne (hi j hj)]
    rfl
  exact flatMap_set_eq (List.getElem?_eq_some_iff.mp hc).1 hothers d

theorem Alone.runs_eq (h : r.Alone) (hc : r.callers[i]? = some c) (hp : c.place ≠ .start) :
    r.runs = c.place.runs := by
  have hset : runs ⟨r.gate, r.initializer?, r.calls, r.callers.set i c, r.observers⟩ =
      c.place.runs := h.runs_set hc (h.only_initializer hc hp) c
  rw [set_of_getElem? hc] at hset
  exact hset

theorem Alone.runs_eq_nil (h : r.Alone) (hi : r.initializer? = none) : r.runs = [] := by
  refine List.flatMap_eq_nil_iff.mpr fun c hc => ?_
  obtain ⟨i, hc⟩ := List.mem_iff_getElem?.mp hc
  rw [(h i c hc).resolve_right (by rw [hi]; nofun)]
  rfl

theorem results_place (hc : r.callers[i]? = some c) (p : CallerPlace) :
    (results ⟨g, initializer?, calls, r.callers.set i { c with place := p }, observers⟩).Perm
      r.results := by
  obtain ⟨others, h, h'⟩ := flatMap_set_perm Caller.results hc
  exact (h' _).trans h.symm

theorem results_finish (hc : r.callers[i]? = some c) (x : Option Bindings) :
    (results ⟨g, initializer?, calls, r.callers.set i (finishUse c x), observers⟩).Perm
      (x :: r.results) := by
  obtain ⟨others, h, h'⟩ := flatMap_set_perm Caller.results hc
  exact (h' _).trans (h.symm.cons x)

theorem panics_place (hc : r.callers[i]? = some c) (p : CallerPlace) :
    panics ⟨g, initializer?, calls, r.callers.set i { c with place := p }, observers⟩ =
      r.panics :=
  (results_place hc p).countP_eq _

theorem panics_finish (hc : r.callers[i]? = some c) (x : Option Bindings) :
    panics ⟨g, initializer?, calls, r.callers.set i (finishUse c x), observers⟩ =
      r.panics + if x.isNone then 1 else 0 :=
  ((results_finish hc x).countP_eq _).trans List.countP_cons

end Callers

/-- How far the race has come: the runs of the source in progress, those begun and those that
panicked. -/
inductive Situation (attempts : Nat → Option Bindings) (r : Race) : Prop
  /-- There is no table, and nobody runs the source. -/
  | idle (ht : r.gate.table? = none) (hr : r.runs = []) (hc : r.calls = r.panics)
  /-- There is no table, and someone runs the source. -/
  | busy (ht : r.gate.table? = none) (hr : r.runs = [r.panics]) (hc : r.calls = r.panics + 1)
  /-- There is a table, the one that the last run gave. -/
  | settled {t} (ht : r.gate.table? = some t) (hi : r.initializer? = none)
      (ha : attempts r.panics = some t) (hc : r.calls = r.panics + 1)

/-- While a caller is past the start of a use there is no table. -/
theorem Situation.at_place (h : Situation attempts r) (hr : r.Alone)
    (hc : r.callers[i]? = some c) (hp : c.place ≠ .start) :
    r.gate.table? = none ∧ (c.place.runs = [] ∧ r.calls = r.panics ∨
      c.place.runs = [r.panics] ∧ r.calls = r.panics + 1) := by
  rw [← hr.runs_eq hc hp]
  cases h with
  | idle ht hruns hcalls => exact ⟨ht, .inl ⟨hruns, hcalls⟩⟩
  | busy ht hruns hcalls => exact ⟨ht, .inr ⟨hruns, hcalls⟩⟩
  | settled ht hi ha hcalls =>
    have := hr.initializer hc hp
    rw [hi] at this
    cases this

theorem Situation.moves (h : Situation attempts r) (hr : r.Alone) (hm : Moves attempts r r') :
    Situation attempts r' := by
  cases hm with
  | idle => exact h
  | finds hc hp ht =>
    cases h with
    | idle ht' => rw [ht'] at ht; cases ht
    | busy ht' => rw [ht'] at ht; cases ht
    | settled ht hi ha hcalls =>
      refine .settled ht hi ?_ ?_
      · rw [panics_finish hc]
        exact ha
      · rw [panics_finish hc]
        exact hcalls
  | chosen hc ht hi =>
    have hnobody := hr.runs_eq_nil hi
    cases h with
    | idle _ hruns hcalls =>
      refine .idle ht ?_ ?_
      · exact hr.runs_set hc (by rw [hi]; nofun) _
      · rw [panics_place hc]
        exact hcalls
    | busy _ hruns => rw [hnobody] at hruns; cases hruns
    | settled ht' => rw [ht] at ht'; cases ht'
  | marks hc hp =>
    obtain ⟨ht, ⟨-, hcalls⟩ | ⟨hruns, -⟩⟩ := h.at_place hr hc (by rw [hp]; nofun)
    · refine .idle ht ?_ ?_
      · exact hr.runs_set hc (hr.only_initializer hc (by rw [hp]; nofun)) _
      · rw [panics_place hc]
        exact hcalls
    · rw [hp] at hruns
      cases hruns
  | begins hc hp =>
    obtain ⟨ht, ⟨-, hcalls⟩ | ⟨hruns, -⟩⟩ := h.at_place hr hc (by rw [hp]; nofun)
    · refine .busy ht ?_ ?_
      · rw [hr.runs_set hc (hr.only_initializer hc (by rw [hp]; nofun)), panics_place hc, hcalls]
        rfl
      · rw [panics_place hc]
        exact congrArg (· + 1) hcalls
    · rw [hp] at hruns
      cases hruns
  | publishes hc hp ha =>
    obtain ⟨ht, ⟨hruns, -⟩ | ⟨hruns, hcalls⟩⟩ := h.at_place hr hc (by rw [hp]; nofun)
    · rw [hp] at hruns
      cases hruns
    · rw [hp] at hruns
      cases hruns
      refine .settled rfl rfl ?_ ?_
      · rw [panics_finish hc]
        exact ha
      · rw [panics_finish hc]
        exact hcalls
  | panics hc hp ha =>
    obtain ⟨ht, ⟨hruns, -⟩ | ⟨-, hcalls⟩⟩ := h.at_place hr hc (by rw [hp]; nofun)
    · rw [hp] at hruns
      cases hruns
    · refine .idle ht ?_ ?_
      · exact hr.runs_set hc (hr.only_initializer hc (by rw [hp]; nofun)) _
      · rw [panics_finish hc]
        exact hcalls
  | looks ho =>
    cases h with
    | idle ht hruns hcalls => exact .idle ht hruns hcalls
    | busy ht hruns hcalls => exact .busy ht hruns hcalls
    | settled ht hi ha hcalls => exact .settled ht hi ha hcalls

/-- What holds of callers in a race, at any time. -/
structure Sound (attempts : Nat → Option Bindings) (r : Race) : Prop where
  alone : r.Alone
  situation : Situation attempts r
  /-- The runs that panicked are the first ones. -/
  panicked : ∀ k < r.panics, attempts k = none
  /-- A use comes to a table only once all find it. -/
  tables : ∀ t, some t ∈ r.results → r.gate.table? = some t

theorem sound_meeting (uses : List Nat) (watchers : Nat) :
    Sound attempts (meeting uses watchers) := by
  have hstart : ∀ c ∈ (meeting uses watchers).callers, c.place = .start ∧ c.results = [] := by
    intro c hc
    obtain ⟨n, -, rfl⟩ := List.mem_map.mp hc
    exact ⟨rfl, rfl⟩
  have halone : (meeting uses watchers).Alone := fun i c hc =>
    .inl (hstart c (List.mem_of_getElem? hc)).1
  have hresults : (meeting uses watchers).results = [] :=
    List.flatMap_eq_nil_iff.mpr fun c hc => (hstart c hc).2
  have hpanics : (meeting uses watchers).panics = 0 := by
    unfold panics
    rw [hresults]
    rfl
  refine ⟨halone, .idle rfl (halone.runs_eq_nil rfl) hpanics.symm, ?_, ?_⟩
  · intro k hk
    rw [hpanics] at hk
    cases hk
  · intro t ht
    rw [hresults] at ht
    cases ht

theorem panicked_moves (h : Sound attempts r) (hm : Moves attempts r r') :
    ∀ k < r'.panics, attempts k = none := by
  cases hm with
  | idle | looks => exact h.panicked
  | finds hc hp ht | publishes hc hp ha =>
    rw [panics_finish hc]
    exact h.panicked
  | chosen hc | marks hc | begins hc =>
    rw [panics_place hc]
    exact h.panicked
  | panics hc hp ha =>
    obtain ⟨-, ⟨hruns, -⟩ | ⟨hruns, -⟩⟩ := h.situation.at_place h.alone hc (by rw [hp]; nofun)
    · rw [hp] at hruns
      cases hruns
    · rw [hp] at hruns
      cases hruns
      rw [panics_finish hc]
      intro k hk
      rcases Nat.lt_succ_iff_lt_or_eq.mp hk with hk | rfl
      · exact h.panicked k hk
      · exact ha

theorem tables_moves (h : Sound attempts r) (hm : Moves attempts r r') :
    ∀ t, some t ∈ r'.results → r'.gate.table? = some t := by
  intro t ht
  cases hm with
  | idle | looks => exact h.tables t ht
  | finds hc hp ht' =>
    rcases List.mem_cons.mp ((results_finish hc _).mem_iff.mp ht) with ht | ht
    · rw [ht]
      exact ht'
    · exact h.tables t ht
  | chosen hc | marks hc | begins hc =>
    exact h.tables t ((results_place hc _).mem_iff.mp ht)
  | publishes hc hp ha =>
    rcases List.mem_cons.mp ((results_finish hc _).mem_iff.mp ht) with ht | ht
    · exact ht.symm
    · have hnone := (h.situation.at_place h.alone hc (by rw [hp]; nofun)).1
      have hsome := h.tables t ht
      rw [hnone] at hsome
      cases hsome
  | panics hc hp ha =>
    rcases List.mem_cons.mp ((results_finish hc _).mem_iff.mp ht) with ht | ht
    · cases ht
    · exact h.tables t ht

theorem Sound.moves (h : Sound attempts r) (hm : Moves attempts r r') : Sound attempts r' :=
  ⟨h.alone.moves hm, h.situation.moves h.alone hm, panicked_moves h hm, tables_moves h hm⟩

end Race

/-! ## What observers read -/

/-- Whether a gate has come as far as a stage. -/
def Stage.Reached (g : Gate) : Stage → Prop
  | .uninitialized => True
  | .initializing => g.begun = true
  | .ready => g.table?.isSome = true

/-- What holds of an observer of a gate, at any time. -/
structure Observer.Watched (o : Observer) (g : Gate) : Prop where
  /-- The stages, the latest first, never go backwards. -/
  ordered : o.stages.Pairwise fun later earlier => earlier.rank ≤ later.rank
  reached : ∀ s ∈ o.stages, s.Reached g
  /-- Between its two reads an observer has not seen a table before. -/
  unready : o.sawNoTable = true → .ready ∉ o.stages

namespace Observer.Watched

variable {o : Observer} {g g' : Gate}

theorem start (g : Gate) : Watched {} g :=
  ⟨List.Pairwise.nil, nofun, nofun⟩

/-- Nothing a gate has reached is lost. -/
theorem mono (h : o.Watched g) (hbegun : g.begun = true → g'.begun = true)
    (htable : g.table?.isSome = true → g'.table?.isSome = true) : o.Watched g' := by
  refine ⟨h.ordered, ?_, h.unready⟩
  intro s hs
  have hreached := h.reached s hs
  cases s with
  | uninitialized => trivial
  | initializing => exact hbegun hreached
  | ready => exact htable hreached

/-- An observer reads a stage that is reached and that no stage read before comes after. -/
theorem read (h : o.Watched g) {s : Stage} (hs : s.Reached g)
    (hmax : ∀ s' ∈ o.stages, s'.rank ≤ s.rank) : Watched ⟨false, s :: o.stages⟩ g := by
  refine ⟨List.Pairwise.cons hmax h.ordered, ?_, nofun⟩
  intro s' hs'
  rcases List.mem_cons.mp hs' with rfl | hs'
  · exact hs
  · exact h.reached s' hs'

theorem look (h : o.Watched g) : (o.look g).Watched g := by
  unfold Observer.look
  split
  · -- The second read: the table was not there, so no stage read before was ready.
    rename_i hsaw
    have hunready := h.unready hsaw
    split
    · rename_i hbegun
      refine h.read hbegun ?_
      intro s hs
      cases s with
      | uninitialized | initializing => decide
      | ready => exact absurd hs hunready
    · rename_i hbegun
      refine h.read trivial ?_
      intro s hs
      cases s with
      | uninitialized => exact Nat.le_refl _
      | initializing => exact absurd (h.reached _ hs) hbegun
      | ready => exact absurd hs hunready
  · split
    · rename_i htable
      refine h.read htable ?_
      intro s _
      cases s <;> decide
    · rename_i htable
      refine ⟨h.ordered, h.reached, ?_⟩
      intro _ hready
      exact htable (h.reached _ hready)

end Observer.Watched

namespace Race

variable {attempts : Nat → Option Bindings} {r r' : Race}

/-- Every observer has read what it could. -/
def Watched (r : Race) : Prop := ∀ o ∈ r.observers, o.Watched r.gate

theorem Watched.moves (h : r.Watched) (hm : Moves attempts r r') : r'.Watched := by
  intro o ho
  cases hm with
  | idle | finds | chosen | begins | panics => exact h o ho
  | marks hc hp => exact (h o ho).mono (fun _ => rfl) id
  | publishes hc hp ha => exact (h o ho).mono id fun _ => rfl
  | looks ho' =>
    rcases List.mem_or_eq_of_mem_set ho with ho | rfl
    · exact h o ho
    · exact (h _ (List.mem_of_getElem? ho')).look

theorem watched_meeting (uses : List Nat) (watchers : Nat) : (meeting uses watchers).Watched := by
  intro o ho
  rw [List.eq_of_mem_replicate ho]
  exact Observer.Watched.start _

/-! ## One resolution -/

namespace Sound

theorem runs_length (h : Sound attempts r) : r.runs.length ≤ 1 := by
  cases h.situation with
  | idle _ hruns => rw [hruns]; exact Nat.zero_le 1
  | busy _ hruns => rw [hruns]; exact Nat.le_refl 1
  | settled _ hi => rw [h.alone.runs_eq_nil hi]; exact Nat.zero_le 1

theorem calls_range (h : Sound attempts r) : r.panics ≤ r.calls ∧ r.calls ≤ r.panics + 1 := by
  cases h.situation with
  | idle _ _ hcalls | busy _ _ hcalls | settled _ _ _ hcalls => omega

/-- No run begins after the first that gives a table. -/
theorem calls_le (h : Sound attempts r) {k : Nat} (hk : (attempts k).isSome = true) :
    r.calls ≤ k + 1 := by
  have hpanics : r.panics ≤ k := by
    apply Nat.le_of_not_lt
    intro hlt
    rw [h.panicked k hlt] at hk
    cases hk
  have := h.calls_range.2
  omega

/-- A use that came to a table came to that of the last run, which is over. -/
theorem of_mem_tables (h : Sound attempts r) {t : Bindings} (ht : t ∈ r.tables) :
    attempts r.panics = some t ∧ r.calls = r.panics + 1 ∧ r.runs = [] := by
  have htable := h.tables t (mem_tables.mp ht)
  cases h.situation with
  | idle hnone | busy hnone => rw [hnone] at htable; cases htable
  | settled ht' hi ha hcalls =>
    rw [ht'] at htable
    rw [← htable]
    exact ⟨ha, hcalls, h.alone.runs_eq_nil hi⟩

end Sound

/-- **A gate resolves once, in any race.** Callers use a fresh gate any number of times each while
observers watch it, and the source panics or gives a table at each run.  At any time at most one
run is in progress; the runs begun are those that panicked, which are the first ones, and at most
one more; and none begins after the first that gives a table.  A use that has come to a table has
come to that one, and the run that gave it is over.  No observer sees the stages go backwards. -/
theorem gate_resolves_once (attempts : Nat → Option Bindings) (uses : List Nat) (watchers : Nat)
    (schedule : List RaceTurn) :
    let r := (meeting uses watchers).run attempts schedule
    r.runs.length ≤ 1 ∧
    (r.panics ≤ r.calls ∧ r.calls ≤ r.panics + 1 ∧ ∀ k < r.panics, attempts k = none) ∧
    (∀ k, (attempts k).isSome → r.calls ≤ k + 1) ∧
    (∀ t ∈ r.tables, ∃ k, attempts k = some t ∧ (∀ j < k, attempts j = none) ∧
      r.calls = k + 1 ∧ r.runs = []) ∧
    ∀ o ∈ r.observers, o.stages.Pairwise fun later earlier => earlier.rank ≤ later.rank := by
  intro r
  have hsound : Sound attempts r := run_induction (sound_meeting uses watchers) Sound.moves schedule
  have hwatched : r.Watched := run_induction (watched_meeting uses watchers) Watched.moves schedule
  obtain ⟨hle, hcalls⟩ := hsound.calls_range
  refine ⟨hsound.runs_length, ⟨hle, hcalls, hsound.panicked⟩, ?_, ?_, ?_⟩
  · intro k hk
    exact hsound.calls_le hk
  · intro t ht
    obtain ⟨ha, hlast, hruns⟩ := hsound.of_mem_tables ht
    exact ⟨r.panics, ha, hsound.panicked, hlast, hruns⟩
  · intro o ho
    exact (hwatched o ho).ordered

/-- Entry points that count up and down. -/
def upAndDown : Bindings :=
  ⟨⟨1, fun count n => count + n.toNat⟩, ⟨2, fun count n => count - n.toNat⟩⟩

/-- A source that panics once. -/
def secondTry (k : Nat) : Option Bindings := if k = 0 then none else some upAndDown

/-- Two callers and an observer: the first caller's run panics while the second waits, which then
runs the source itself and finds its table again. -/
def takeover : List RaceTurn :=
  [.observer 0, .caller 0, .observer 0, .caller 0, .observer 0, .caller 1, .observer 0, .caller 0,
    .caller 1, .caller 0, .caller 1, .caller 1, .observer 0, .caller 1, .caller 1, .observer 0,
    .caller 1, .observer 0]

theorem gate_resolves_once_takeover :
    ∃ r, (meeting [1, 2] 1).run secondTry takeover = r ∧
      r.panics = 1 ∧ r.tables = [upAndDown, upAndDown] ∧
      (∃ k, secondTry k = some upAndDown ∧ (∀ j < k, secondTry j = none) ∧
        r.calls = k + 1 ∧ r.runs = []) ∧
      ∀ o ∈ r.observers,
        o.stages = [.ready, .initializing, .initializing, .uninitialized] ∧
        o.stages.Pairwise fun later earlier => earlier.rank ≤ later.rank := by
  obtain ⟨-, -, -, htables, hstages⟩ := gate_resolves_once secondTry [1, 2] 1 takeover
  refine ⟨_, rfl, rfl, rfl, htables upAndDown List.mem_cons_self, fun o ho => ⟨?_, hstages o ho⟩⟩
  rw [List.mem_singleton.mp ho]
  rfl

end Race

end OrderedAtomics.Binding
