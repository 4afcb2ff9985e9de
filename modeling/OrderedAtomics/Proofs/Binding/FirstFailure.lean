import OrderedAtomics.Binding.Loader
import Mathlib.Data.List.TakeWhile

/-
  Resolving blames the first thing that is wrong.  What a request asks of a loader is a list of
  checks in a fixed order, the module before the two symbols and of each name that it has no NUL
  before that it is known (`Loader.checks`).  Modules and symbols are looked up alike (`lookup`), so
  that the parts of a request are read off the loader by one lemma where they succeed and by one
  where they do not; `firstFailure_append` puts the checks of the parts together.  A name with a NUL
  is refused before the loader sees it, and so the loader is asked about the other names of the
  request alone (`Alike.resolve_eq`).
-/
namespace OrderedAtomics.Binding

/-! ## Checks in order -/

/-- One thing that is asked, and the error if it does not hold. -/
structure Check where
  holds : Prop
  error : BindingError

/-- The error of the first check that does not hold. -/
inductive FirstFailure : List Check → BindingError → Prop
  | here {c : Check} {rest : List Check} (h : ¬c.holds) : FirstFailure (c :: rest) c.error
  | later {c : Check} {rest : List Check} {e : BindingError} (hc : c.holds)
      (h : FirstFailure rest e) : FirstFailure (c :: rest) e

section FirstFailure

variable {c : Check} {checks checks' : List Check} {e : BindingError}

theorem not_firstFailure_nil : ¬FirstFailure [] e := nofun

theorem firstFailure_cons :
    FirstFailure (c :: checks) e ↔ ¬c.holds ∧ c.error = e ∨ c.holds ∧ FirstFailure checks e := by
  constructor
  · intro h
    cases h with
    | here h => exact .inl ⟨h, rfl⟩
    | later hc h => exact .inr ⟨hc, h⟩
  · rintro (⟨h, rfl⟩ | ⟨hc, h⟩)
    · exact .here h
    · exact .later hc h

/-- Later checks count only once all earlier ones hold. -/
theorem firstFailure_append :
    FirstFailure (checks ++ checks') e ↔
      FirstFailure checks e ∨ (∀ c ∈ checks, c.holds) ∧ FirstFailure checks' e := by
  induction checks with
  | nil => simp [not_firstFailure_nil]
  | cons c checks ih =>
    rw [List.cons_append, firstFailure_cons, firstFailure_cons, ih, List.forall_mem_cons,
      and_or_left, and_assoc, or_assoc]

/-- All checks hold if there is no first that does not. -/
theorem forall_holds_iff : (∀ c ∈ checks, c.holds) ↔ ∀ e, ¬FirstFailure checks e := by
  induction checks with
  | nil => exact ⟨fun _ _ => not_firstFailure_nil, fun _ => List.forall_mem_nil _⟩
  | cons c checks ih =>
    rw [List.forall_mem_cons, ih]
    constructor
    · rintro ⟨hc, h⟩ e (⟨hnot⟩ | ⟨-, hfailure⟩)
      · exact hnot hc
      · exact h e hfailure
    · intro h
      have hc : c.holds := Classical.byContradiction fun hnot => h _ (.here hnot)
      exact ⟨hc, fun e hfailure => h e (.later hc hfailure)⟩

end FirstFailure

/-! ## Computations that make checks -/

section Guards

variable {β γ : Type} {x : Except BindingError β} {f : β → Except BindingError γ}
  {checks checks' : List Check}

theorem bind_eq_ok_iff {b : γ} : x >>= f = .ok b ↔ ∃ a, x = .ok a ∧ f a = .ok b := by
  cases x with
  | error e => exact ⟨nofun, nofun⟩
  | ok a =>
    constructor
    · intro h
      exact ⟨a, rfl, h⟩
    · rintro ⟨_, ⟨⟩, h⟩
      exact h

/-- A computation that gives the error of the first check that does not hold. -/
def Guards (checks : List Check) (x : Except BindingError β) : Prop :=
  ∀ e, x = .error e ↔ FirstFailure checks e

theorem Guards.forall_holds_iff (h : Guards checks x) :
    (∀ c ∈ checks, c.holds) ↔ ∃ a, x = .ok a := by
  rw [Binding.forall_holds_iff]
  cases x with
  | error e => exact ⟨fun hnone => absurd ((h e).mp rfl) (hnone e), nofun⟩
  | ok a => exact ⟨fun _ => ⟨a, rfl⟩, fun _ e hfailure => nomatch (h e).mpr hfailure⟩

theorem Guards.ok (b : β) : Guards [] (.ok b) := fun _ => ⟨nofun, nofun⟩

/-- What goes on after a computation makes its checks after those of the computation. -/
theorem Guards.bind (hx : Guards checks x) (hf : ∀ a, x = .ok a → Guards checks' (f a)) :
    Guards (checks ++ checks') (x >>= f) := by
  intro e
  rw [firstFailure_append, hx.forall_holds_iff, ← hx e]
  cases x with
  | error e' =>
    constructor
    · rintro ⟨⟩
      exact .inl rfl
    · rintro (⟨⟨⟩⟩ | ⟨⟨a, ha⟩, -⟩)
      · rfl
      · cases ha
  | ok a =>
    have hnext : f a = .error e ↔ FirstFailure checks' e := hf a rfl e
    refine hnext.trans ⟨fun h => .inr ⟨⟨a, rfl⟩, h⟩, ?_⟩
    rintro (h | ⟨-, h⟩)
    · cases h
    · exact h

end Guards

/-! ## What a request asks for -/

/-- A name without a NUL. -/
def NulFree (name : String) : Prop := '\x00' ∉ name.toList

/-- A function is exported under a name that can be looked up. -/
def Offers (exports : Exports) (name : String) (f : CountFunction) : Prop :=
  NulFree name ∧ exports name = some f

namespace Loader

/-- The exports that a loader has to offer for a module, or for the whole process. -/
inductive Serves (l : Loader) : Option String → Exports → Prop
  | process : l.Serves none l.globalExports
  | resident {name : String} {exports : Exports} (hname : NulFree name)
      (h : l.resident? name = some exports) : l.Serves (some name) exports

/-- What is asked of the module. -/
def moduleChecks (l : Loader) : Option String → List Check
  | none => []
  | some name =>
    [⟨NulFree name, .invalidName name⟩,
      ⟨∃ exports, l.resident? name = some exports, .notResident name⟩]

/-- What is asked of a symbol, in the exports of the module. -/
def symbolChecks (l : Loader) (moduleName? : Option String) (symbol : String) : List Check :=
  [⟨NulFree symbol, .invalidName symbol⟩,
    ⟨∃ exports f, l.Serves moduleName? exports ∧ exports symbol = some f, .missingSymbol symbol⟩]

/-- What a request asks of a loader, in order. -/
def checks (l : Loader) (m : BindingRequest) : List Check :=
  l.moduleChecks m.moduleName? ++
    (l.symbolChecks m.moduleName? m.retainSymbol ++ l.symbolChecks m.moduleName? m.releaseSymbol)

/-! ## Looking up one name -/

section Lookup

variable {β : Type} {e missing : BindingError} {name : String} {found? : Option β} {found : β}

theorem checkName_eq_ok_iff {u : Unit} : checkName name = .ok u ↔ NulFree name := by
  unfold checkName NulFree
  split <;> simp [*]

theorem checkName_guards (name : String) :
    Guards [⟨NulFree name, .invalidName name⟩] (checkName name) := by
  intro e
  rw [firstFailure_cons]
  unfold checkName NulFree
  split <;> simp [not_firstFailure_nil, *]

/-- What is known under a name, of modules as of symbols, once the name is checked. -/
def lookup (name : String) (found? : Option β) (missing : BindingError) : Except BindingError β :=
  checkName name >>= fun _ => found?.elim (.error missing) .ok

theorem lookup_of_nulFree (h : NulFree name) :
    lookup name found? missing = found?.elim (.error missing) .ok := by
  have hok : checkName name = .ok () := checkName_eq_ok_iff.mpr h
  rw [lookup, hok]
  rfl

/-- A name with a NUL is refused, whatever is known under it. -/
theorem lookup_of_not_nulFree (h : ¬NulFree name) :
    lookup name found? missing = .error (.invalidName name) := by
  rw [lookup, (checkName_guards name _).mpr (.here h)]
  rfl

theorem lookup_eq_ok_iff :
    lookup name found? missing = .ok found ↔ NulFree name ∧ found? = some found := by
  rw [lookup, bind_eq_ok_iff]
  simp only [checkName_eq_ok_iff]
  cases found? <;> simp

theorem lookup_guards (name : String) (found? : Option β) (missing : BindingError) :
    Guards [⟨NulFree name, .invalidName name⟩, ⟨∃ x, found? = some x, missing⟩]
      (lookup name found? missing) := by
  refine (checkName_guards name).bind fun _ _ => ?_
  intro e
  rw [firstFailure_cons]
  cases found? <;> simp [not_firstFailure_nil]

end Lookup

variable {l l' : Loader} {m : BindingRequest} {moduleName? : Option String} {exports : Exports}
  {name : String} {f : CountFunction} {t : Bindings}

theorem exportsOf_some (l : Loader) (name : String) :
    l.exportsOf (some name) = lookup name (l.resident? name) (.notResident name) := by
  rw [exportsOf, lookup]
  cases l.resident? name <;> rfl

theorem functionNamed_eq (exports : Exports) (name : String) :
    functionNamed exports name = lookup name (exports name) (.missingSymbol name) := by
  rw [functionNamed, lookup]
  cases exports name <;> rfl

/-! ## The parts of a request -/

theorem exportsOf_eq_ok_iff :
    l.exportsOf moduleName? = .ok exports ↔ l.Serves moduleName? exports := by
  cases moduleName? with
  | none =>
    constructor
    · rintro ⟨⟩
      exact .process
    · rintro ⟨⟩
      rfl
  | some name =>
    rw [exportsOf_some, lookup_eq_ok_iff]
    constructor
    · rintro ⟨hname, h⟩
      exact .resident hname h
    · rintro (- | ⟨hname, h⟩)
      exact ⟨hname, h⟩

theorem exportsOf_guards (l : Loader) (moduleName? : Option String) :
    Guards (l.moduleChecks moduleName?) (l.exportsOf moduleName?) := by
  cases moduleName? with
  | none => exact .ok _
  | some name =>
    rw [exportsOf_some]
    exact lookup_guards _ _ _

theorem functionNamed_eq_ok_iff :
    functionNamed exports name = .ok f ↔ Offers exports name f := by
  rw [functionNamed_eq]
  exact lookup_eq_ok_iff

theorem functionNamed_guards (h : l.Serves moduleName? exports) (name : String) :
    Guards (l.symbolChecks moduleName? name) (functionNamed exports name) := by
  rw [← exportsOf_eq_ok_iff] at h
  have hexported : (∃ exports' f, l.Serves moduleName? exports' ∧ exports' name = some f) ↔
      ∃ f, exports name = some f := by
    simp only [← exportsOf_eq_ok_iff, h, Except.ok.injEq, exists_and_left, exists_eq_left']
  rw [functionNamed_eq, symbolChecks, hexported]
  exact lookup_guards _ _ _

/-! ## Requests -/

theorem resolve_eq_ok_iff :
    l.resolve m = .ok t ↔ ∃ exports, l.Serves m.moduleName? exports ∧
      Offers exports m.retainSymbol t.retain ∧ Offers exports m.releaseSymbol t.release := by
  unfold resolve
  simp only [bind_eq_ok_iff, exportsOf_eq_ok_iff, functionNamed_eq_ok_iff]
  refine exists_congr fun exports => and_congr_right fun _ => ?_
  constructor
  · rintro ⟨retain, hretain, release, hrelease, ⟨⟩⟩
    exact ⟨hretain, hrelease⟩
  · rintro ⟨hretain, hrelease⟩
    exact ⟨t.retain, hretain, t.release, hrelease, rfl⟩

theorem resolve_guards (l : Loader) (m : BindingRequest) : Guards (l.checks m) (l.resolve m) := by
  refine (exportsOf_guards l m.moduleName?).bind fun exports hexports => ?_
  have hserves : l.Serves m.moduleName? exports := exportsOf_eq_ok_iff.mp hexports
  refine (functionNamed_guards hserves m.retainSymbol).bind fun retain _ => ?_
  refine (functionNamed_guards hserves m.releaseSymbol).bind fun release _ => ?_
  exact .ok _

/-! ## What the loader is asked -/

/-- Exports that say the same of a request's symbols, as far as these have no NUL. -/
def ExportsAlike (m : BindingRequest) (exports exports' : Exports) : Prop :=
  ∀ name ∈ [m.retainSymbol, m.releaseSymbol], NulFree name → exports' name = exports name

/-- Loaders that say the same of a request's own names, as far as these have no NUL.  What they say
of other names, the beginnings of these included, may differ. -/
def Alike (m : BindingRequest) (l l' : Loader) : Prop :=
  match m.moduleName? with
  | none => ExportsAlike m l.globalExports l'.globalExports
  | some name => NulFree name → Option.Rel (ExportsAlike m) (l.resident? name) (l'.resident? name)

theorem ExportsAlike.functionNamed_eq {exports' : Exports} (h : ExportsAlike m exports exports')
    (hname : name ∈ [m.retainSymbol, m.releaseSymbol]) :
    functionNamed exports' name = functionNamed exports name := by
  rw [Loader.functionNamed_eq, Loader.functionNamed_eq]
  by_cases hfree : NulFree name
  · rw [h name hname hfree]
  · rw [lookup_of_not_nulFree hfree, lookup_of_not_nulFree hfree]

/-- Both entry points, looked for in some exports. -/
def search (m : BindingRequest) (exports : Exports) : Except BindingError Bindings := do
  let retain ← functionNamed exports m.retainSymbol
  let release ← functionNamed exports m.releaseSymbol
  return ⟨retain, release⟩

theorem resolve_eq (l : Loader) (m : BindingRequest) :
    l.resolve m = l.exportsOf m.moduleName? >>= search m := rfl

theorem ExportsAlike.search_eq {exports' : Exports} (h : ExportsAlike m exports exports') :
    search m exports' = search m exports := by
  unfold search
  rw [h.functionNamed_eq (by simp), h.functionNamed_eq (by simp)]

theorem Alike.resolve_eq (h : Alike m l l') : l'.resolve m = l.resolve m := by
  unfold Alike at h
  rw [Loader.resolve_eq, Loader.resolve_eq]
  cases hmodule : m.moduleName? with
  | none =>
    rw [hmodule] at h
    exact h.search_eq
  | some name =>
    rw [hmodule] at h
    rw [exportsOf_some, exportsOf_some]
    by_cases hfree : NulFree name
    · rw [lookup_of_nulFree hfree, lookup_of_nulFree hfree]
      have hresident := h hfree
      generalize l.resident? name = found?, l'.resident? name = found?' at hresident ⊢
      cases hresident with
      | none => rfl
      | some hexports => exact hexports.search_eq
    · rw [lookup_of_not_nulFree hfree, lookup_of_not_nulFree hfree]

/-- **Resolving succeeds unless something is missing, and blames the first thing that is.** For any
loader and any request there is a table exactly if the module can be searched and both names are
exported there, and it holds the function of each name.  Otherwise the error is that of the first
check which does not hold.  What the loader would say of other names than those of the request, or
of one with a NUL, plays no part. -/
theorem resolve_blames_first (l : Loader) (m : BindingRequest) :
    (∀ t, l.resolve m = .ok t ↔ ∃ exports, l.Serves m.moduleName? exports ∧
      Offers exports m.retainSymbol t.retain ∧ Offers exports m.releaseSymbol t.release) ∧
    (∀ e, l.resolve m = .error e ↔ FirstFailure (l.checks m) e) ∧
    ∀ l', Alike m l l' → l'.resolve m = l.resolve m :=
  ⟨fun _ => resolve_eq_ok_iff, resolve_guards l m, fun _ => Alike.resolve_eq⟩

/-! ## Loaders that stop at a NUL -/

/-- A name up to its first NUL. -/
def cut (name : String) : String := String.ofList (name.toList.takeWhile (· != '\x00'))

/-- The loader that takes every name to end at its first NUL. -/
def cutting (l : Loader) : Loader where
  resident? name := (l.resident? (cut name)).map fun exports name => exports (cut name)
  globalExports name := l.globalExports (cut name)

theorem cut_of_nulFree (h : NulFree name) : cut name = name := by
  have hall : name.toList.takeWhile (· != '\x00') = name.toList := by
    rw [List.takeWhile_eq_self_iff]
    intro c hc
    simp only [bne_iff_ne]
    rintro rfl
    exact h hc
  rw [cut, hall, String.ofList_toList]

theorem exportsAlike_cut (m : BindingRequest) (exports : Exports) :
    ExportsAlike m exports fun name => exports (cut name) := by
  intro name _ hname
  exact congrArg exports (cut_of_nulFree hname)

/-- A request cannot tell whether its loader stops at a NUL. -/
theorem alike_cutting (l : Loader) (m : BindingRequest) : Alike m l l.cutting := by
  unfold Alike
  cases m.moduleName? with
  | none => exact exportsAlike_cut m _
  | some name =>
    intro hname
    dsimp only [cutting]
    rw [cut_of_nulFree hname]
    cases l.resident? name with
    | none => exact .none
    | some exports => exact .some (exportsAlike_cut m exports)

/-- A process with one module, which exports two functions. -/
def oneModule : Loader where
  resident? name := if name = "rt" then some counting else none
  globalExports _ := none
where
  counting : Exports := fun name =>
    if name = "up" then some ⟨1, fun count n => count + n.toNat⟩
    else if name = "down" then some ⟨2, fun count n => count - n.toNat⟩
    else none

/-- Both symbols are wrong, and up to its NUL the first would be exported. -/
theorem resolve_blames_first_cut :
    Alike ⟨some "rt", "up\x00n", "gone"⟩ oneModule oneModule.cutting ∧
      oneModule.cutting.resolve ⟨some "rt", "up\x00n", "gone"⟩ =
        .error (.invalidName "up\x00n") := by
  obtain ⟨-, herror, halike⟩ := resolve_blames_first oneModule ⟨some "rt", "up\x00n", "gone"⟩
  have hcut := alike_cutting oneModule ⟨some "rt", "up\x00n", "gone"⟩
  refine ⟨hcut, (halike _ hcut).trans ((herror _).mpr ?_)⟩
  have hmodule : NulFree "rt" := by unfold NulFree; decide
  have hretain : ¬NulFree "up\x00n" := by unfold NulFree; decide
  exact .later hmodule (.later ⟨_, rfl⟩ (.here hretain))

end Loader

end OrderedAtomics.Binding
