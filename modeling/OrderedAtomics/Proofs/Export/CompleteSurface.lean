import OrderedAtomics.Job.LibraryAudit
import OrderedAtomics.Proofs.Export.Listing
import OrderedAtomics.Proofs.Export.Surface
import Mathlib.Data.List.Sort
import Mathlib.Data.Set.Card

/-
  What the audit of a library finds.  An audit compares a set of names with the checklist when its
  fields are those of the two sets and of their differences (`Compares`); this leaves it no choice
  (`Compares.unique`), and the audit of a listing compares the names that the listing shows
  (`ofListing_compares`).  The checklist that is compared with depends on these names, by one of
  them.  It passes all the same exactly on the two complete surfaces (`Compares.passes_iff`), since
  each of them calls for itself.
-/
namespace OrderedAtomics.Export

open OrderedAtomics.Job (Workspace)
open Text (Bytes byteLines)

/-- The names a complete library exports, as a set. -/
def completeSurface (doubleWords : Bool) : Set String :=
  {name | name ∈ Checklist.expected doubleWords}

theorem mem_completeSurface {doubleWords : Bool} {name : String} :
    name ∈ completeSurface doubleWords ↔ ∃ f ∈ Symbol.surface doubleWords, f.name = name := by
  rw [completeSurface, Set.mem_ofPred_eq, Checklist.mem_expected]

/-! ## The names of double words -/

theorem mem_doubleWordNames {name : String} :
    name ∈ Checklist.basicNames "double_word" ↔
      ∃ e ∈ Entry.all .doubleWord, (Symbol.storage e .doubleWord).name = name := by
  rw [Checklist.doubleWordNames_eq, List.mem_map]

/-- With double words, all their names are called for. -/
theorem doubleWordNames_subset {name : String} (h : name ∈ Checklist.basicNames "double_word") :
    name ∈ completeSurface true := by
  obtain ⟨e, he, rfl⟩ := mem_doubleWordNames.mp h
  have hsurface : Symbol.storage e .doubleWord ∈ Symbol.surface true :=
    Symbol.mem_surface.mpr ⟨he, fun _ => rfl⟩
  exact mem_completeSurface.mpr ⟨_, hsurface, rfl⟩

/-- Without double words, none of their names is. -/
theorem doubleWordNames_disjoint {name : String} (h : name ∈ Checklist.basicNames "double_word") :
    name ∉ completeSurface false := by
  obtain ⟨e, -, rfl⟩ := mem_doubleWordNames.mp h
  intro hmem
  obtain ⟨f, hf, hname⟩ := mem_completeSurface.mp hmem
  rw [Symbol.name_inj hname] at hf
  exact (Symbol.mem_surface_false.mp hf).2 ⟨e, rfl⟩

/-- Each complete surface calls for itself. -/
theorem witness_mem_completeSurface (doubleWords : Bool) :
    Audit.doubleWordWitness ∈ completeSurface doubleWords ↔ doubleWords = true := by
  have hname : Audit.doubleWordWitness ∈ Checklist.basicNames "double_word" := List.mem_cons_self
  cases doubleWords with
  | false => simp [doubleWordNames_disjoint hname]
  | true => simp [doubleWordNames_subset hname]

/-! ## What an audit says -/

namespace Audit

/-- An audit compares the names that a library shows with those that they call for. -/
structure Compares (a : Audit) (shown : Set String) : Prop where
  library : a.library = libraryPath
  doubleWord : a.doubleWord = true ↔ doubleWordWitness ∈ shown
  expected : a.expected = (completeSurface a.doubleWord).ncard
  exported : a.exported = shown.ncard
  missing_sorted : a.missing.Pairwise (· < ·)
  unexpected_sorted : a.unexpected.Pairwise (· < ·)
  mem_missing : ∀ name, name ∈ a.missing ↔ name ∈ completeSurface a.doubleWord \ shown
  mem_unexpected : ∀ name, name ∈ a.unexpected ↔ name ∈ shown \ completeSurface a.doubleWord
  disjoint : a.missing.Disjoint a.unexpected
  balance : (a.expected : Int) - a.missing.length = a.exported - a.unexpected.length

/-- A sorted list is as long as the set of its members is large. -/
theorem length_eq_ncard {names : List String} (h : names.Pairwise (· < ·)) {s : Set String}
    (hs : ∀ name, name ∈ names ↔ name ∈ s) : names.length = s.ncard := by
  have hnodup : names.Nodup := h.imp fun {_ _} hlt => Std.ne_of_lt hlt
  have hset : s = (names.toFinset : Set String) := by
    ext name
    rw [List.coe_toFinset, Set.mem_ofPred_eq, hs]
  rw [hset, Set.ncard_coe_finset, List.toFinset_card_of_nodup hnodup]

theorem finite_of_mem {names : List String} {s : Set String}
    (hs : ∀ name, name ∈ names ↔ name ∈ s) : s.Finite :=
  (List.finite_toSet names).subset fun name hname => (hs name).mpr hname

theorem mem_diff_iff {names names' : List String} {s t : Set String}
    (hs : ∀ name, name ∈ names ↔ name ∈ s) (ht : ∀ name, name ∈ names' ↔ name ∈ t)
    (name : String) : name ∈ Text.NameSet.diff names names' ↔ name ∈ s \ t := by
  rw [Text.NameSet.mem_diff, hs, ht, Set.mem_sdiff]

/-- No name is in one set alone where it is a part of the other. -/
theorem eq_nil_iff_subset {names : List String} {s t : Set String}
    (h : ∀ name, name ∈ names ↔ name ∈ s \ t) : names = [] ↔ s ⊆ t := by
  rw [List.eq_nil_iff_forall_not_mem, ← Set.sdiff_eq_empty, Set.eq_empty_iff_forall_notMem]
  exact forall_congr' fun name => not_congr (h name)

/-- What two sets have apart makes up for their sizes. -/
theorem ncard_sdiff_balance {s t : Set String} (hs : s.Finite) (ht : t.Finite) :
    (s.ncard : Int) - (s \ t).ncard = t.ncard - (t \ s).ncard := by
  have hleft := Set.ncard_sdiff_add_ncard s t hs ht
  have hright := Set.ncard_sdiff_add_ncard t s ht hs
  rw [Set.union_comm] at hright
  omega

theorem ofListing_eq (listing : Bytes) :
    ∃ b, (b = true ↔ doubleWordWitness ∈ shownNames listing) ∧
      ofListing listing =
        { library := libraryPath
          doubleWord := b
          expected := (Checklist.expected b).length
          exported := (exportedNames listing).length
          missing := Text.NameSet.diff (Checklist.expected b) (exportedNames listing)
          unexpected := Text.NameSet.diff (exportedNames listing) (Checklist.expected b) } := by
  refine ⟨(exportedNames listing).contains doubleWordWitness, ?_, rfl⟩
  rw [List.contains_iff_mem, mem_exportedNames]

/-- The audit of a listing compares the names that the listing shows. -/
theorem ofListing_compares (listing : Bytes) :
    (ofListing listing).Compares (shownNames listing) := by
  obtain ⟨b, hb, heq⟩ := ofListing_eq listing
  have hsorted : (Checklist.expected b).Pairwise (· < ·) := Text.NameSet.pairwise_ofList _
  have hsorted' : (exportedNames listing).Pairwise (· < ·) := Text.NameSet.pairwise_ofList _
  have hmem : ∀ name, name ∈ Checklist.expected b ↔ name ∈ completeSurface b := fun _ => Iff.rfl
  have hmem' : ∀ name, name ∈ exportedNames listing ↔ name ∈ shownNames listing :=
    fun _ => mem_exportedNames
  rw [heq]
  generalize Checklist.expected b = expected at *
  generalize exportedNames listing = exported at *
  have hmissing := mem_diff_iff hmem hmem'
  have hunexpected := mem_diff_iff hmem' hmem
  have hbalance := ncard_sdiff_balance (finite_of_mem hmem) (finite_of_mem hmem')
  refine ⟨rfl, hb, length_eq_ncard hsorted hmem, length_eq_ncard hsorted' hmem',
    Text.NameSet.pairwise_diff hsorted, Text.NameSet.pairwise_diff hsorted', hmissing, hunexpected,
    ?_, ?_⟩
  · intro name hin hin'
    exact ((hmissing name).mp hin).2 ((hunexpected name).mp hin').1
  · rw [← length_eq_ncard hsorted hmem, ← length_eq_ncard hsorted' hmem',
      ← length_eq_ncard (Text.NameSet.pairwise_diff hsorted) hmissing,
      ← length_eq_ncard (Text.NameSet.pairwise_diff hsorted') hunexpected] at hbalance
    exact hbalance

namespace Compares

variable {a b : Audit} {shown : Set String}

/-- What is compared decides what is found. -/
theorem unique (ha : a.Compares shown) (hb : b.Compares shown) : a = b := by
  have hword : a.doubleWord = b.doubleWord := by
    rw [Bool.eq_iff_iff, ha.doubleWord, hb.doubleWord]
  have hmissing : a.missing = b.missing := by
    refine ha.missing_sorted.eq_of_mem_iff hb.missing_sorted fun name => ?_
    rw [ha.mem_missing, hb.mem_missing, hword]
  have hunexpected : a.unexpected = b.unexpected := by
    refine ha.unexpected_sorted.eq_of_mem_iff hb.unexpected_sorted fun name => ?_
    rw [ha.mem_unexpected, hb.mem_unexpected, hword]
  have hexpected : a.expected = b.expected := by
    rw [ha.expected, hb.expected, hword]
  have hlibrary : a.library = b.library := ha.library.trans hb.library.symm
  have hexported : a.exported = b.exported := ha.exported.trans hb.exported.symm
  cases a
  cases b
  rw [Audit.mk.injEq]
  exact ⟨hlibrary, hword, hexpected, hexported, hmissing, hunexpected⟩

/-- An audit passes on the surface that it expects. -/
theorem passes_iff_eq (h : a.Compares shown) :
    a.passes = true ↔ shown = completeSurface a.doubleWord := by
  have hmissing := eq_nil_iff_subset h.mem_missing
  have hunexpected := eq_nil_iff_subset h.mem_unexpected
  rw [passes, Bool.and_eq_true, List.isEmpty_iff, List.isEmpty_iff, hmissing, hunexpected, and_comm]
  exact Set.Subset.antisymm_iff.symm

/-- An audit passes on the two complete surfaces and on nothing else. -/
theorem passes_iff (h : a.Compares shown) :
    a.passes = true ↔ shown = completeSurface false ∨ shown = completeSurface true := by
  rw [h.passes_iff_eq]
  constructor
  · intro heq
    rw [heq]
    cases a.doubleWord with
    | false => exact .inl rfl
    | true => exact .inr rfl
  · -- a complete surface has the witness just if it is the one with double words
    have hself : ∀ b, shown = completeSurface b → shown = completeSurface a.doubleWord := by
      intro b heq
      have hword : a.doubleWord = b := by
        rw [Bool.eq_iff_iff, h.doubleWord, heq, witness_mem_completeSurface]
      rw [hword, heq]
    rintro (heq | heq)
    · exact hself false heq
    · exact hself true heq

end Compares

end Audit

/-! ## The job -/

/-- A workspace in which the build succeeds, and then the listing tool with a listing. -/
structure Ready (w : Workspace) (listing : Bytes) : Prop where
  builds : ∃ tool, w.buildTool? = some tool ∧ tool.buildExit = 0
  lists : w.listingTool? = some ⟨listing, 0⟩

theorem run_buildLibrary {w : Workspace} {listing : Bytes} (h : Ready w listing) :
    ∃ w', Job.run Job.buildLibrary w = (.ok (), w') ∧ w'.out = w.out ∧
      w'.listingTool? = w.listingTool? := by
  obtain ⟨tool, htool, hexit⟩ := h.builds
  have hcode : tool.exit ["build", "--lib", "--release"] = 0 := hexit
  rw [Job.buildLibrary, Job.run_bind (Job.run_build htool _ _), hcode]
  exact ⟨_, rfl, rfl, rfl⟩

theorem run_libraryListing {w : Workspace} {listing : Bytes}
    (h : w.listingTool? = some ⟨listing, 0⟩) :
    ∃ w', Job.run Job.libraryListing w = (.ok listing, w') ∧ w'.out = w.out := by
  rw [Job.libraryListing, Job.run_bind (Job.run_listSymbols h _)]
  exact ⟨_, rfl, rfl⟩

/-- Where the tools succeed, the job prints the audit of the listing, and its outcome is that of the
audit. -/
theorem run_auditLibrary {w : Workspace} {listing : Bytes} (h : Ready w listing) (json : Bool) :
    ∃ w', Job.run (Job.auditLibrary json) w =
        (if (Audit.ofListing listing).passes = true then .ok ()
          else .error { message := "Exported symbols do not match the expected surface" }, w') ∧
      w'.out = w.out ++ "Building static library...\n" ++
        if json = true then (Audit.ofListing listing).toJson
        else (Audit.ofListing listing).toText := by
  have hready : Ready { w with out := w.out ++ "Building static library...\n" } listing :=
    ⟨h.builds, h.lists⟩
  obtain ⟨built, hbuild, hbuilt, hkept⟩ := run_buildLibrary hready
  obtain ⟨listed, hlist, hlisted⟩ := run_libraryListing (hkept.trans h.lists)
  rw [Job.auditLibrary, Job.run_bind (Job.run_print _), Job.run_bind hbuild, Job.run_bind hlist,
    Job.run_bind (Job.run_print _), hlisted, hbuilt]
  generalize Audit.ofListing listing = a
  refine ⟨{ listed with
    out := w.out ++ "Building static library...\n" ++ if json then a.toJson else a.toText },
    ?_, rfl⟩
  cases a.passes with
  | false => rfl
  | true => rfl

/-- A workspace in which the tools succeed. -/
def builtWorkspace (listing : Bytes) : Workspace where
  buildTool? := some ⟨0, [], false⟩
  listingTool? := some ⟨listing, 0⟩

end OrderedAtomics.Export
