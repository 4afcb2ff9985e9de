import OrderedAtomics.Bench.Report
import OrderedAtomics.Proofs.Bench.Gathering
import OrderedAtomics.Proofs.Files.Reordered

/-
  When one measurement overwrites another.  Results have one value for a variant of a group, while
  files with measurements may stand anywhere below; those whose last directories are called the same
  meet in one value (`Tallies`).  So no more values are held than there are files, and as many
  exactly if no two of them meet (`tallies_of_collects`).  If two meet, the one that the walk comes
  to last stays, and any file can be made the last by listing the directories on its way last
  (`exists_measured_last`); hence the order of directory entries makes no difference exactly if
  files that meet measure the same (`reordered_iff_agree`).
-/
namespace OrderedAtomics.Bench

open OrderedAtomics.Files OrderedAtomics.Json

/-! ## Files that meet -/

/-- Files that measure the same variant of the same group measure the same. -/
def Agree (on : List EntryName → Measurement → Prop) : Prop :=
  ∀ way way' m m', on way m → on way' m' → m.group = m'.group → m.variant = m'.variant → m = m'

/-- Files on different ways do not measure the same variant of the same group. -/
def Apart (on : List EntryName → Measurement → Prop) : Prop :=
  ∀ way way' m m', on way m → on way' m' → m.group = m'.group → m.variant = m'.variant →
    way = way'

/-- The ways on which something is measured. -/
def measuredWays (on : List EntryName → Measurement → Prop) : Set (List EntryName) :=
  {way | ∃ m, on way m}

/-- The groups and variants of what is measured. -/
def measuredKeys (on : List EntryName → Measurement → Prop) : Set (String × String) :=
  {key | ∃ way ops, on way ⟨key.1, key.2, ops⟩}

/-- A report has a row for a variant in the section of its group. -/
def Reports (text group variant : String) (ops : Float) : Prop :=
  ∃ variants before after, text = before ++ sectionOf group variants ++ after ∧
    ∃ before' after', sectionOf group variants =
      before' ++ row (fastest variants) variant ops ++ after'

/-- How many values results hold for the files on some ways: one for each group and variant, and so
as many as there are files just if these are apart, and then one for each file. -/
structure Tallies (results : Results) (on : List EntryName → Measurement → Prop) : Prop where
  finite : (measuredWays on).Finite
  size_eq : results.size = (measuredKeys on).ncard
  size_le : results.size ≤ (measuredWays on).ncard
  size_eq_iff : results.size = (measuredWays on).ncard ↔ Apart on
  agree : Apart on → Agree on
  holds : Apart on → ∀ way m, on way m → results.Holds m.group m.variant m.ops
  reports : Apart on → ∀ way m, on way m → Reports (report results) m.group m.variant m.ops

variable {results results' : Results} {on : List EntryName → Measurement → Prop}
  {group variant : String} {ops : Float}

theorem join_of_mem {β : Type} {f : β → String} {b : β} {bs : List β} (h : b ∈ bs) :
    ∃ before after, String.join (bs.map f) = before ++ f b ++ after := by
  obtain ⟨init, rest, rfl⟩ := List.append_of_mem h
  refine ⟨String.join (init.map f), String.join (rest.map f), ?_⟩
  rw [List.map_append, List.map_cons, String.join_append, String.join_cons, String.append_assoc]

/-- Every value that is held is reported. -/
theorem reports_of_holds (h : results.Holds group variant ops) :
    Reports (report results) group variant ops := by
  obtain ⟨variants, he, hv⟩ := h
  obtain ⟨before, after, hsection⟩ := join_of_mem (f := fun g => sectionOf g.1 g.2) he
  obtain ⟨before', after', hrow⟩ :=
    join_of_mem (f := fun v => row (fastest variants) v.1 v.2) hv
  dsimp only at hsection hrow
  have hreport : report results =
      ("# Ordering Benchmark Report\n" ++ before) ++ sectionOf group variants ++ after := by
    unfold report
    rw [hsection, ← String.append_assoc, ← String.append_assoc]
  have htable : sectionOf group variants =
      ("\n## " ++ group ++ "\n\n| Variant | Ops/s | vs fastest |\n|---|---|---|\n" ++ before')
        ++ row (fastest variants) variant ops ++ after' := by
    unfold sectionOf
    rw [hrow, ← String.append_assoc, ← String.append_assoc]
  exact ⟨variants, _, after, hreport, _, after', htable⟩

/-- If files agree, all that they measure is held. -/
theorem Results.Collects.holds (h : results.Collects fun m => ∃ way, on way m) (hagree : Agree on)
    {way : List EntryName} {m : Measurement} (hm : on way m) :
    results.Holds m.group m.variant m.ops := by
  obtain ⟨ops, hops⟩ := (h.holds_iff m.group m.variant).mpr ⟨m.ops, way, hm⟩
  obtain ⟨way', hm'⟩ := h.measured _ _ _ hops
  have heq := hagree way way' m _ hm hm' rfl rfl
  rwa [heq]

/-- If files agree, only one collection of what they measure is there. -/
theorem Results.Collects.unique (h : results.Collects fun m => ∃ way, on way m)
    (h' : results'.Collects fun m => ∃ way, on way m) (hagree : Agree on) :
    results = results' := by
  refine Results.eq_of_holds_iff h.wellFormed h'.wellFormed fun group variant ops => ⟨?_, ?_⟩
  · intro hops
    obtain ⟨way, hm⟩ := h.measured _ _ _ hops
    exact h'.holds hagree hm
  · intro hops
    obtain ⟨way, hm⟩ := h'.measured _ _ _ hops
    exact h.holds hagree hm

theorem Results.Collects.size_eq (h : results.Collects fun m => ∃ way, on way m) :
    results.size = (measuredKeys on).ncard := by
  rw [Results.size_eq_ncard h.wellFormed]
  exact congrArg Set.ncard (Set.ext fun key => (h.holds_iff key.1 key.2).trans exists_comm)

section Key

/-! A way has one measurement, and so one group and one variant. -/

variable {key : List EntryName → String × String}

theorem exists_key (hunique : ∀ way m m', on way m → on way m' → m = m') :
    ∃ key : List EntryName → String × String,
      ∀ way m, on way m → key way = (m.group, m.variant) := by
  classical
  refine ⟨fun way => if hm : ∃ m, on way m then (hm.choose.group, hm.choose.variant)
    else ("", ""), fun way m hm => ?_⟩
  have hsome : ∃ m, on way m := ⟨m, hm⟩
  dsimp only
  rw [dif_pos hsome, hunique way _ m hsome.choose_spec hm]

theorem measuredKeys_eq_image (hkey : ∀ way m, on way m → key way = (m.group, m.variant)) :
    measuredKeys on = key '' measuredWays on := by
  ext ⟨group, variant⟩
  constructor
  · rintro ⟨way, ops, hm⟩
    exact ⟨way, ⟨_, hm⟩, hkey way _ hm⟩
  · rintro ⟨way, ⟨m, hm⟩, heq⟩
    rw [hkey way m hm, Prod.mk.injEq] at heq
    obtain ⟨rfl, rfl⟩ := heq
    exact ⟨way, m.ops, hm⟩

theorem injOn_iff_apart (hkey : ∀ way m, on way m → key way = (m.group, m.variant)) :
    Set.InjOn key (measuredWays on) ↔ Apart on := by
  constructor
  · intro hinj way way' m m' hm hm' hgroup hvariant
    refine hinj ⟨m, hm⟩ ⟨m', hm'⟩ ?_
    rw [hkey way m hm, hkey way' m' hm', hgroup, hvariant]
  · rintro hapart way ⟨m, hm⟩ way' ⟨m', hm'⟩ heq
    rw [hkey way m hm, hkey way' m' hm', Prod.mk.injEq] at heq
    exact hapart way way' m m' hm hm' heq.1 heq.2

end Key

theorem Apart.agree (hapart : Apart on) (hunique : ∀ way m m', on way m → on way m' → m = m') :
    Agree on := by
  intro way way' m m' hm hm' hgroup hvariant
  obtain rfl := hapart way way' m m' hm hm' hgroup hvariant
  exact hunique way m m' hm hm'

/-- Collected results tally the files, if each has one measurement. -/
theorem tallies_of_collects (h : results.Collects fun m => ∃ way, on way m)
    (hfinite : (measuredWays on).Finite)
    (hunique : ∀ way m m', on way m → on way m' → m = m') : Tallies results on := by
  obtain ⟨key, hkey⟩ := exists_key hunique
  have hsize : results.size = (key '' measuredWays on).ncard := by
    rw [h.size_eq, measuredKeys_eq_image hkey]
  have hholds : Apart on → ∀ way m, on way m → results.Holds m.group m.variant m.ops :=
    fun hapart way m hm => h.holds (hapart.agree hunique) hm
  refine ⟨hfinite, h.size_eq, ?_, ?_, fun hapart => hapart.agree hunique, hholds, ?_⟩
  · rw [hsize]
    exact Set.ncard_image_le hfinite
  · rw [hsize, Set.ncard_image_iff hfinite, injOn_iff_apart hkey]
  · intro hapart way m hm
    exact reports_of_holds (hholds hapart way m hm)

/-! ## Files below a directory -/

/-- The directory on a way from the directory at a path holds a measurement. -/
def MeasuredOn (double? : Numeral → Option Float) (path : List Component) (entries : Entries)
    (way : List EntryName) (m : Measurement) : Prop :=
  ∃ dir, entries.Leads way dir ∧ Measured double? (path ++ way.map .name) dir m

variable {path : List Component} {entries entries' dir dir' : Entries} {way : List EntryName}
  {m m' : Measurement} {x : Float} {double? : Numeral → Option Float} {r : Reader}

/-- A directory holds one measurement at most. -/
theorem measured_unique (hr : r.Strict) (h : dir.Distinct) (hm : Measured r.double? path dir m)
    (hm' : Measured r.double? path dir m') : m = m' := by
  obtain ⟨content, hlists, hmeasure⟩ := (measured_iff hr).mp hm
  obtain ⟨content', hlists', hmeasure'⟩ := (measured_iff hr).mp hm'
  cases h.lists_unique hlists hlists'
  exact Option.some.inj (hmeasure.symm.trans hmeasure')

theorem measuredOn_unique (hr : r.Strict) (h : entries.Distinct)
    (hm : MeasuredOn r.double? path entries way m)
    (hm' : MeasuredOn r.double? path entries way m') : m = m' := by
  obtain ⟨dir, hway, hm⟩ := hm
  obtain ⟨dir', hway', hm'⟩ := hm'
  cases Entries.Leads.unique h hway hway'
  exact measured_unique hr (h.of_leads hway) hm hm'

theorem finite_measuredWays (double? : Numeral → Option Float) (path : List Component)
    (entries : Entries) :
    (measuredWays (MeasuredOn double? path entries)).Finite := by
  refine entries.finite_ways.subset ?_
  rintro way ⟨m, dir, hway, -⟩
  exact ⟨dir, hway⟩

theorem tallies_gatherFrom (hr : r.Strict) (h : entries.Distinct) :
    Tallies (gatherFrom r.read? path.reverse entries) (MeasuredOn r.double? path entries) :=
  tallies_of_collects (collects_gatherFrom hr) (finite_measuredWays r.double? path entries)
    fun _ _ _ => measuredOn_unique hr h

/-- Files three directories deep are apart: these are the baseline, the variant and the group. -/
theorem apart_of_three_deep (h : ∀ way m, MeasuredOn double? path entries way m → way.length = 3) :
    Apart (MeasuredOn double? path entries) := by
  have hway : ∀ way m, MeasuredOn double? path entries way m →
      [.name (.text m.group), .name (.text m.variant), .name (.text "main")] =
        way.map Component.name := by
    intro way m hm
    have hlength : (way.map Component.name).length = 3 := by rw [List.length_map, h way m hm]
    obtain ⟨dir, -, hmeasured⟩ := hm
    have hsuffix := List.suffix_append path (way.map Component.name)
    exact (List.suffix_of_suffix_length_le hmeasured.saved.ends hsuffix
      hlength.ge).eq_of_length hlength.symm
  intro way way' m m' hm hm' hgroup hvariant
  have hmap : way.map Component.name = way'.map Component.name := by
    rw [← hway way m hm, ← hway way' m' hm', hgroup, hvariant]
  exact (List.map_inj_right fun _ _ => Component.name.inj).mp hmap

/-! ## Other orders -/

theorem countAt_reordered (h : dir.Reordered dir') (hdir : dir.Distinct) :
    CountAt double? dir' x ↔ CountAt double? dir x := by
  have hfind : ∀ content, dir'.find? (.text "benchmark.json") = some (.file content) ↔
      dir.find? (.text "benchmark.json") = some (.file content) := by
    intro content
    rw [hdir.find?_eq_some_iff, (h.distinct hdir).find?_eq_some_iff]
    exact ⟨h.symm.lists_file, h.lists_file⟩
  simp only [CountAt, hfind]

theorem Measured.reordered (h : dir.Reordered dir') (hdir : dir.Distinct)
    (hm : Measured double? path dir m) : Measured double? path dir' m := by
  obtain ⟨content, time, elements, hlists, htime, helements, hops⟩ := hm.value
  have helements' : ElementsAt double? dir' elements := by
    simpa only [ElementsAt, countAt_reordered h hdir] using helements
  exact ⟨hm.saved, content, time, elements, h.lists_file hlists, htime, helements', hops⟩

theorem MeasuredOn.reordered (h : entries.Reordered entries') (hentries : entries.Distinct)
    (hm : MeasuredOn double? path entries way m) : MeasuredOn double? path entries' way m := by
  obtain ⟨dir, hway, hm⟩ := hm
  obtain ⟨dir', hway', hdir⟩ := h.leads hway
  exact ⟨dir', hway', hm.reordered hdir (hentries.of_leads hway)⟩

theorem measuredOn_reordered (h : entries.Reordered entries') (hentries : entries.Distinct) :
    MeasuredOn double? path entries' way m ↔ MeasuredOn double? path entries way m :=
  ⟨.reordered h.symm (h.distinct hentries), .reordered h hentries⟩

/-- The walk comes last to what is listed last. -/
theorem measurements_concat (read? : List Char → Option Document) (path : List Component)
    (siblings rest : Entries) (name : EntryName) (node : Node) :
    measurements read? path siblings (rest.concat name node) =
      measurements read? path siblings rest ++
        measurements read? path siblings (.cons name node .nil) := by
  induction rest using Entries.induction_on_rest with
  | nil => rfl
  | cons first old rest ih =>
    cases old with
    | file content =>
      rw [Entries.concat, measurements, ih, measurements, List.append_assoc]
    | directory inner =>
      rw [Entries.concat, measurements, ih, measurements, List.append_assoc]
    | closed isDirectory => rw [Entries.concat, measurements, ih, measurements]

/-- Any file can be the last that the walk comes to. -/
theorem exists_measured_last (hr : r.Strict) (h : entries.Distinct)
    (hm : MeasuredOn r.double? path entries way m) :
    ∃ entries' found, entries.Reordered entries' ∧
      measurements r.read? path.reverse entries' entries' = found ++ [m] := by
  induction way generalizing path entries with
  | nil =>
    obtain ⟨dir, hway, hm⟩ := hm
    cases Entries.leads_nil.mp hway
    rw [List.map_nil, List.append_nil] at hm
    obtain ⟨content, hlists, -⟩ := (measured_iff hr).mp hm
    obtain ⟨rest, hlast⟩ := Entries.exists_concat hlists
    obtain ⟨content', hlists', hmeasure⟩ := (measured_iff hr).mp (hm.reordered hlast h)
    cases (hlast.distinct h).lists_unique (hlast.lists_file hlists) hlists'
    refine ⟨_, measurements r.read? path.reverse
      (rest.concat estimatesName (.file content)) rest, hlast, ?_⟩
    rw [measurements_concat, measurements, if_pos rfl, hmeasure]
    rfl
  | cons name way ih =>
    obtain ⟨dir, hway, hm⟩ := hm
    obtain ⟨inner, hlists, hway⟩ := Entries.leads_cons.mp hway
    rw [List.map_cons, List.append_cons] at hm
    obtain ⟨inner', found, hinner, hlast⟩ := ih (h.of_lists hlists) ⟨dir, hway, hm⟩
    rw [List.reverse_concat] at hlast
    obtain ⟨rest, hrest⟩ := Entries.exists_concat hlists
    refine ⟨rest.concat name (.directory inner'), measurements r.read? path.reverse
      (rest.concat name (.directory inner')) rest ++ found,
      hrest.trans (Entries.concat_reordered hinner name rest), ?_⟩
    rw [measurements_concat, measurements, hlast, measurements, List.append_nil,
      List.append_assoc]

/-- The order in which directories list their entries makes no difference exactly if files that meet
measure the same. -/
theorem reordered_iff_agree (hr : r.Strict) (h : entries.Distinct) :
    (∀ entries', entries.Reordered entries' →
      gatherFrom r.read? path.reverse entries' = gatherFrom r.read? path.reverse entries) ↔
      Agree (MeasuredOn r.double? path entries) := by
  constructor
  · intro hsame way way' m m' hm hm' hgroup hvariant
    have hvalue : ∀ way m, MeasuredOn r.double? path entries way m →
        (gatherFrom r.read? path.reverse entries).value? m.group m.variant = some m.ops := by
      intro way m hm
      obtain ⟨entries', found, hreordered, hlast⟩ := exists_measured_last hr h hm
      rw [← hsame entries' hreordered, gatherFrom, hlast, resultsOf_concat, Results.value?_add,
        if_pos ⟨rfl, rfl⟩]
    have hops := hvalue way m hm
    rw [hgroup, hvariant, hvalue way' m' hm', Option.some.injEq] at hops
    cases m
    cases m'
    rw [Measurement.mk.injEq]
    exact ⟨hgroup, hvariant, hops.symm⟩
  · intro hagree entries' hreordered
    have hcollects : (gatherFrom r.read? path.reverse entries').Collects
        fun m => ∃ way, MeasuredOn r.double? path entries way m :=
      (collects_gatherFrom hr).congr fun m =>
        exists_congr fun way => measuredOn_reordered hreordered h
    exact hcollects.unique (collects_gatherFrom hr) hagree

/-! ## Files below the directory that a path leads to -/

/-- The directory on a way from the one that a path leads to holds a measurement, whose own path is
not too long. -/
def ReachedOn (double? : Numeral → Option Float) (files : Entries) (root : String)
    (way : List EntryName) (m : Measurement) : Prop :=
  ∃ inner, files.resolve? root = some (.directory inner) ∧
    pathSize root (way ++ [.text "estimates.json"]) ≤ maxPathSize ∧
    MeasuredOn double? (componentsOf root) inner way m

variable {files files' inner inner' : Entries} {root : String}

theorem measuredAt_iff :
    MeasuredAt double? files root m ↔ ∃ way, ReachedOn double? files root way m := by
  constructor
  · rintro ⟨inner, way, dir, hroot, hway, hsize, hm⟩
    exact ⟨way, inner, hroot, hsize, dir, hway, hm⟩
  · rintro ⟨way, inner, hroot, hsize, dir, hway, hm⟩
    exact ⟨inner, way, dir, hroot, hway, hsize, hm⟩

theorem reachedOn_iff (hroot : files.resolve? root = some (.directory inner)) :
    ReachedOn double? files root way m ↔
      pathSize root (way ++ [.text "estimates.json"]) ≤ maxPathSize ∧
        MeasuredOn double? (componentsOf root) inner way m := by
  constructor
  · rintro ⟨inner', hroot', h⟩
    cases hroot.symm.trans hroot'
    exact h
  · intro h
    exact ⟨inner, hroot, h⟩

theorem collects_reached (hr : r.Strict) :
    (gather r.read? files root).Collects fun m => ∃ way, ReachedOn r.double? files root way m :=
  (collects_gather hr).congr fun _ => measuredAt_iff

theorem tallies_gather (hr : r.Strict)
    (h : ∀ inner, files.resolve? root = some (.directory inner) → inner.Distinct) :
    Tallies (gather r.read? files root) (ReachedOn r.double? files root) := by
  refine tallies_of_collects (collects_reached hr) ?_ ?_
  · by_cases hroot : ∃ inner, files.resolve? root = some (.directory inner)
    · obtain ⟨inner, hroot⟩ := hroot
      refine (finite_measuredWays r.double? (componentsOf root) inner).subset ?_
      rintro way ⟨m, hm⟩
      exact ⟨m, ((reachedOn_iff hroot).mp hm).2⟩
    · refine Set.finite_empty.subset ?_
      rintro way ⟨m, inner, hroot', -⟩
      exact hroot ⟨inner, hroot'⟩
  · rintro way m m' ⟨inner, hroot, -, hm⟩ hm'
    exact measuredOn_unique hr (h inner hroot) hm ((reachedOn_iff hroot).mp hm').2

theorem gather_reordered (hr : r.Strict) (hroot : files.resolve? root = some (.directory inner))
    (hroot' : files'.resolve? root = some (.directory inner')) (h : inner.Distinct)
    (hreordered : inner.Reordered inner') (hagree : Agree (ReachedOn r.double? files root)) :
    gather r.read? files' root = gather r.read? files root := by
  have hcollects : (gather r.read? files' root).Collects
      fun m => ∃ way, ReachedOn r.double? files root way m := by
    refine (collects_reached hr).congr fun m => exists_congr fun way => ?_
    rw [reachedOn_iff hroot, reachedOn_iff hroot', measuredOn_reordered hreordered h]
  exact hcollects.unique (collects_reached hr) hagree

/-- **One value for each variant of each group, however many files measure it.** Below any directory
that has no name twice, at any depth, results hold as many values as there are groups and variants
with a measurement; these are as many as the files with measurements exactly if no two files stand
in directories of the same names, and then every file's measurement is held and reported.  The order
in which directories list their entries makes no difference exactly if files that meet measure the
same; so it makes none where files are apart, as they are three directories deep.  The same holds
for the directory that a path leads to and the files that can be reached.  The reader of the files
may be any that reads JSON and nothing else. -/
theorem results_tally_files (r : Reader) (hr : r.Strict) (path : List Component)
    (entries files : Entries) (root : String) (h : entries.Distinct)
    (h' : ∀ inner, files.resolve? root = some (.directory inner) → inner.Distinct) :
    Tallies (gatherFrom r.read? path.reverse entries) (MeasuredOn r.double? path entries) ∧
    ((∀ entries', entries.Reordered entries' →
      gatherFrom r.read? path.reverse entries' = gatherFrom r.read? path.reverse entries) ↔
      Agree (MeasuredOn r.double? path entries)) ∧
    ((∀ way m, MeasuredOn r.double? path entries way m → way.length = 3) →
      Apart (MeasuredOn r.double? path entries)) ∧
    Tallies (gather r.read? files root) (ReachedOn r.double? files root) ∧
    ∀ files' inner inner', files.resolve? root = some (.directory inner) →
      files'.resolve? root = some (.directory inner') → inner.Reordered inner' →
      Agree (ReachedOn r.double? files root) →
      gather r.read? files' root = gather r.read? files root :=
  ⟨tallies_gatherFrom hr h, reordered_iff_agree hr h, apart_of_three_deep, tallies_gather hr h',
    fun _ _ _ hroot hroot' horder => gather_reordered hr hroot hroot' (h' _ hroot) horder⟩

/-- A file with a mean time of eight nanoseconds. -/
def eightNanoseconds : Text.Bytes :=
  Text.toBytes "\x7b\"mean\":\x7b\"point_estimate\":8\x7d\x7d"

/-- A slower measurement. -/
def measuredSlower : Entries := .cons estimatesName (.file eightNanoseconds) .nil

/-- Two directories, and in each of them others around entries. -/
def pair (names : List String) (first second : String × Entries) : Entries :=
  .cons (.text first.1) (.directory (nested names first.2))
    (.cons (.text second.1) (.directory (nested names second.2)) .nil)

theorem distinct_nested (h : entries.Distinct) (names : List String) :
    (nested names entries).Distinct := by
  induction names with
  | nil => exact h
  | cons name names ih =>
    refine .cons rfl ?_ .nil
    rintro _ ⟨⟩
    exact ih

theorem distinct_pair {names : List String} {first second : String × Entries}
    (hne : second.1 ≠ first.1) (h : first.2.Distinct) (h' : second.2.Distinct) :
    (pair names first second).Distinct := by
  have hfree : (Entries.cons (.text second.1) (.directory (nested names second.2)) .nil).find?
      (.text first.1) = none :=
    Entries.find?_cons_eq_none_iff.mpr ⟨fun heq => hne (EntryName.text.inj heq), rfl⟩
  refine .cons hfree ?_ (.cons rfl ?_ .nil)
  · rintro _ ⟨⟩
    exact distinct_nested h names
  · rintro _ ⟨⟩
    exact distinct_nested h' names

theorem distinct_single (content : Text.Bytes) :
    (Entries.cons estimatesName (.file content) .nil).Distinct :=
  .cons rfl nofun .nil

/-- A directory with nothing but a measurement holds it. -/
theorem measured_single (hr : r.Strict) {content : Text.Bytes} {time : Float}
    (hsaved : Saved path group variant) (htime : TimeAt r.double? content time) :
    Measured r.double? path (.cons estimatesName (.file content) .nil)
      ⟨group, variant, 1.0 * 1e9 / time⟩ :=
  ⟨hsaved, content, time, 1.0, .first, htime, (elementsAt_iff hr).mpr rfl, rfl⟩

theorem length_of_nested {names : List String} {content content' : Text.Bytes}
    (hway : (nested names (.cons estimatesName (.file content) .nil)).Leads way dir)
    (hlists : dir.Lists estimatesName (.file content')) : way.length = names.length := by
  induction names generalizing way with
  | nil =>
    cases hway with
    | here => rfl
    | inside h _ =>
      rcases Entries.lists_cons.mp h with ⟨-, heq⟩ | h
      · cases heq
      · cases h
  | cons name names ih =>
    cases hway with
    | here =>
      rcases Entries.lists_cons.mp hlists with ⟨-, heq⟩ | h
      · cases heq
      · cases h
    | inside h hway =>
      rcases Entries.lists_cons.mp h with ⟨-, heq⟩ | h
      · cases heq
        exact congrArg Nat.succ (ih hway)
      · cases h

theorem length_of_pair {names : List String} {first second : String} {content content' : Text.Bytes}
    (hm : MeasuredOn double? path (pair names (first, .cons estimatesName (.file content) .nil)
      (second, .cons estimatesName (.file content') .nil)) way m) :
    way.length = names.length + 1 := by
  obtain ⟨dir, hway, hm⟩ := hm
  obtain ⟨_, _, _, hlists, -⟩ := hm.value
  cases hway with
  | here =>
    rw [pair, Entries.lists_cons, Entries.lists_cons] at hlists
    obtain ⟨-, heq⟩ | ⟨-, heq⟩ | h := hlists
    · cases heq
    · cases heq
    · cases h
  | inside h hway =>
    rw [pair, Entries.lists_cons, Entries.lists_cons] at h
    obtain ⟨-, heq⟩ | ⟨-, heq⟩ | h := h
    · cases heq
      exact congrArg Nat.succ (length_of_nested hway hlists)
    · cases heq
      exact congrArg Nat.succ (length_of_nested hway hlists)
    · cases h

theorem results_tally_files_two_groups :
    let path := componentsOf "target/criterion"
    let entries := pair ["swap", "main"] ("fetch", measuredOnce) ("load", measuredSlower)
    let entries' := pair ["swap", "main"] ("load", measuredSlower) ("fetch", measuredOnce)
    let files := nested ["target", "criterion"] entries
    let files' := nested ["target", "criterion"] entries'
    (gatherFrom Document.read? path.reverse entries).size =
      (measuredWays (MeasuredOn Numeral.double? path entries)).ncard ∧
    gatherFrom Document.read? path.reverse entries' =
      gatherFrom Document.read? path.reverse entries ∧
    (gather Document.read? files "target/criterion").size =
      (measuredWays (ReachedOn Numeral.double? files "target/criterion")).ncard ∧
    gather Document.read? files' "target/criterion" =
      gather Document.read? files "target/criterion" := by
  intro path entries entries' files files'
  have hdistinct : entries.Distinct :=
    distinct_pair (by decide) (distinct_single _) (distinct_single _)
  have hroot : files.resolve? "target/criterion" = some (.directory entries) := rfl
  have hinner : ∀ inner, files.resolve? "target/criterion" = some (.directory inner) →
      inner.Distinct := by
    intro inner h
    cases hroot.symm.trans h
    exact hdistinct
  obtain ⟨htallies, horder, hdeep, htallies', horder'⟩ :=
    results_tally_files documentReader documentReader_strict path entries files "target/criterion"
      hdistinct hinner
  have hapart : Apart (MeasuredOn Numeral.double? path entries) := hdeep fun _ _ => length_of_pair
  have hapart' : Apart (ReachedOn Numeral.double? files "target/criterion") := by
    intro way way' m m' hm hm'
    exact hapart way way' m m' ((reachedOn_iff hroot).mp hm).2 ((reachedOn_iff hroot).mp hm').2
  exact ⟨htallies.size_eq_iff.mpr hapart, horder.mpr (htallies.agree hapart) _ .swap,
    htallies'.size_eq_iff.mpr hapart',
    horder' files' entries entries' hroot rfl .swap (htallies'.agree hapart')⟩

/-- Two files meet in one value: that of the file that is listed last. -/
theorem measurement_overwritten :
    let entries := pair ["fetch", "swap", "main"] ("a", measuredOnce) ("b", measuredSlower)
    let entries' := pair ["fetch", "swap", "main"] ("b", measuredSlower) ("a", measuredOnce)
    let files := nested ["target", "criterion"] entries
    let files' := nested ["target", "criterion"] entries'
    (gather Document.read? files "target/criterion").size ≠
      (measuredWays (ReachedOn Numeral.double? files "target/criterion")).ncard ∧
    entries.Reordered entries' ∧
    gather Document.read? files' "target/criterion" ≠
      gather Document.read? files "target/criterion" := by
  intro entries entries' files files'
  have hroot : files.resolve? "target/criterion" = some (.directory entries) := rfl
  have htallies : Tallies (gather Document.read? files "target/criterion")
      (ReachedOn Numeral.double? files "target/criterion") := by
    refine tallies_gather documentReader_strict fun inner h => ?_
    cases hroot.symm.trans h
    exact distinct_pair (by decide) (distinct_single _) (distinct_single _)
  have hsaved : ∀ top : String, Saved (componentsOf "target/criterion" ++
      [EntryName.text top, .text "fetch", .text "swap", .text "main"].map .name)
      "fetch" "swap" := by
    intro top
    exact ⟨⟨[.name (.text "target"), .name (.text "criterion"), .name (.text top)], rfl⟩,
      by decide, by decide⟩
  have hfour : ReachedOn Numeral.double? files "target/criterion"
      [.text "a", .text "fetch", .text "swap", .text "main"] ⟨"fetch", "swap", 1.0 * 1e9 / 4.0⟩ :=
    (reachedOn_iff hroot).mpr ⟨by decide, measuredOnce,
      .inside .first (.inside .first (.inside .first (.inside .first .here))),
      measured_single documentReader_strict (hsaved "a") timeAt_fourNanoseconds⟩
  have height : ReachedOn Numeral.double? files "target/criterion"
      [.text "b", .text "fetch", .text "swap", .text "main"] ⟨"fetch", "swap", 1.0 * 1e9 / 8.0⟩ :=
    (reachedOn_iff hroot).mpr ⟨by decide, measuredSlower,
      .inside (.later .first) (.inside .first (.inside .first (.inside .first .here))),
      measured_single documentReader_strict (hsaved "b")
        ((meanTime?_eq_some_iff documentReader_strict).mp (by decide +kernel))⟩
  refine ⟨fun hsize => ?_, .swap, by decide +kernel⟩
  have hapart := htallies.size_eq_iff.mp hsize
  exact absurd (hapart _ _ _ _ hfour height rfl rfl) (by decide)

end OrderedAtomics.Bench
