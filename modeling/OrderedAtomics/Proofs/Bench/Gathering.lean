import OrderedAtomics.Proofs.Bench.Results
import OrderedAtomics.Proofs.Files.Below
import OrderedAtomics.Proofs.Json.Strict
import OrderedAtomics.Proofs.Text.Utf8

/-
  What is gathered from a directory tree.  A measurement is described by the names of the
  directories it stands in and by what its two files say after the grammar of JSON (`Measured`), and
  what is described is found with any strict reader (`measured_iff`).  The walk finds the
  measurements of a directory and of those below it (`mem_measurements`), of the reachable part
  those with paths that are not too long (`measuredBelow_within`).  Any other entry may be added
  anywhere, because it changes neither what the walk finds nor the number of elements beside a
  measurement (`Padded`).
-/
namespace OrderedAtomics.Bench

open OrderedAtomics.Files OrderedAtomics.Json

/-- The member of a document with a name; the last one when the name is repeated. -/
def MemberAt (document : Document) (name : String) (value : Document) : Prop :=
  ∃ before after, document = .object (before ++ (name, value) :: after) ∧
    ∀ m ∈ after, m.1 ≠ name

section Descriptions

-- The double that a numeral comes out as is the only thing that is left to the reader.
variable (double? : Numeral → Option Float)

/-- A file is JSON with a number under a name within a name. -/
def NumberAt (content : Text.Bytes) (outer inner : String) (x : Float) : Prop :=
  ∃ (text : String) (document object : Document), content = Text.toBytes text ∧
    Spells double? maxDepth (.value document) text.toList ∧ MemberAt document outer object ∧
    MemberAt object inner (.number x)

/-- A file gives a positive mean time. -/
def TimeAt (content : Text.Bytes) (time : Float) : Prop :=
  NumberAt double? content "mean" "point_estimate" time ∧ time > 0.0

/-- A directory says how many elements an iteration handles. -/
def CountAt (dir : Entries) (elements : Float) : Prop :=
  ∃ content, dir.find? (.text "benchmark.json") = some (.file content) ∧
    NumberAt double? content "throughput" "Elements" elements

/-- An iteration handles as many elements as the directory says, and one if it does not say. -/
def ElementsAt (dir : Entries) (elements : Float) : Prop :=
  CountAt double? dir elements ∨ elements = 1.0 ∧ ¬ ∃ x, CountAt double? dir x

/-- A path is that of the saved baseline of a variant of a group. -/
structure Saved (path : List Component) (group variant : String) : Prop where
  ends : [.name (.text group), .name (.text variant), .name (.text "main")] <:+ path
  group_ne : group ≠ "report"
  variant_ne : variant ≠ "report"

/-- The directory at a path holds a measurement. -/
structure Measured (path : List Component) (dir : Entries) (m : Measurement) : Prop where
  saved : Saved path m.group m.variant
  value : ∃ content time elements, dir.Lists (.text "estimates.json") (.file content) ∧
    TimeAt double? content time ∧ ElementsAt double? dir elements ∧ m.ops = elements * 1e9 / time

/-- The directory at a path, or one below it, holds a measurement. -/
def MeasuredBelow (path : List Component) (entries : Entries) (m : Measurement) : Prop :=
  ∃ way dir, entries.Leads way dir ∧ Measured double? (path ++ way.map .name) dir m

end Descriptions

variable {path : List Component} {dir siblings siblings' entries entries' inner : Entries}
  {content : Text.Bytes} {group variant outer name : String} {time x : Float} {m : Measurement}
  {double? : Numeral → Option Float} {r : Reader}

/-! ## What the readers find -/

theorem member?_eq_some_iff {document value : Document} :
    document.member? name = some value ↔ MemberAt document name value := by
  cases document with
  | object members =>
    simp only [Document.member?, MemberAt, Option.map_eq_some_iff, Prod.exists, exists_eq_right,
      List.find?_eq_some_iff_append, Document.object.injEq, beq_iff_eq, Bool.not_eq_true',
      beq_eq_false_iff_ne]
    constructor
    · rintro ⟨_, rfl, after, before, hmembers, hafter⟩
      refine ⟨before.reverse, after.reverse, ?_, fun m hm => hafter m (List.mem_reverse.mp hm)⟩
      rw [← List.reverse_reverse members, hmembers, List.reverse_append, List.reverse_cons,
        List.append_assoc, List.singleton_append]
    · rintro ⟨before, after, rfl, hafter⟩
      refine ⟨name, rfl, after.reverse, before.reverse, ?_,
        fun m hm => hafter m (List.mem_reverse.mp hm)⟩
      rw [List.reverse_append, List.reverse_cons, List.append_assoc, List.singleton_append]
  | _ =>
    refine iff_of_false nofun ?_
    rintro ⟨before, after, heq, -⟩
    cases heq

theorem number?_eq_some_iff {document : Document} :
    document.number? = some x ↔ document = .number x := by
  cases document <;> simp [Document.number?]

theorem numberAt_iff (hr : r.Strict) {name : String} : NumberAt r.double? content outer name x ↔
    ∃ text, Text.Utf8.decode? content = some text ∧ ∃ document,
      r.read? text = some document ∧ ∃ object, document.member? outer = some object ∧
        ∃ value, object.member? name = some value ∧ value.number? = some x := by
  simp only [number?_eq_some_iff, member?_eq_some_iff, Text.Utf8.decode?_eq_some_iff,
    hr.read?_eq_some_iff]
  constructor
  · rintro ⟨text, document, object, hcontent, hspells, houter, hname⟩
    refine ⟨text.toList, ?_, document, hspells, object, houter, _, hname, rfl⟩
    rw [hcontent, String.ofList_toList]
  · rintro ⟨text, hcontent, document, hspells, object, houter, _, hname, rfl⟩
    refine ⟨String.ofList text, document, object, hcontent, ?_, houter, hname⟩
    rw [String.toList_ofList]
    exact hspells

theorem meanTime?_eq_some_iff (hr : r.Strict) :
    meanTime? r.read? content = some time ↔ TimeAt r.double? content time := by
  rw [TimeAt, numberAt_iff hr, meanTime?]
  simp only [bind, Option.bind_eq_some_iff, Option.ite_none_right_eq_some, Option.some.injEq]
  constructor
  · rintro ⟨text, htext, document, hread, object, houter, value, hname, _, hvalue, hpos, rfl⟩
    exact ⟨⟨text, htext, document, hread, object, houter, value, hname, hvalue⟩, hpos⟩
  · rintro ⟨⟨text, htext, document, hread, object, houter, value, hname, hvalue⟩, hpos⟩
    exact ⟨text, htext, document, hread, object, houter, value, hname, _, hvalue, hpos, rfl⟩

theorem textOf?_eq_some_iff {name : EntryName} {text : List Char} :
    dir.textOf? name = some text ↔
      ∃ content, dir.find? name = some (.file content) ∧ Text.Utf8.decode? content = some text := by
  rw [Entries.textOf?]
  split
  · next content h => simp [h]
  · next h =>
    refine iff_of_false nofun ?_
    rintro ⟨content, hfind, -⟩
    exact h content hfind

theorem elements?_eq_some_iff (hr : r.Strict) :
    elements? r.read? dir = some x ↔ CountAt r.double? dir x := by
  rw [elements?]
  simp only [CountAt, bind, Option.bind_eq_some_iff, numberAt_iff hr, textOf?_eq_some_iff]
  constructor
  · rintro ⟨text, ⟨content, hfind, htext⟩, h⟩
    exact ⟨content, hfind, text, htext, h⟩
  · rintro ⟨content, hfind, text, htext, h⟩
    exact ⟨text, ⟨content, hfind, htext⟩, h⟩

theorem countAt_cons {name : EntryName} {node : Node} {rest : Entries} :
    CountAt double? (.cons name node rest) x ↔ if name = .text "benchmark.json" then
      ∃ content, node = .file content ∧ NumberAt double? content "throughput" "Elements" x
      else CountAt double? rest x := by
  rw [CountAt, Entries.find?]
  split
  · simp only [Option.some.injEq]
  · rfl

theorem elementsAt_iff (hr : r.Strict) :
    ElementsAt r.double? dir x ↔ x = (elements? r.read? dir).getD 1.0 := by
  simp only [ElementsAt, ← elements?_eq_some_iff hr]
  cases elements? r.read? dir <;> simp [eq_comm]

theorem text?_eq_some_iff {c : Component} : c.text? = some name ↔ c = .name (.text name) := by
  rcases c with _ | _ | _ | (s | bytes) <;> simp [Component.text?, EntryName.text?]

theorem keyOf?_cons {c c' c'' : Component} {rest : List Component} :
    keyOf? (c :: c' :: c'' :: rest) = some (group, variant) ↔ c.text? = some "main" ∧
      c'.text? = some variant ∧ c''.text? = some group ∧ group ≠ "report" ∧ variant ≠ "report" := by
  rw [keyOf?]
  split
  · next saved variant' group' hsaved hvariant hgroup =>
    rw [hsaved, hvariant, hgroup, Option.ite_none_right_eq_some]
    simp only [baseline, reportName, Option.some.injEq, Prod.mk.injEq]
    constructor
    · rintro ⟨⟨rfl, hvariant, hgroup⟩, rfl, rfl⟩
      exact ⟨rfl, rfl, rfl, hgroup, hvariant⟩
    · rintro ⟨rfl, rfl, rfl, hgroup, hvariant⟩
      exact ⟨⟨rfl, hvariant, hgroup⟩, rfl, rfl⟩
  · next h =>
    refine iff_of_false nofun ?_
    rintro ⟨hsaved, hvariant, hgroup, -⟩
    exact h _ _ _ hsaved hvariant hgroup

theorem keyOf?_eq_some_iff :
    keyOf? path.reverse = some (group, variant) ↔ Saved path group variant := by
  have hsaved : Saved path group variant ↔
      [.name (.text "main"), .name (.text variant), .name (.text group)] <+: path.reverse ∧
        group ≠ "report" ∧ variant ≠ "report" := by
    rw [← List.reverse_suffix, List.reverse_reverse]
    exact ⟨fun ⟨h, h', h''⟩ => ⟨h, h', h''⟩, fun ⟨h, h', h''⟩ => ⟨h, h', h''⟩⟩
  rw [hsaved]
  rcases path.reverse with _ | ⟨c, _ | ⟨c', _ | ⟨c'', rest⟩⟩⟩
  · simp [keyOf?]
  · simp [keyOf?]
  · simp [keyOf?]
  · rw [keyOf?_cons, text?_eq_some_iff, text?_eq_some_iff, text?_eq_some_iff]
    simp only [List.cons_prefix_cons, List.nil_prefix, and_true, and_assoc, eq_comm]

theorem measure?_eq_some_iff (hr : r.Strict) :
    measure? r.read? path.reverse dir content = some m ↔ Saved path m.group m.variant ∧
      ∃ time, TimeAt r.double? content time ∧
        m.ops = opsPerSecond ((elements? r.read? dir).getD 1.0) time := by
  simp only [measure?, bind, Option.bind_eq_some_iff, meanTime?_eq_some_iff hr]
  constructor
  · rintro ⟨⟨group, variant⟩, hkey, time, htime, h⟩
    cases h
    exact ⟨keyOf?_eq_some_iff.mp hkey, time, htime, rfl⟩
  · rintro ⟨hsaved, time, htime, hops⟩
    refine ⟨(m.group, m.variant), keyOf?_eq_some_iff.mpr hsaved, time, htime, ?_⟩
    rw [← hops]
    rfl

/-- Whether a file measures anything is up to its path and its own content. -/
theorem measure?_eq_none_iff (hr : r.Strict) :
    measure? r.read? path.reverse dir content = none ↔
      ¬ ((∃ group variant, Saved path group variant) ∧ ∃ time, TimeAt r.double? content time) := by
  rw [Option.eq_none_iff_forall_ne_some]
  constructor
  · rintro h ⟨⟨group, variant, hsaved⟩, time, htime⟩
    exact h ⟨group, variant, _⟩ ((measure?_eq_some_iff hr).mpr ⟨hsaved, time, htime, rfl⟩)
  · intro h m hm
    obtain ⟨hsaved, time, htime, -⟩ := (measure?_eq_some_iff hr).mp hm
    exact h ⟨⟨_, _, hsaved⟩, time, htime⟩

theorem measured_iff (hr : r.Strict) : Measured r.double? path dir m ↔ ∃ content,
    dir.Lists estimatesName (.file content) ∧
      measure? r.read? path.reverse dir content = some m := by
  simp only [measure?_eq_some_iff hr]
  constructor
  · rintro ⟨hsaved, content, time, elements, hlists, htime, helements, hops⟩
    rw [elementsAt_iff hr] at helements
    exact ⟨content, hlists, hsaved, time, htime, helements ▸ hops⟩
  · rintro ⟨content, hlists, hsaved, time, htime, hops⟩
    exact ⟨hsaved, content, time, _, hlists, htime, (elementsAt_iff hr).mpr rfl, hops⟩

/-! ## The walk -/

theorem measuredBelow_iff : MeasuredBelow double? path entries m ↔
    Measured double? path entries m ∨ ∃ name inner, entries.Lists name (.directory inner) ∧
      MeasuredBelow double? (path ++ [.name name]) inner m := by
  simp only [MeasuredBelow]
  constructor
  · rintro ⟨way, dir, hway, hm⟩
    cases hway with
    | here =>
      rw [List.map_nil, List.append_nil] at hm
      exact .inl hm
    | inside h hway =>
      rw [List.map_cons, List.append_cons] at hm
      exact .inr ⟨_, _, h, _, dir, hway, hm⟩
  · rintro (hm | ⟨name, inner, h, way, dir, hway, hm⟩)
    · refine ⟨[], entries, .here, ?_⟩
      rw [List.map_nil, List.append_nil]
      exact hm
    · refine ⟨name :: way, dir, .inside h hway, ?_⟩
      rw [List.map_cons, List.append_cons]
      exact hm

/-- The walk finds what the files among the entries measure, and what lies below the directories
among them. -/
theorem mem_measurements (hr : r.Strict) : m ∈ measurements r.read? path.reverse siblings entries ↔
    (∃ content, entries.Lists estimatesName (.file content) ∧
      measure? r.read? path.reverse siblings content = some m) ∨
    ∃ name inner, entries.Lists name (.directory inner) ∧
      MeasuredBelow r.double? (path ++ [.name name]) inner m := by
  generalize hreverse : path.reverse = reversed
  fun_induction measurements r.read? reversed siblings entries generalizing path with
  | case1 => simp [Entries.not_lists_nil]
  | case2 reversed siblings name inner rest ih ihrest =>
    have hinner : (path ++ [Component.name name]).reverse = .name name :: reversed := by
      rw [List.reverse_append, hreverse]
      rfl
    have hbelow : m ∈ measurements r.read? (.name name :: reversed) inner inner ↔
        MeasuredBelow r.double? (path ++ [.name name]) inner m := by
      rw [ih hinner, measuredBelow_iff, measured_iff hr, hinner]
    rw [List.mem_append, hbelow, ihrest hreverse, Entries.exists_lists_file_cons,
      Entries.exists_lists_directory_cons]
    simp only [reduceCtorEq, false_and, and_false, exists_false, false_or, Node.directory.injEq,
      exists_eq_left']
    exact or_left_comm
  | case3 reversed siblings name isDirectory rest ih =>
    rw [ih hreverse, Entries.exists_lists_file_cons, Entries.exists_lists_directory_cons]
    simp only [reduceCtorEq, false_and, and_false, exists_false, false_or]
  | case4 reversed siblings name content rest ih =>
    have hfile : m ∈ (if name = estimatesName then
        (measure? r.read? reversed siblings content).toList else []) ↔
          name = estimatesName ∧ measure? r.read? reversed siblings content = some m := by
      split <;> simp [*]
    rw [List.mem_append, hfile, ih hreverse, Entries.exists_lists_file_cons,
      Entries.exists_lists_directory_cons]
    simp only [reduceCtorEq, false_and, exists_false, false_or, Node.file.injEq, exists_and_left,
      exists_eq_left', or_assoc]

theorem mem_measurements_self (hr : r.Strict) :
    m ∈ measurements r.read? path.reverse entries entries ↔
      MeasuredBelow r.double? path entries m := by
  rw [mem_measurements hr, measuredBelow_iff, measured_iff hr]

theorem measurements_eq_nil_iff (hr : r.Strict) :
    measurements r.read? path.reverse entries entries = [] ↔
      ¬ ∃ m, MeasuredBelow r.double? path entries m := by
  simp only [List.eq_nil_iff_forall_not_mem, mem_measurements_self hr, not_exists]

theorem collects_gatherFrom (hr : r.Strict) :
    (gatherFrom r.read? path.reverse entries).Collects (MeasuredBelow r.double? path entries) :=
  (collects_resultsOf _).congr fun _ => mem_measurements_self hr

/-! ## The reachable part -/

/-- The two files of a measurement can be reached together. -/
theorem countAt_within {room : Nat} (hroom : estimatesName.size < room) :
    CountAt double? (entries.within room) x ↔ CountAt double? entries x := by
  have hbenchmark : (EntryName.text "benchmark.json").size < room := hroom
  simp only [CountAt, Entries.find?_within_file_iff, hbenchmark, true_and]

theorem measured_within {room : Nat} : Measured double? path (entries.within room) m ↔
    estimatesName.size < room ∧ Measured double? path entries m := by
  have helementsAt : estimatesName.size < room → ∀ elements,
      ElementsAt double? (entries.within room) elements ↔ ElementsAt double? entries elements := by
    intro hroom elements
    simp only [ElementsAt, countAt_within hroom]
  constructor
  · rintro ⟨hsaved, content, time, elements, hlists, htime, helements, hops⟩
    obtain ⟨hroom, hlists⟩ := Entries.lists_within_file_iff.mp hlists
    exact ⟨hroom, hsaved, content, time, elements, hlists, htime,
      (helementsAt hroom elements).mp helements, hops⟩
  · rintro ⟨hroom, hsaved, content, time, elements, hlists, htime, helements, hops⟩
    exact ⟨hsaved, content, time, elements, Entries.lists_within_file_iff.mpr ⟨hroom, hlists⟩,
      htime, (helementsAt hroom elements).mpr helements, hops⟩

theorem measuredBelow_within {room : Nat} :
    MeasuredBelow double? path (entries.within room) m ↔ ∃ way dir, entries.Leads way dir ∧
      sizeOfNames (way ++ [estimatesName]) ≤ room ∧
      Measured double? (path ++ way.map .name) dir m := by
  have hfits : ∀ way, sizeOfNames (way ++ [estimatesName]) ≤ room ↔
      sizeOfNames way ≤ room ∧ estimatesName.size < room - sizeOfNames way := by
    intro way
    rw [sizeOfNames_append, sizeOfNames, sizeOfNames]
    omega
  simp only [MeasuredBelow, hfits]
  constructor
  · rintro ⟨way, dir, hway, hm⟩
    obtain ⟨hsize, whole, hwhole, rfl⟩ := Entries.leads_within_iff.mp hway
    obtain ⟨hroom, hm⟩ := measured_within.mp hm
    exact ⟨way, whole, hwhole, ⟨hsize, hroom⟩, hm⟩
  · rintro ⟨way, whole, hwhole, ⟨hsize, hroom⟩, hm⟩
    exact ⟨way, _, Entries.leads_within_iff.mpr ⟨hsize, whole, hwhole, rfl⟩,
      measured_within.mpr ⟨hroom, hm⟩⟩

/-! ## What does not count -/

/-- An entry of the directory at a path has to do with a measurement: it holds one, or gives the
number of elements for one, or one lies below it. -/
def Counts (double? : Numeral → Option Float) (path : List Component) (dir : Entries)
    (name : EntryName) : Node → Prop
  | .file content =>
    name = .text "estimates.json" ∧
      (∃ group variant, Saved path group variant) ∧ (∃ time, TimeAt double? content time) ∨
    name = .text "benchmark.json" ∧
      (∃ m, Measured double? path dir m) ∧ ∃ x, NumberAt double? content "throughput" "Elements" x
  | .directory inner => ∃ m, MeasuredBelow double? (path ++ [.name name]) inner m
  | .closed _ => False

theorem Counts.of_within {room room' : Nat} {name : EntryName} {node : Node}
    (h : Counts double? path (dir.within room) name (node.within room')) :
    Counts double? path dir name node := by
  cases node with
  | file content =>
    refine h.imp id fun ⟨hname, ⟨m, hm⟩, hx⟩ => ⟨hname, ⟨m, ?_⟩, hx⟩
    exact (measured_within.mp hm).2
  | directory inner =>
    obtain ⟨m, hm⟩ := h
    obtain ⟨way, whole, hway, -, hm⟩ := measuredBelow_within.mp hm
    exact ⟨m, way, whole, hway, hm⟩
  | closed isDirectory => exact h

/-- `Padded double? path dir entries entries'`: to entries of the directory `dir` at a path, or
below it, some were added, in any places, that do not count. -/
inductive Padded (double? : Numeral → Option Float) :
    List Component → Entries → Entries → Entries → Prop
  | nil {path : List Component} {dir : Entries} : Padded double? path dir .nil .nil
  | cons {path : List Component} {dir rest rest' : Entries} {name : EntryName} {node : Node}
      (hrest : Padded double? path dir rest rest') :
      Padded double? path dir (.cons name node rest) (.cons name node rest')
  | directory {path : List Component} {dir inner inner' rest rest' : Entries} {name : EntryName}
      (hinner : Padded double? (path ++ [.name name]) inner inner inner')
      (hrest : Padded double? path dir rest rest') :
      Padded double? path dir (.cons name (.directory inner) rest)
        (.cons name (.directory inner') rest')
  | extra {path : List Component} {dir rest rest' : Entries} {name : EntryName} {node : Node}
      (hcounts : ¬ Counts double? path dir name node) (hname : rest.find? name = none)
      (hrest : Padded double? path dir rest rest') :
      Padded double? path dir rest (.cons name node rest')

namespace Padded

/-- As long as the directory holds a measurement, it keeps the number of elements. -/
theorem countAt_iff (h : Padded double? path dir entries entries')
    (hm : ∃ m, Measured double? path dir m) :
    CountAt double? entries' x ↔ CountAt double? entries x := by
  induction h with
  | nil => rfl
  | cons hrest ih => simp only [countAt_cons, ih hm]
  | directory hinner hrest _ ih => simp only [countAt_cons, reduceCtorEq, false_and, ih hm]
  | @extra path dir rest rest' name node hcounts hname hrest ih =>
    rw [countAt_cons]
    split
    · next heq =>
      refine iff_of_false ?_ ?_
      · rintro ⟨content, rfl, hx⟩
        exact hcounts (.inr ⟨heq, hm, x, hx⟩)
      · rintro ⟨content, hfind, -⟩
        rw [← heq, hname] at hfind
        cases hfind
    · exact ih hm

/-- The files that a directory listed before measure the same as before. -/
theorem measure?_eq (hr : r.Strict) (h : Padded r.double? path dir dir entries')
    (hlists : dir.Lists estimatesName (.file content)) :
    measure? r.read? path.reverse entries' content =
      measure? r.read? path.reverse dir content := by
  by_cases hm : ∃ m, Measured r.double? path dir m
  · have helements : elements? r.read? entries' = elements? r.read? dir := Option.ext fun x => by
      rw [elements?_eq_some_iff hr, elements?_eq_some_iff hr, h.countAt_iff hm]
    rw [measure?, measure?, helements]
  · -- another number of elements may stand beside the file now, but it did not measure anything
    have hnone : measure? r.read? path.reverse dir content = none :=
      Option.eq_none_iff_forall_ne_some.mpr fun m h =>
        hm ⟨m, (measured_iff hr).mpr ⟨content, hlists, h⟩⟩
    rw [hnone, measure?_eq_none_iff hr]
    exact (measure?_eq_none_iff hr).mp hnone

theorem measurements_eq (hr : r.Strict) (h : Padded r.double? path dir entries entries')
    (hsame : ∀ content, entries.Lists estimatesName (.file content) →
      measure? r.read? path.reverse siblings' content =
        measure? r.read? path.reverse siblings content) :
    measurements r.read? path.reverse siblings' entries' =
      measurements r.read? path.reverse siblings entries := by
  -- the siblings change on the way down: below a directory they are its own entries
  induction h generalizing siblings siblings' with
  | nil => rfl
  | @cons path dir rest rest' name node hrest ih =>
    have hrest := ih fun content h => hsame content (.later h)
    cases node with
    | file content =>
      rw [measurements, measurements, hrest]
      split
      · next heq => rw [hsame content (heq ▸ .first)]
      · rfl
    | directory inner | closed isDirectory => rw [measurements, measurements, hrest]
  | @directory path dir inner inner' rest rest' name hinner hrest ihinner ih =>
    have hreverse : (path ++ [Component.name name]).reverse = .name name :: path.reverse :=
      List.reverse_concat
    rw [measurements, measurements, ih fun content h => hsame content (.later h), ← hreverse,
      ihinner fun content h => hinner.measure?_eq hr h]
  | @extra path dir rest rest' name node hcounts hname hrest ih =>
    cases node with
    | file content =>
      rw [measurements, ih hsame]
      split
      · next heq =>
        have hnone : measure? r.read? path.reverse siblings' content = none :=
          (measure?_eq_none_iff hr).mpr fun h => hcounts (.inl ⟨heq, h⟩)
        rw [hnone]
        rfl
      · rfl
    | directory inner =>
      have hnone : measurements r.read? (.name name :: path.reverse) inner inner = [] := by
        rw [← List.reverse_concat]
        exact (measurements_eq_nil_iff hr).mpr hcounts
      rw [measurements, ih hsame, hnone, List.nil_append]
    | closed isDirectory => rw [measurements, ih hsame]

/-- Entries that do not count do not change what is gathered. -/
theorem gatherFrom_eq (hr : r.Strict) (h : Padded r.double? path entries entries entries') :
    gatherFrom r.read? path.reverse entries' = gatherFrom r.read? path.reverse entries :=
  congrArg resultsOf (h.measurements_eq hr fun _ => h.measure?_eq hr)

theorem within (h : Padded double? path dir entries entries') (room : Nat) :
    Padded double? path (dir.within room) (entries.within room) (entries'.within room) := by
  induction h generalizing room with
  | nil => exact .nil
  | cons hrest ih =>
    rw [Entries.within_cons, Entries.within_cons]
    split
    · exact .cons (ih room)
    · exact ih room
  | directory hinner hrest ihinner ih =>
    rw [Entries.within_cons, Entries.within_cons]
    split
    · exact .directory (ihinner _) (ih room)
    · exact ih room
  | @extra path dir rest rest' name node hcounts hname hrest ih =>
    rw [Entries.within_cons]
    split
    · refine .extra (fun h => hcounts h.of_within) ?_ (ih room)
      rw [Entries.find?_within, hname]
      exact ite_self none
    · exact ih room

end Padded

/-! ## Gathering from a path -/

/-- A measurement in or below the directory at a path, whose own path is not too long. -/
def MeasuredAt (double? : Numeral → Option Float) (files : Entries) (root : String)
    (m : Measurement) : Prop :=
  ∃ inner way dir, files.resolve? root = some (.directory inner) ∧ inner.Leads way dir ∧
    pathSize root (way ++ [.text "estimates.json"]) ≤ maxPathSize ∧
    Measured double? (componentsOf root ++ way.map .name) dir m

variable {files files' inner' : Entries} {root : String}

theorem gather_eq (h : files.resolve? root = some (.directory inner)) :
    gather r.read? files root =
      gatherFrom r.read? (componentsOf root).reverse (inner.within (roomBelow root)) := by
  rw [gather, h]

theorem size_le_of_resolve? {node : Node} (h : files.resolve? root = some node) :
    root.utf8ByteSize ≤ maxPathSize := by
  rw [Entries.resolve?, Option.ite_none_left_eq_some] at h
  exact Nat.not_lt.mp fun hlt => h.1 (.inr hlt)

theorem collects_gather (hr : r.Strict) :
    (gather r.read? files root).Collects (MeasuredAt r.double? files root) := by
  by_cases hroot : ∃ inner, files.resolve? root = some (.directory inner)
  · obtain ⟨inner, hroot⟩ := hroot
    rw [gather_eq hroot]
    refine (collects_gatherFrom hr).congr fun m => ?_
    simp only [MeasuredAt, measuredBelow_within, hroot,
      sizeOfNames_le_roomBelow_iff (size_le_of_resolve? hroot)]
    constructor
    · rintro ⟨way, dir, h⟩
      exact ⟨inner, way, dir, rfl, h⟩
    · rintro ⟨_, way, dir, ⟨⟩, h⟩
      exact ⟨way, dir, h⟩
  · have hnone : gather r.read? files root = resultsOf [] := by
      rw [gather]
      split
      · next inner h => exact absurd ⟨inner, h⟩ hroot
      · rfl
    rw [hnone]
    refine (collects_resultsOf []).congr fun m => iff_of_false List.not_mem_nil ?_
    rintro ⟨inner, -, -, h, -⟩
    exact hroot ⟨inner, h⟩

/-- **Exactly the measurements of the saved baseline are gathered.** From any directory, at any path
and to any depth, the results hold a value for a group and a variant exactly if a file
`estimates.json` below stands in their directories and that of the baseline and gives a positive
mean time; each value comes from one of these files and the `benchmark.json` beside it.  Entries
that do not count make no difference, wherever they are added.  The same holds for the directory
that a path leads to, for the files whose own paths are not too long to be read.  The reader of the
files may be any that reads JSON and nothing else. -/
theorem gathers_saved_measurements (r : Reader) (hr : r.Strict) (path : List Component)
    (entries files : Entries) (root : String) :
    (gatherFrom r.read? path.reverse entries).Collects (MeasuredBelow r.double? path entries) ∧
    (∀ entries', Padded r.double? path entries entries entries' →
      gatherFrom r.read? path.reverse entries' = gatherFrom r.read? path.reverse entries) ∧
    (gather r.read? files root).Collects (MeasuredAt r.double? files root) ∧
    ∀ files' inner inner', files.resolve? root = some (.directory inner) →
      files'.resolve? root = some (.directory inner') →
      Padded r.double? (componentsOf root) inner inner inner' →
      gather r.read? files' root = gather r.read? files root := by
  refine ⟨collects_gatherFrom hr, fun entries' h => h.gatherFrom_eq hr, collects_gather hr, ?_⟩
  intro files' inner inner' hroot hroot' h
  rw [gather_eq hroot, gather_eq hroot', (h.within _).gatherFrom_eq hr]

/-- Directories inside each other, around entries. -/
def nested (names : List String) (entries : Entries) : Entries :=
  names.foldr (fun name inner => .cons (.text name) (.directory inner) .nil) entries

/-- A file with a mean time of four nanoseconds. -/
def fourNanoseconds : Text.Bytes :=
  Text.toBytes "\x7b\"mean\":\x7b\"point_estimate\":4\x7d\x7d"

theorem timeAt_fourNanoseconds : TimeAt Numeral.double? fourNanoseconds 4.0 :=
  (meanTime?_eq_some_iff documentReader_strict).mp (by decide +kernel)

/-- A measurement. -/
def measuredOnce : Entries := .cons estimatesName (.file fourNanoseconds) .nil

/-- A measurement with other files of the same content around it: beside it under another name, for
another baseline, and in a report; and with files and directories that cannot be opened. -/
def measuredAmongOthers : Entries :=
  .cons (.text "fetch") (.directory
    (.cons (.text "report") (.directory (nested ["main"] measuredOnce))
      (.cons (.text "swap") (.directory
        (.cons (.text "new") (.directory measuredOnce)
          (.cons (.text "main") (.directory
            (.cons benchmarkName (.closed false)
              (.cons (.text "sample.json") (.file fourNanoseconds) measuredOnce))) .nil)))
        (.cons (.text "load") (.closed true) .nil)))) .nil

/-- The measurement is gathered, and what is around it makes no difference. -/
theorem gathers_saved_measurements_among_others :
    (∃ ops, (gather Document.read?
      (nested ["target", "criterion", "fetch", "swap", "main"] measuredOnce)
      "target/criterion").Holds "fetch" "swap" ops) ∧
    gather Document.read? (nested ["target", "criterion"] measuredAmongOthers)
      "target/criterion" =
      gather Document.read? (nested ["target", "criterion", "fetch", "swap", "main"] measuredOnce)
        "target/criterion" := by
  obtain ⟨-, -, hcollects, hpadded⟩ :=
    gathers_saved_measurements documentReader documentReader_strict [] .nil
      (nested ["target", "criterion", "fetch", "swap", "main"] measuredOnce) "target/criterion"
  constructor
  · refine (hcollects.holds_iff "fetch" "swap").mpr ⟨1.0 * 1e9 / 4.0, ?_⟩
    refine ⟨_, [.text "fetch", .text "swap", .text "main"], measuredOnce, rfl,
      .inside .first (.inside .first (.inside .first .here)), by decide,
      ⟨⟨⟨_, rfl⟩, by decide, by decide⟩, fourNanoseconds, 4.0, 1.0, .first,
        timeAt_fourNanoseconds, (elementsAt_iff documentReader_strict).mpr rfl, rfl⟩⟩
  · refine hpadded _ _ _ rfl rfl (.directory (.extra ?report rfl (.directory
      (.extra ?new rfl (.directory (.extra id rfl (.extra ?sample rfl (.cons .nil)))
        .nil)) (.extra id rfl .nil))) .nil)
    case report => exact (measurements_eq_nil_iff documentReader_strict).mp rfl
    case new => exact (measurements_eq_nil_iff documentReader_strict).mp rfl
    case sample => rintro (⟨h, -⟩ | ⟨h, -⟩) <;> exact absurd h (by decide)

end OrderedAtomics.Bench
