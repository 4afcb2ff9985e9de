import OrderedAtomics.Proofs.Export.Underscores
import OrderedAtomics.Proofs.Json.Strict
import OrderedAtomics.Proofs.Json.Written

/-
  What is printed of the findings of an audit.  In words, they are a line with the numbers and a
  line for each name that differs (`lines_toText`); neither a name of the checklist nor one that a
  listing shows has a line break, so the names can be told from the lines (`missingLine_mem_iff`,
  `unexpectedLine_mem_iff`).  As JSON, they are written as the grammar has the document with all
  findings (`spells_toJson`), which any strict reader then gives back (`read?_toJson`).  The job
  prints the one or the other (`printed_findings`).
-/
namespace OrderedAtomics.Export.Audit

open Json (Document Reader Spells Numeral)

variable {a : Audit} {shown : Set String} {name : String} {r : Reader} {depth : Nat}
  {double? : Numeral → Option Float}

/-! ## In words -/

/-- The line with the numbers. -/
def headline (a : Audit) : String :=
  a.library ++ ": " ++ toString a.exported ++ " exported, " ++ toString a.expected
    ++ " expected (double word: " ++ boolText a.doubleWord ++ ")"

/-- The line of a missing name. -/
def missingLine (name : String) : String := "  missing    " ++ name

/-- The line of an unexpected name. -/
def unexpectedLine (name : String) : String := "  unexpected " ++ name

/-- The lines of a report in words; the last one is empty, since every line is ended. -/
def reportLines (a : Audit) : List String :=
  a.headline :: (a.missing.map missingLine ++ a.unexpected.map unexpectedLine ++ [""])

theorem lines_join {ls : List String} (h : ∀ line ∈ ls, '\n' ∉ line.toList) (rest : List Char) :
    Text.lines ((String.join (ls.map (· ++ "\n"))).toList ++ rest) =
      ls.map String.toList ++ Text.lines rest := by
  induction ls with
  | nil => rfl
  | cons line ls ih =>
    obtain ⟨hline, hls⟩ := List.forall_mem_cons.mp h
    have hfirst : (String.join ((line :: ls).map (· ++ "\n"))).toList ++ rest =
        line.toList ++ '\n' :: ((String.join (ls.map (· ++ "\n"))).toList ++ rest) := by
      rw [List.map_cons, String.join_cons, String.toList_append, String.toList_append,
        List.append_assoc, List.append_assoc]
      rfl
    rw [hfirst, Text.lines_append hline, ih hls]
    rfl

theorem toText_eq (a : Audit) :
    a.toText = a.headline ++ "\n" ++ String.join
      ((a.missing.map missingLine ++ a.unexpected.map unexpectedLine).map (· ++ "\n")) := by
  have hclose : ∀ text : String, text ++ ")" ++ "\n" = text ++ ")\n" :=
    fun _ => String.append_assoc
  rw [headline, hclose, List.map_append, String.join_append, List.map_map, List.map_map,
    ← String.append_assoc]
  rfl

theorem break_not_mem_headline (h : '\n' ∉ a.library.toList) : '\n' ∉ a.headline.toList := by
  have hnumber : ∀ n : Nat, '\n' ∉ (toString n).toList := by
    intro n hmem
    have hdigit := (Json.digits_toDigits n).2 '\n' (Nat.toList_repr ▸ hmem)
    exact absurd hdigit (by decide)
  have hword : '\n' ∉ (boolText a.doubleWord).toList := by
    cases a.doubleWord <;> decide
  unfold headline
  simp only [String.toList_append, List.mem_append, not_or]
  exact ⟨⟨⟨⟨⟨⟨⟨h, by decide⟩, hnumber _⟩, by decide⟩, hnumber _⟩, by decide⟩, hword⟩, by decide⟩

/-- The report has the lines that it should, unless a name has a line break itself. -/
theorem lines_toText (hlibrary : '\n' ∉ a.library.toList)
    (hmissing : ∀ name ∈ a.missing, '\n' ∉ name.toList)
    (hunexpected : ∀ name ∈ a.unexpected, '\n' ∉ name.toList) :
    Text.lines a.toText.toList = a.reportLines.map String.toList := by
  have hlines : ∀ line ∈ a.missing.map missingLine ++ a.unexpected.map unexpectedLine,
      '\n' ∉ line.toList := by
    have hline : ∀ start name : String, '\n' ∉ start.toList → '\n' ∉ name.toList →
        '\n' ∉ (start ++ name).toList := by
      intro start name hstart hname
      rw [String.toList_append, List.mem_append, not_or]
      exact ⟨hstart, hname⟩
    refine List.forall_mem_append.mpr ⟨List.forall_mem_map.mpr ?_, List.forall_mem_map.mpr ?_⟩
    · exact fun name hname => hline _ name (by decide) (hmissing name hname)
    · exact fun name hname => hline _ name (by decide) (hunexpected name hname)
  have hjoin := lines_join hlines []
  rw [List.append_nil] at hjoin
  have hbreak : "\n".toList = ['\n'] := rfl
  have hlast : ∀ ls : List String, (ls ++ [""]).map String.toList =
      ls.map String.toList ++ Text.lines [] := fun _ => List.map_append
  rw [toText_eq, String.toList_append, String.toList_append, hbreak, List.append_assoc,
    List.singleton_append, Text.lines_append (break_not_mem_headline hlibrary), hjoin, reportLines,
    List.map_cons, hlast]

theorem append_injective (start : String) : Function.Injective (start ++ ·) := by
  intro name name' heq
  have hlist := congrArg String.toList heq
  dsimp only at hlist
  rw [String.toList_append, String.toList_append] at hlist
  exact String.toList_injective (List.append_cancel_left hlist)

theorem missingLine_injective : Function.Injective missingLine := append_injective _

theorem unexpectedLine_injective : Function.Injective unexpectedLine := append_injective _

/-! Lines of different kinds are told apart by their first three characters. -/

theorem take_missingLine (name : String) : (missingLine name).toList.take 3 = [' ', ' ', 'm'] := by
  rw [missingLine, String.toList_append]
  rfl

theorem take_unexpectedLine (name : String) :
    (unexpectedLine name).toList.take 3 = [' ', ' ', 'u'] := by
  rw [unexpectedLine, String.toList_append]
  rfl

theorem missingLine_ne_unexpectedLine (name name' : String) :
    missingLine name ≠ unexpectedLine name' := by
  intro heq
  have htake := take_missingLine name
  rw [heq, take_unexpectedLine] at htake
  exact absurd htake (by decide)

/-- A name that a listing shows has no blanks. -/
theorem solid_of_mem_shownNames {listing : Text.Bytes} (h : name ∈ shownNames listing) :
    Solid name := by
  obtain ⟨-, hshown⟩ := h
  rcases hshown with ⟨_, -, _, _, -, -, hword, -⟩ | ⟨_, -, _, _, -, -, hword, -⟩
  · exact hword
  · exact (List.forall_mem_cons.mp hword).2

namespace Compares

/-- Where no name that is shown has blanks, the report has the lines that it should. -/
theorem lines_toText (h : a.Compares shown) (hshown : ∀ name ∈ shown, Solid name) :
    Text.lines a.toText.toList = a.reportLines.map String.toList := by
  refine Audit.lines_toText ?_ ?_ ?_
  · rw [h.library]
    decide
  · intro name hname
    exact (expected_form ((h.mem_missing name).mp hname).1).2.not_break
  · intro name hname
    exact (hshown name ((h.mem_unexpected name).mp hname).1).not_break

theorem take_headline (h : a.Compares shown) : a.headline.toList.take 3 = ['t', 'a', 'r'] := by
  have hbegins : ∃ rest, a.headline = libraryPath ++ rest := by
    unfold headline
    rw [h.library]
    simp only [String.append_assoc]
    exact ⟨_, rfl⟩
  obtain ⟨rest, hrest⟩ := hbegins
  rw [hrest, String.toList_append]
  rfl

theorem mem_reportLines_iff (h : a.Compares shown) {line : String} {c : Char}
    (htake : line.toList.take 3 = [' ', ' ', c]) : line ∈ a.reportLines ↔
      line ∈ a.missing.map missingLine ∨ line ∈ a.unexpected.map unexpectedLine := by
  have hheadline : line ≠ a.headline := by
    rintro rfl
    rw [h.take_headline] at htake
    cases htake
  have hend : line ≠ "" := by
    rintro rfl
    cases htake
  rw [reportLines, List.mem_cons, or_iff_right hheadline, List.mem_append, List.mem_singleton,
    or_iff_left hend, List.mem_append]

/-- Exactly the missing names have the line of a missing name. -/
theorem missingLine_mem_iff (h : a.Compares shown) :
    missingLine name ∈ a.reportLines ↔ name ∈ completeSurface a.doubleWord \ shown := by
  have hother : missingLine name ∉ a.unexpected.map unexpectedLine := by
    intro hmem
    obtain ⟨name', -, heq⟩ := List.mem_map.mp hmem
    exact missingLine_ne_unexpectedLine name name' heq.symm
  rw [h.mem_reportLines_iff (take_missingLine name), or_iff_left hother,
    List.mem_map_of_injective missingLine_injective, h.mem_missing]

/-- Exactly the unexpected names have the line of an unexpected name. -/
theorem unexpectedLine_mem_iff (h : a.Compares shown) :
    unexpectedLine name ∈ a.reportLines ↔ name ∈ shown \ completeSurface a.doubleWord := by
  have hother : unexpectedLine name ∉ a.missing.map missingLine := by
    intro hmem
    obtain ⟨name', -, heq⟩ := List.mem_map.mp hmem
    exact missingLine_ne_unexpectedLine name' name heq
  rw [h.mem_reportLines_iff (take_unexpectedLine name), or_iff_right hother,
    List.mem_map_of_injective unexpectedLine_injective, h.mem_unexpected]

end Compares

/-- So it is for the audit of any listing. -/
theorem lines_toText_ofListing (listing : Text.Bytes) :
    Text.lines (ofListing listing).toText.toList =
      (ofListing listing).reportLines.map String.toList :=
  (ofListing_compares listing).lines_toText fun _ => solid_of_mem_shownNames

/-! ## As JSON -/

/-- The findings as a document. -/
def document (a : Audit) : Document :=
  .object [("library", .text a.library), ("double_word", .boolean a.doubleWord),
    ("expected", .number (UInt64.ofNat a.expected).toFloat),
    ("exported", .number (UInt64.ofNat a.exported).toFloat),
    ("missing", .array (a.missing.map .text)), ("unexpected", .array (a.unexpected.map .text))]

theorem spells_boolText (b : Bool) :
    Spells double? depth (.value (.boolean b)) (boolText b).toList := by
  cases b with
  | false => exact .falseWord
  | true => exact .trueWord

theorem spells_namesJson (names : List String) :
    Spells double? (depth + 1) (.value (.array (names.map .text))) (namesJson names).toList := by
  by_cases hne : names = []
  · rw [hne]
    exact .noItems Json.blank_nil
  · have hname : ∀ name ∈ names, Spells double? depth (.value (.text name))
        ("    " ++ Text.jsonString name).toList := by
      intro name _
      rw [String.toList_append]
      exact .indented (by decide) (Json.spells_string name)
    have hafter : Json.Blank ['\n', ' ', ' '] := by decide
    have hwritten : (namesJson names).toList = '[' :: '\n' :: ([',', '\n'].intercalate
        (names.map fun name => ("    " ++ Text.jsonString name).toList) ++ ['\n', ' ', ' '])
          ++ [']'] := by
      rw [namesJson, if_neg (by simpa using hne), String.toList_append, String.toList_append,
        String.toList_intercalate, List.map_map, List.cons_append, List.cons_append,
        List.append_assoc, List.append_assoc]
      rfl
    rw [hwritten]
    exact .array (Json.spells_items hne hname hafter)

/-- The members of the document, each with the text of its value. -/
def writtenMembers (a : Audit) : List (String × String × Document) :=
  [("library", Text.jsonString a.library, .text a.library),
    ("double_word", boolText a.doubleWord, .boolean a.doubleWord),
    ("expected", toString a.expected, .number (UInt64.ofNat a.expected).toFloat),
    ("exported", toString a.exported, .number (UInt64.ofNat a.exported).toFloat),
    ("missing", namesJson a.missing, .array (a.missing.map .text)),
    ("unexpected", namesJson a.unexpected, .array (a.unexpected.map .text))]

theorem spells_writtenMembers (hr : r.Strict) (hexpected : a.expected < UInt64.size)
    (hexported : a.exported < UInt64.size) : ∀ m ∈ a.writtenMembers,
      Spells r.double? (depth + 1) (.value m.2.2) m.2.1.toList := by
  simp only [writtenMembers, List.forall_mem_cons]
  exact ⟨Json.spells_string _, spells_boolText _, hr.spells_natural hexpected,
    hr.spells_natural hexported, spells_namesJson _, spells_namesJson _, nofun⟩

theorem toList_toJson (a : Audit) : a.toJson.toList =
    '\x7b' :: ('\n' :: ([',', '\n'].intercalate (a.writtenMembers.map fun m =>
      ("  " ++ Text.jsonString m.1 ++ ": " ++ m.2.1).toList) ++ ['\n'])) ++ ['\x7d'] ++ ['\n'] := by
  have hfields : a.toJson = "\x7b\n" ++ String.intercalate ",\n" (a.writtenMembers.map fun m =>
      "  " ++ Text.jsonString m.1 ++ ": " ++ m.2.1) ++ "\n\x7d\n" := rfl
  have hopen : "\x7b\n".toList = ['\x7b', '\n'] := rfl
  have hbetween : ",\n".toList = [',', '\n'] := rfl
  have hclose : "\n\x7d\n".toList = ['\n', '\x7d', '\n'] := rfl
  rw [hfields, String.toList_append, String.toList_append, String.toList_intercalate, List.map_map,
    hopen, hbetween, hclose]
  simp only [List.cons_append, List.nil_append, List.append_assoc]
  rfl

/-- The findings are written as their document, if the numbers fit 64 bits. -/
theorem spells_toJson (hr : r.Strict) (hexpected : a.expected < UInt64.size)
    (hexported : a.exported < UInt64.size) :
    Spells r.double? (depth + 2) (.value a.document) a.toJson.toList := by
  have hspace : Json.Blank [' '] := by decide
  have hmembers : ∀ m ∈ a.writtenMembers, ∃ before text, Json.Blank before ∧
      ("  " ++ Text.jsonString m.1 ++ ": " ++ m.2.1).toList =
        before ++ (Text.jsonString m.1).toList ++ ':' :: text ∧
      Spells r.double? (depth + 1) (.value m.2.2) text := by
    intro m hm
    have hvalue : Spells r.double? (depth + 1) (.value m.2.2) ([' '] ++ m.2.1.toList) :=
      .indented hspace (spells_writtenMembers hr hexpected hexported m hm)
    refine ⟨[' ', ' '], ' ' :: m.2.1.toList, by decide, ?_, hvalue⟩
    have hmiddle : ": ".toList = [':', ' '] := rfl
    rw [String.toList_append, String.toList_append, String.toList_append, hmiddle,
      List.append_assoc]
    rfl
  have hafter : Json.Blank ['\n'] := by decide
  have hobject := Spells.object (Json.spells_members (List.cons_ne_nil _ _) hmembers hafter)
  rw [toList_toJson]
  exact hobject.ended hafter

/-- Any strict reader gives the findings back. -/
theorem read?_toJson (hr : r.Strict) (hexpected : a.expected < UInt64.size)
    (hexported : a.exported < UInt64.size) : r.read? a.toJson.toList = some a.document :=
  (hr.read?_eq_some_iff _ _).mpr (spells_toJson hr hexpected hexported)

/-- **What is printed tells what was found.** Where the tools succeed, the job prints, after its
first line, a report that compares the names of the listing: in words, with a line for each name
that differs, or as JSON, from which any strict reader has all findings. -/
theorem printed_findings {w : Job.Workspace} {listing : Text.Bytes} (h : Ready w listing)
    (hr : r.Strict) (hexpected : (ofListing listing).expected < UInt64.size)
    (hexported : (ofListing listing).exported < UInt64.size) :
    ∃ a : Audit, a.Compares (shownNames listing) ∧
      (∃ text, (Job.run (Job.auditLibrary false) w).2.out =
          w.out ++ "Building static library...\n" ++ text ∧
        Text.lines text.toList = a.reportLines.map String.toList) ∧
      ∃ json, (Job.run (Job.auditLibrary true) w).2.out =
          w.out ++ "Building static library...\n" ++ json ∧
        r.read? json.toList = some a.document := by
  obtain ⟨_, hwords, hout⟩ := run_auditLibrary h false
  obtain ⟨_, hjson, hout'⟩ := run_auditLibrary h true
  refine ⟨ofListing listing, ofListing_compares listing, ⟨_, ?_, lines_toText_ofListing listing⟩,
    _, ?_, read?_toJson hr hexpected hexported⟩
  · rw [hwords, hout]
    rfl
  · rw [hjson, hout']
    rfl

end OrderedAtomics.Export.Audit
