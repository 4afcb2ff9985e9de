import OrderedAtomics.Files.Tree

/-
  What lies below a directory, and what of it can be reached.  A directory lists its entries, and
  names lead from it to the directories in and below it (`Lists`, `Leads`).  The part that can be
  reached lists what is listed under names that fit after the path of the directory
  (`lists_within_iff`), and leads where the names on the way fit (`leads_within_iff`).
-/
namespace OrderedAtomics.Files

/-- The number of bytes that names take in a path, each with a slash before it. -/
def sizeOfNames : List EntryName → Nat
  | [] => 0
  | name :: names => name.size + 1 + sizeOfNames names

theorem sizeOfNames_append (names names' : List EntryName) :
    sizeOfNames (names ++ names') = sizeOfNames names + sizeOfNames names' := by
  induction names with
  | nil => rw [List.nil_append, sizeOfNames, Nat.zero_add]
  | cons name names ih =>
    rw [List.cons_append, sizeOfNames, sizeOfNames, ih]
    exact (Nat.add_assoc _ _ _).symm

/-- The length in bytes of the path of what lies below the directory at a path; a closing slash of
that path serves for the first of those before the names. -/
def pathSize (path : String) (names : List EntryName) : Nat :=
  path.utf8ByteSize + sizeOfNames names - if path.toList.getLast? = some '/' then 1 else 0

/-- A node as far as it can be reached when at most `room` bytes may follow its path. -/
def Node.within (room : Nat) : Node → Node
  | .file content => .file content
  | .directory inner => .directory (inner.within room)
  | .closed isDirectory => .closed isDirectory

namespace Entries

/-- A directory lists a node under a name. -/
inductive Lists : Entries → EntryName → Node → Prop
  | first {name : EntryName} {node : Node} {rest : Entries} : Lists (.cons name node rest) name node
  | later {name other : EntryName} {node old : Node} {rest : Entries} (h : Lists rest name node) :
      Lists (.cons other old rest) name node

/-- Names of directories lead from a directory to one in or below it. -/
inductive Leads : Entries → List EntryName → Entries → Prop
  | here {dir : Entries} : Leads dir [] dir
  | inside {entries inner dir : Entries} {name : EntryName} {way : List EntryName}
      (h : Lists entries name (.directory inner)) (hway : Leads inner way dir) :
      Leads entries (name :: way) dir

variable {entries rest inner dir : Entries} {name other : EntryName} {node old : Node}
  {way : List EntryName} {room : Nat}

/-- What holds of the empty directory, and of a directory when it holds of the entries after its
first, holds of all directories. -/
theorem induction_on_rest {motive : Entries → Prop} (nil : motive .nil)
    (cons : ∀ name node rest, motive rest → motive (.cons name node rest)) :
    ∀ entries, motive entries
  | .nil => nil
  | .cons name node rest => cons name node rest (induction_on_rest nil cons rest)

theorem not_lists_nil : ¬ Lists .nil name node := nofun

theorem lists_cons :
    Lists (.cons other old rest) name node ↔ other = name ∧ old = node ∨ Lists rest name node := by
  constructor
  · intro h
    cases h with
    | first => exact .inl ⟨rfl, rfl⟩
    | later h => exact .inr h
  · rintro (⟨rfl, rfl⟩ | h)
    · exact .first
    · exact .later h

theorem exists_lists_file_cons {P : Text.Bytes → Prop} :
    (∃ content, Lists (.cons other old rest) name (.file content) ∧ P content) ↔
      (∃ content, other = name ∧ old = .file content ∧ P content) ∨
        ∃ content, Lists rest name (.file content) ∧ P content := by
  simp only [lists_cons, or_and_right, exists_or, and_assoc]

theorem exists_lists_directory_cons {P : EntryName → Entries → Prop} :
    (∃ name inner, Lists (.cons other old rest) name (.directory inner) ∧ P name inner) ↔
      (∃ inner, old = .directory inner ∧ P other inner) ∨
        ∃ name inner, Lists rest name (.directory inner) ∧ P name inner := by
  simp only [lists_cons, or_and_right, exists_or, and_assoc, exists_and_left, exists_eq_left']

theorem leads_nil : entries.Leads [] dir ↔ dir = entries :=
  ⟨fun h => by cases h; rfl, fun h => h ▸ .here⟩

theorem leads_cons : entries.Leads (name :: way) dir ↔
    ∃ inner, entries.Lists name (.directory inner) ∧ inner.Leads way dir := by
  constructor
  · intro h
    cases h with
    | inside h hway => exact ⟨_, h, hway⟩
  · rintro ⟨inner, h, hway⟩
    exact .inside h hway

/-! ## What can be reached -/

theorem within_cons :
    within room (.cons name node rest) =
      if name.size < room then
        .cons name (node.within (room - (name.size + 1))) (within room rest)
      else within room rest := by
  cases node <;> rfl

theorem lists_within_iff :
    (entries.within room).Lists name node ↔ name.size < room ∧
      ∃ whole, entries.Lists name whole ∧ whole.within (room - (name.size + 1)) = node := by
  induction entries using induction_on_rest with
  | nil => exact iff_of_false not_lists_nil fun ⟨_, _, h, _⟩ => not_lists_nil h
  | cons first old rest ih =>
    rw [within_cons]
    simp only [lists_cons]
    split
    · next hfits =>
      rw [lists_cons, ih]
      constructor
      · rintro (⟨rfl, rfl⟩ | ⟨hname, whole, h, rfl⟩)
        · exact ⟨hfits, old, .inl ⟨rfl, rfl⟩, rfl⟩
        · exact ⟨hname, whole, .inr h, rfl⟩
      · rintro ⟨hname, whole, ⟨rfl, rfl⟩ | h, rfl⟩
        · exact .inl ⟨rfl, rfl⟩
        · exact .inr ⟨hname, whole, h, rfl⟩
    · next hfits =>
      rw [ih]
      refine and_congr_right fun hname => exists_congr fun whole => and_congr_left fun _ => ?_
      refine (or_iff_right ?_).symm
      rintro ⟨rfl, -⟩
      exact hfits hname

theorem find?_within : (entries.within room).find? name =
    if name.size < room then (entries.find? name).map (Node.within (room - (name.size + 1)))
    else none := by
  induction entries using induction_on_rest with
  | nil => rw [within, find?, Option.map_none, ite_self]
  | cons first old rest ih =>
    rw [within_cons, find?]
    split
    · next hfits =>
      rw [find?, ih]
      by_cases heq : first = name
      · rw [if_pos heq, if_pos heq, if_pos (heq ▸ hfits), Option.map_some, heq]
      · rw [if_neg heq, if_neg heq]
    · next hfits =>
      rw [ih]
      by_cases heq : first = name
      · rw [if_neg (heq ▸ hfits), if_neg (heq ▸ hfits)]
      · rw [if_neg heq]

theorem within_eq_file_iff {content : Text.Bytes} :
    node.within room = .file content ↔ node = .file content := by
  cases node with
  | file => rfl
  | directory | closed => exact iff_of_false nofun nofun

theorem lists_within_file_iff {content : Text.Bytes} :
    (entries.within room).Lists name (.file content) ↔
      name.size < room ∧ entries.Lists name (.file content) := by
  simp only [lists_within_iff, within_eq_file_iff, exists_eq_right]

theorem find?_within_file_iff {content : Text.Bytes} :
    (entries.within room).find? name = some (.file content) ↔
      name.size < room ∧ entries.find? name = some (.file content) := by
  rw [find?_within, Option.ite_none_right_eq_some]
  simp only [Option.map_eq_some_iff, within_eq_file_iff, exists_eq_right]

theorem lists_within_directory_iff :
    (entries.within room).Lists name (.directory inner) ↔ name.size < room ∧ ∃ whole,
      entries.Lists name (.directory whole) ∧ whole.within (room - (name.size + 1)) = inner := by
  rw [lists_within_iff]
  refine and_congr_right fun _ => ⟨?_, ?_⟩
  · rintro ⟨node, h, heq⟩
    cases node with
    | file | closed => cases heq
    | directory whole => exact ⟨whole, h, Node.directory.inj heq⟩
  · rintro ⟨whole, h, rfl⟩
    exact ⟨.directory whole, h, rfl⟩

theorem leads_within_iff :
    (entries.within room).Leads way dir ↔ sizeOfNames way ≤ room ∧
      ∃ whole, entries.Leads way whole ∧ whole.within (room - sizeOfNames way) = dir := by
  induction way generalizing entries room with
  | nil =>
    rw [leads_nil]
    constructor
    · rintro rfl
      exact ⟨Nat.zero_le _, entries, .here, rfl⟩
    · rintro ⟨-, whole, h, rfl⟩
      rw [leads_nil.mp h]
      rfl
  | cons name way ih =>
    have hroom : room - sizeOfNames (name :: way) = room - (name.size + 1) - sizeOfNames way := by
      rw [sizeOfNames, Nat.sub_sub]
    have hfits : sizeOfNames (name :: way) ≤ room ↔
        name.size < room ∧ sizeOfNames way ≤ room - (name.size + 1) := by
      rw [sizeOfNames]
      omega
    rw [leads_cons, hroom, hfits]
    constructor
    · rintro ⟨inner, h, hway⟩
      obtain ⟨hname, whole, hwhole, rfl⟩ := lists_within_directory_iff.mp h
      obtain ⟨hrest, dir', hdir, rfl⟩ := ih.mp hway
      exact ⟨⟨hname, hrest⟩, dir', .inside hwhole hdir, rfl⟩
    · rintro ⟨⟨hname, hrest⟩, dir', hdir, rfl⟩
      obtain ⟨whole, hwhole, hdir⟩ := leads_cons.mp hdir
      exact ⟨_, lists_within_directory_iff.mpr ⟨hname, whole, hwhole, rfl⟩,
        ih.mpr ⟨hrest, dir', hdir, rfl⟩⟩

end Entries

/-- What lies below the directory at a path can be reached exactly if its own path is not too
long. -/
theorem sizeOfNames_le_roomBelow_iff {path : String} {names : List EntryName}
    (hpath : path.utf8ByteSize ≤ maxPathSize) :
    sizeOfNames names ≤ roomBelow path ↔ pathSize path names ≤ maxPathSize := by
  rw [roomBelow, pathSize]
  split <;> omega

end OrderedAtomics.Files
