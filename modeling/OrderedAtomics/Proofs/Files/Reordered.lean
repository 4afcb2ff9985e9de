import Mathlib.Data.Set.Finite.Lattice
import OrderedAtomics.Proofs.Files.Below

/-
  Directory trees in other orders.  A directory has no name twice (`Distinct`), nor has any in a
  tree that is made by putting nodes in (`Distinct.placeAt`); so a name finds what is listed under
  it, and a way leads to one directory only (`Leads.unique`).  Trees that list the same at every
  depth, in whatever order, are told apart by no name and no way: `Reordered` trees list the same
  files (`lists_leaf`), and a way that leads to a directory in one leads to a reordered one in the
  other (`leads`).  Any entry can come last (`exists_concat`).
-/
namespace OrderedAtomics.Files

namespace Entries

/-! ## Distinct names -/

/-- No directory of the tree lists a name twice. -/
inductive Distinct : Entries → Prop
  | nil : Distinct .nil
  | cons {name : EntryName} {node : Node} {rest : Entries} (hname : rest.find? name = none)
      (hinner : ∀ inner, node = .directory inner → Distinct inner) (hrest : Distinct rest) :
      Distinct (.cons name node rest)

variable {entries entries' rest rest' inner inner' dir dir' : Entries} {name other : EntryName}
  {node node' : Node} {content : Text.Bytes} {way : List EntryName}

theorem find?_eq_none_iff : entries.find? name = none ↔ ∀ node, ¬ entries.Lists name node := by
  induction entries using induction_on_rest with
  | nil => exact iff_of_true rfl fun _ => not_lists_nil
  | cons first old rest ih =>
    rw [find?]
    split
    · next heq => exact iff_of_false (Option.some_ne_none old) fun h => h old (heq ▸ .first)
    · next hne =>
      rw [ih]
      refine forall_congr' fun node => not_congr ?_
      rw [lists_cons, or_iff_right fun h => hne h.1]

theorem find?_cons_eq_none_iff :
    (Entries.cons other node rest).find? name = none ↔ other ≠ name ∧ rest.find? name = none := by
  rw [find?]
  split
  · next heq => exact iff_of_false (Option.some_ne_none node) fun h => h.1 heq
  · next hne => exact (and_iff_right hne).symm

theorem lists_of_find? (h : entries.find? name = some node) : entries.Lists name node := by
  induction entries using induction_on_rest with
  | nil => cases h
  | cons first old rest ih =>
    rw [find?] at h
    split at h
    · next heq =>
      cases h
      exact heq ▸ .first
    · exact .later (ih h)

theorem find?_insert : (entries.insert name node).find? other =
    if name = other then some node else entries.find? other := by
  induction entries using induction_on_rest with
  | nil => rfl
  | cons first old rest ih =>
    rw [insert]
    split
    · next heq =>
      rw [find?, find?, heq]
      split <;> rfl
    · next hne =>
      rw [find?, find?, ih]
      split
      · next hfirst => rw [if_neg fun heq => hne (hfirst.trans heq.symm)]
      · rfl

namespace Distinct

theorem not_lists (h : Distinct (.cons name node rest)) (node' : Node) :
    ¬ rest.Lists name node' := by
  cases h with
  | cons hname _ _ => exact find?_eq_none_iff.mp hname node'

/-- What is listed under a name is what the name finds. -/
theorem find?_eq_some_iff (h : entries.Distinct) :
    entries.find? name = some node ↔ entries.Lists name node := by
  refine ⟨lists_of_find?, fun hlists => ?_⟩
  induction hlists with
  | first => exact if_pos rfl
  | @later name first node old rest hlists ih =>
    have hne : first ≠ name := by
      rintro rfl
      exact h.not_lists _ hlists
    rw [find?, if_neg hne]
    cases h with
    | cons _ _ hrest => exact ih hrest

theorem lists_unique (h : entries.Distinct) (hlists : entries.Lists name node)
    (hlists' : entries.Lists name node') : node = node' := by
  rw [← h.find?_eq_some_iff] at hlists hlists'
  exact Option.some.inj (hlists.symm.trans hlists')

/-- Directories below have no name twice either. -/
theorem of_lists (h : entries.Distinct) (hlists : entries.Lists name (.directory inner)) :
    inner.Distinct := by
  induction h with
  | nil => cases hlists
  | cons _ hinner _ _ ih =>
    rcases lists_cons.mp hlists with ⟨-, heq⟩ | hlists
    · exact hinner inner heq
    · exact ih hlists

theorem of_leads (h : entries.Distinct) (hway : entries.Leads way dir) : dir.Distinct := by
  induction hway with
  | here => exact h
  | inside hlists _ ih => exact ih (h.of_lists hlists)

/-! The trees that are made have no name twice. -/

theorem insert (h : entries.Distinct) (name : EntryName)
    (hnode : ∀ inner, node = .directory inner → inner.Distinct) :
    (entries.insert name node).Distinct := by
  induction h with
  | nil => exact .cons rfl hnode .nil
  | @cons first old rest hname hinner hrest _ ih =>
    rw [Entries.insert]
    split
    · exact .cons hname hnode hrest
    · next hne =>
      refine .cons ?_ hinner ih
      rw [find?_insert, if_neg fun heq => hne heq.symm, hname]

theorem place (h : entries.Distinct) (path : List String)
    (hnode : ∀ inner, node = .directory inner → inner.Distinct) :
    (Entries.place path node entries).Distinct := by
  fun_induction Entries.place path node entries with
  | case1 | case2 | case4 | case5 => exact h
  | case3 => exact h.insert _ hnode
  | case6 _ _ _ _ _ _ hfind ih =>
    refine h.insert _ ?_
    rintro _ ⟨⟩
    exact ih (h.of_lists (lists_of_find? hfind)) hnode
  | case7 _ _ _ _ _ _ ih =>
    refine h.insert _ ?_
    rintro _ ⟨⟩
    exact ih .nil hnode

theorem placeAt (h : entries.Distinct) (path : String)
    (hnode : ∀ inner, node = .directory inner → inner.Distinct) :
    (Entries.placeAt path node entries).Distinct := by
  rw [Entries.placeAt]
  generalize ([] : List String) = here
  fun_induction Entries.placeFrom here node (componentsOf path) entries with
  | case1 => exact h.place _ hnode
  | case2 _ _ _ _ ih | case4 _ _ _ _ _ _ ih => exact ih h
  | case3 _ _ _ ih =>
    refine ih (h.place _ ?_)
    rintro _ ⟨⟩
    exact .nil

end Distinct

/-- A way leads to one directory only. -/
theorem Leads.unique (h : entries.Distinct) (hway : entries.Leads way dir)
    (hway' : entries.Leads way dir') : dir = dir' := by
  induction hway with
  | here => exact (leads_nil.mp hway').symm
  | inside hlists _ ih =>
    obtain ⟨inner', hlists', hway'⟩ := leads_cons.mp hway'
    cases h.lists_unique hlists hlists'
    exact ih (h.of_lists hlists) hway'

/-- A tree has finitely many directories. -/
theorem finite_ways : ∀ entries : Entries, {way | ∃ dir, entries.Leads way dir}.Finite
  | .nil => by
    refine (Set.finite_singleton []).subset ?_
    rintro way ⟨dir, h⟩
    cases h with
    | here => rfl
    | inside h _ => cases h
  | .cons name (.file _) rest | .cons name (.closed _) rest => by
    refine (finite_ways rest).subset ?_
    rintro way ⟨dir, h⟩
    cases h with
    | here => exact ⟨rest, .here⟩
    | inside hlists hway =>
      rcases lists_cons.mp hlists with ⟨-, heq⟩ | hlists
      · cases heq
      · exact ⟨dir, .inside hlists hway⟩
  | .cons name (.directory inner) rest => by
    refine ((finite_ways rest).union ((finite_ways inner).image (name :: ·))).subset ?_
    rintro way ⟨dir, h⟩
    cases h with
    | here => exact .inl ⟨rest, .here⟩
    | inside hlists hway =>
      rcases lists_cons.mp hlists with ⟨rfl, heq⟩ | hlists
      · cases heq
        exact .inr ⟨_, ⟨dir, hway⟩, rfl⟩
      · exact .inl ⟨dir, .inside hlists hway⟩

/-! ## Other orders -/

/-- Trees that differ in the order in which directories list their entries, at any depth. -/
inductive Reordered : Entries → Entries → Prop
  | nil : Reordered .nil .nil
  | cons {name : EntryName} {node : Node} {rest rest' : Entries} (hrest : Reordered rest rest') :
      Reordered (.cons name node rest) (.cons name node rest')
  | directory {name : EntryName} {inner inner' rest rest' : Entries}
      (hinner : Reordered inner inner') (hrest : Reordered rest rest') :
      Reordered (.cons name (.directory inner) rest) (.cons name (.directory inner') rest')
  | swap {name other : EntryName} {node node' : Node} {rest : Entries} :
      Reordered (.cons name node (.cons other node' rest))
        (.cons other node' (.cons name node rest))
  | trans {entries entries' entries'' : Entries} (h : Reordered entries entries')
      (h' : Reordered entries' entries'') : Reordered entries entries''

namespace Reordered

theorem refl : ∀ entries : Entries, Reordered entries entries
  | .nil => .nil
  | .cons _ _ rest => .cons (refl rest)

theorem symm (h : Reordered entries entries') : Reordered entries' entries := by
  induction h with
  | nil => exact .nil
  | cons _ ih => exact .cons ih
  | directory _ _ ihinner ih => exact .directory ihinner ih
  | swap => exact .swap
  | trans _ _ ih ih' => exact ih'.trans ih

/-- What is no directory is listed all the same. -/
theorem lists_leaf (h : Reordered entries entries') (hleaf : ∀ inner, node ≠ .directory inner)
    (hlists : entries.Lists name node) : entries'.Lists name node := by
  induction h with
  | nil => exact hlists
  | cons _ ih =>
    rcases lists_cons.mp hlists with heq | hlists
    · exact lists_cons.mpr (.inl heq)
    · exact .later (ih hlists)
  | directory _ _ _ ih =>
    rcases lists_cons.mp hlists with ⟨-, heq⟩ | hlists
    · exact absurd heq.symm (hleaf _)
    · exact .later (ih hlists)
  | swap =>
    rw [lists_cons, lists_cons] at hlists ⊢
    exact or_left_comm.mp hlists
  | trans _ _ ih ih' => exact ih' (ih hlists)

theorem lists_file (h : Reordered entries entries') (hlists : entries.Lists name (.file content)) :
    entries'.Lists name (.file content) :=
  h.lists_leaf nofun hlists

/-- Under the same names directories are listed that are reordered. -/
theorem lists_directory (h : Reordered entries entries')
    (hlists : entries.Lists name (.directory inner)) :
    ∃ inner', entries'.Lists name (.directory inner') ∧ Reordered inner inner' := by
  induction h generalizing inner with
  | nil => cases hlists
  | cons _ ih =>
    rcases lists_cons.mp hlists with heq | hlists
    · exact ⟨inner, lists_cons.mpr (.inl heq), refl inner⟩
    · obtain ⟨inner', hlists', hinner⟩ := ih hlists
      exact ⟨inner', .later hlists', hinner⟩
  | directory hinner _ _ ih =>
    rcases lists_cons.mp hlists with ⟨rfl, heq⟩ | hlists
    · cases heq
      exact ⟨_, .first, hinner⟩
    · obtain ⟨inner', hlists', hinner⟩ := ih hlists
      exact ⟨inner', .later hlists', hinner⟩
  | swap =>
    refine ⟨inner, ?_, refl inner⟩
    rw [lists_cons, lists_cons] at hlists ⊢
    exact or_left_comm.mp hlists
  | trans _ _ ih ih' =>
    obtain ⟨inner', hlists', hinner⟩ := ih hlists
    obtain ⟨inner'', hlists'', hinner'⟩ := ih' hlists'
    exact ⟨inner'', hlists'', hinner.trans hinner'⟩

/-- A name that is free stays free. -/
theorem find?_eq_none (h : Reordered entries entries') (hnone : entries.find? name = none) :
    entries'.find? name = none := by
  rw [find?_eq_none_iff] at hnone ⊢
  intro node hlists
  cases node with
  | file | closed => exact hnone _ (h.symm.lists_leaf (by nofun) hlists)
  | directory inner =>
    obtain ⟨inner', hlists', -⟩ := h.symm.lists_directory hlists
    exact hnone _ hlists'

theorem distinct (h : Reordered entries entries') (hdistinct : entries.Distinct) :
    entries'.Distinct := by
  induction h with
  | nil => exact .nil
  | cons hrest ih =>
    cases hdistinct with
    | cons hname hinner hdistinct => exact .cons (hrest.find?_eq_none hname) hinner (ih hdistinct)
  | directory _ hrest ihinner ih =>
    cases hdistinct with
    | cons hname hinner hdistinct =>
      refine .cons (hrest.find?_eq_none hname) ?_ (ih hdistinct)
      rintro _ ⟨⟩
      exact ihinner (hinner _ rfl)
  | @swap name other node node' rest =>
    cases hdistinct with
    | cons hname hinner hdistinct =>
      cases hdistinct with
      | cons hname' hinner' hdistinct =>
        obtain ⟨hne, hname⟩ := find?_cons_eq_none_iff.mp hname
        have hfree : (Entries.cons name node rest).find? other = none :=
          find?_cons_eq_none_iff.mpr ⟨hne.symm, hname'⟩
        exact .cons hfree hinner' (.cons hname hinner hdistinct)
  | trans _ _ ih ih' => exact ih' (ih hdistinct)

/-- What a way leads to is reordered. -/
theorem leads (h : Reordered entries entries') (hway : entries.Leads way dir) :
    ∃ dir', entries'.Leads way dir' ∧ Reordered dir dir' := by
  induction hway generalizing entries' with
  | here => exact ⟨entries', .here, h⟩
  | inside hlists _ ih =>
    obtain ⟨inner', hlists', hinner⟩ := h.lists_directory hlists
    obtain ⟨dir', hway', hdir⟩ := ih hinner
    exact ⟨dir', .inside hlists' hway', hdir⟩

end Reordered

/-- The directory with an entry put last. -/
def concat (name : EntryName) (node : Node) : Entries → Entries
  | .nil => .cons name node .nil
  | .cons first old rest => .cons first old (concat name node rest)

theorem reordered_concat (name : EntryName) (node : Node) (rest : Entries) :
    Reordered (.cons name node rest) (rest.concat name node) := by
  induction rest using induction_on_rest with
  | nil => exact .refl _
  | cons first old rest ih => exact Reordered.swap.trans (.cons ih)

theorem concat_reordered (h : Reordered inner inner') (name : EntryName) (rest : Entries) :
    Reordered (rest.concat name (.directory inner)) (rest.concat name (.directory inner')) := by
  induction rest using induction_on_rest with
  | nil => exact .directory h .nil
  | cons first old rest ih => exact .cons ih

/-- Any entry can come last. -/
theorem exists_concat (h : entries.Lists name node) :
    ∃ rest : Entries, Reordered entries (rest.concat name node) := by
  induction h with
  | first => exact ⟨_, reordered_concat _ _ _⟩
  | @later name other node old rest _ ih =>
    obtain ⟨rest', hrest⟩ := ih
    exact ⟨.cons other old rest', .cons hrest⟩

end Entries

end OrderedAtomics.Files
