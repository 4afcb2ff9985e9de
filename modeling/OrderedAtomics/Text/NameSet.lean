/-
  Finite sets of names, kept as sorted lists without repetitions.
-/
namespace OrderedAtomics.Text.NameSet

/-- The list with `name` in its place, once. -/
def insert (name : String) : List String → List String
  | [] => [name]
  | first :: rest =>
    if name < first then name :: first :: rest
    else if name = first then first :: rest
    else first :: insert name rest

/-- The names of a list, sorted and each once. -/
def ofList (names : List String) : List String := names.foldr insert []

/-- The names of the first set that are not in the second. -/
def diff (a b : List String) : List String := a.filter fun name => !b.contains name

/-- Whether a text has a part. -/
def hasPart (part : List Char) : List Char → Bool
  | [] => part.isEmpty
  | c :: cs => part.isPrefixOf (c :: cs) || hasPart part cs

/-- The names that have a part. -/
def containing (part : String) (names : List String) : List String :=
  names.filter fun name => hasPart part.toList name.toList

theorem mem_insert {x name : String} {l : List String} :
    x ∈ insert name l ↔ x = name ∨ x ∈ l := by
  induction l with
  | nil => simp [insert]
  | cons first rest ih =>
    rw [insert]
    split
    · simp
    · split
      · next h => simp [h]
      · simp only [List.mem_cons, ih]
        exact or_left_comm

theorem mem_ofList {x : String} {l : List String} : x ∈ ofList l ↔ x ∈ l := by
  induction l with
  | nil => simp [ofList]
  | cons name rest ih =>
    rw [ofList, List.foldr_cons, mem_insert, List.mem_cons]
    exact or_congr Iff.rfl ih

theorem mem_diff {x : String} {a b : List String} : x ∈ diff a b ↔ x ∈ a ∧ x ∉ b := by
  simp [diff]

theorem pairwise_insert {name : String} {l : List String} (h : l.Pairwise (· < ·)) :
    (insert name l).Pairwise (· < ·) := by
  induction l with
  | nil => exact List.pairwise_singleton _ name
  | cons first rest ih =>
    obtain ⟨hfirst, hrest⟩ := List.pairwise_cons.mp h
    rw [insert]
    split
    · next hlt =>
      refine List.pairwise_cons.mpr ⟨fun x hx => ?_, h⟩
      rcases List.mem_cons.mp hx with rfl | hx
      · exact hlt
      · exact String.lt_trans hlt (hfirst x hx)
    · next hlt =>
      split
      · exact h
      · next hne =>
        have hlt' : first < name :=
          Std.lt_of_le_of_ne (String.not_lt.mp hlt) fun heq => hne heq.symm
        refine List.pairwise_cons.mpr ⟨fun x hx => ?_, ih hrest⟩
        rcases mem_insert.mp hx with rfl | hx
        · exact hlt'
        · exact hfirst x hx

theorem pairwise_ofList (l : List String) : (ofList l).Pairwise (· < ·) := by
  induction l with
  | nil => exact .nil
  | cons name rest ih => exact pairwise_insert ih

theorem pairwise_diff {a b : List String} (h : a.Pairwise (· < ·)) :
    (diff a b).Pairwise (· < ·) :=
  h.filter _

end OrderedAtomics.Text.NameSet
