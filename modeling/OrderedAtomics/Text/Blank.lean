import OrderedAtomics.Text.CharRange

/-
  White space as Unicode has it, and the words of a line.
-/
namespace OrderedAtomics.Text

/-- The ranges of the property White_Space, in order. -/
def blankRanges : List CharRange :=
  [(0x9, 0xd), (0x20, 0x20), (0x85, 0x85), (0xa0, 0xa0), (0x1680, 0x1680), (0x2000, 0x200a),
   (0x2028, 0x2029), (0x202f, 0x202f), (0x205f, 0x205f), (0x3000, 0x3000)]

/-- Whether a character is white space. -/
def isBlank (c : Char) : Bool := CharRange.covers blankRanges c

/-- The pieces of a list between the elements that satisfy `p`, empty ones included. -/
def splitWhere {α : Type} (p : α → Bool) : List α → List (List α)
  | [] => [[]]
  | c :: cs =>
    if p c then [] :: splitWhere p cs
    else
      match splitWhere p cs with
      | [] => [[c]]
      | piece :: pieces => (c :: piece) :: pieces

theorem splitWhere_ne_nil {α : Type} (p : α → Bool) (cs : List α) : splitWhere p cs ≠ [] := by
  cases cs with
  | nil => simp [splitWhere]
  | cons c cs =>
    rw [splitWhere]
    split
    · simp
    · split <;> simp

/-- A separator divides the pieces before it from those after it. -/
theorem splitWhere_append {α : Type} {p : α → Bool} {c : α} (hc : p c = true) (a b : List α) :
    splitWhere p (a ++ c :: b) = splitWhere p a ++ splitWhere p b := by
  induction a with
  | nil =>
    simp only [List.nil_append, splitWhere, hc, if_true]
    rfl
  | cons d a ih =>
    rw [List.cons_append, splitWhere, splitWhere, ih]
    split
    · rfl
    · cases h : splitWhere p a with
      | nil => exact absurd h (splitWhere_ne_nil p a)
      | cons piece pieces => rfl

theorem splitWhere_eq_self {α : Type} {p : α → Bool} {cs : List α} (h : ∀ c ∈ cs, p c = false) :
    splitWhere p cs = [cs] := by
  induction cs with
  | nil => rfl
  | cons c cs ih =>
    rw [splitWhere, h c List.mem_cons_self, ih fun d hd => h d (List.mem_cons_of_mem c hd)]
    rfl

/-- A piece stands between two separators, or the ends, and holds none. -/
theorem mem_splitWhere_iff {α : Type} {p : α → Bool} {piece cs : List α} :
    piece ∈ splitWhere p cs ↔ ∃ before after, cs = before ++ piece ++ after ∧
      (∀ c ∈ piece, p c = false) ∧ (∀ c ∈ before.getLast?, p c = true) ∧
      ∀ c ∈ after.head?, p c = true := by
  constructor
  · -- by induction on what follows a beginning `a` without separators
    suffices h : ∀ a, (∀ c ∈ a, p c = false) → piece ∈ splitWhere p (a ++ cs) →
        ∃ before after, a ++ cs = before ++ piece ++ after ∧
          (∀ c ∈ piece, p c = false) ∧ (∀ c ∈ before.getLast?, p c = true) ∧
          ∀ c ∈ after.head?, p c = true from h [] (List.forall_mem_nil _)
    induction cs with
    | nil =>
      intro a ha hmem
      rw [List.append_nil, splitWhere_eq_self ha, List.mem_singleton] at hmem
      exact ⟨[], [], by simp [hmem], hmem ▸ ha, nofun, nofun⟩
    | cons c cs ih =>
      intro a ha hmem
      cases hc : p c with
      | true =>
        rw [splitWhere_append hc, splitWhere_eq_self ha, List.singleton_append,
          List.mem_cons] at hmem
        rcases hmem with rfl | hmem
        · exact ⟨[], c :: cs, rfl, ha, nofun, by simpa using hc⟩
        · obtain ⟨before, after, heq, hpiece, hbefore, hafter⟩ :=
            ih [] (List.forall_mem_nil _) hmem
          rw [List.nil_append] at heq
          refine ⟨a ++ c :: before, after, by simp [heq], hpiece, ?_, hafter⟩
          cases before with
          | nil => simpa using hc
          | cons d before => simpa [List.getLast?_append] using hbefore
      | false =>
        have happend : a ++ c :: cs = (a ++ [c]) ++ cs := by simp
        rw [happend] at hmem ⊢
        refine ih (a ++ [c]) ?_ hmem
        simpa [or_imp, forall_and] using ⟨ha, hc⟩
  · rintro ⟨before, after, rfl, hpiece, hbefore, hafter⟩
    have hfirst : piece ∈ splitWhere p (piece ++ after) := by
      cases after with
      | nil => rw [List.append_nil, splitWhere_eq_self hpiece, List.mem_singleton]
      | cons c after =>
        rw [splitWhere_append (hafter c rfl), splitWhere_eq_self hpiece]
        exact List.mem_append_left _ (List.mem_singleton_self piece)
    rcases List.eq_nil_or_concat before with rfl | ⟨init, c, rfl⟩
    · exact hfirst
    · have hc : p c = true := hbefore c (by simp)
      rw [List.concat_eq_append, List.append_assoc, List.append_assoc, List.singleton_append,
        splitWhere_append hc]
      exact List.mem_append_right _ hfirst

/-- Nothing but the separators is lost. -/
theorem intercalate_splitWhere {α : Type} [DecidableEq α] (c : α) (cs : List α) :
    [c].intercalate (splitWhere (· == c) cs) = cs := by
  induction cs with
  | nil => rfl
  | cons d cs ih =>
    rw [splitWhere]
    cases h : splitWhere (· == c) cs with
    | nil => exact absurd h (splitWhere_ne_nil _ cs)
    | cons piece pieces =>
      rw [h] at ih
      split
      · rename_i hd
        rw [List.intercalate_cons_cons, ih, beq_iff_eq.mp hd]
        rfl
      · cases pieces with
        | nil =>
          rw [List.intercalate_singleton] at ih
          dsimp only
          rw [List.intercalate_singleton, ih]
        | cons piece' pieces =>
          rw [List.intercalate_cons_cons] at ih
          dsimp only
          rw [List.intercalate_cons_cons, List.cons_append, List.cons_append, ih]

/-- The lines of a text, without their ends. -/
def lines (text : List Char) : List (List Char) := splitWhere (· == '\n') text

theorem lines_append {line : List Char} (h : '\n' ∉ line) (rest : List Char) :
    lines (line ++ '\n' :: rest) = line :: lines rest := by
  have hline : splitWhere (· == '\n') line = [line] := by
    refine splitWhere_eq_self fun c hc => beq_eq_false_iff_ne.mpr ?_
    rintro rfl
    exact h hc
  rw [lines, splitWhere_append rfl, hline]
  rfl

/-- The words of a line: its longest pieces without white space. -/
def words (line : List Char) : List (List Char) :=
  (splitWhere isBlank line).filter fun w => !w.isEmpty

/-- The last word of a line, unless the line is blank. -/
def lastWord? (line : List Char) : Option (List Char) := (words line).getLast?

end OrderedAtomics.Text
