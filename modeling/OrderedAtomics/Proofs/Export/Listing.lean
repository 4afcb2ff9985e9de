import OrderedAtomics.Export.Audit
import OrderedAtomics.Proofs.Text.Utf8
import Mathlib.Data.Set.Defs

/-
  Which names a listing shows.  A listing is any bytes; a line ends in a word when blanks alone
  follow the word and nothing, or a blank, stands before it (`EndsIn`).  The reader of lines finds
  that word and none in a blank line (`lastWord?_eq_some_iff`), and so what the audit takes for the
  exported names are those that lines end in, as a set (`mem_exportedNames`).  Nothing else of the
  lines matters, nor their order or number (`Rearranged.shownNames_eq`).
-/
namespace OrderedAtomics.Text

/-! ## The last word of a line -/

/-- A line ends in a word, but for blanks. -/
def EndsIn (line word : List Char) : Prop :=
  ∃ before after, line = before ++ word ++ after ∧ word ≠ [] ∧
    (∀ c ∈ word, isBlank c = false) ∧ (∀ c ∈ after, isBlank c = true) ∧
    ∀ c ∈ before.getLast?, isBlank c = true

theorem words_append {c : Char} (hc : isBlank c = true) (a b : List Char) :
    words (a ++ c :: b) = words a ++ words b := by
  rw [words, splitWhere_append hc, List.filter_append]
  rfl

theorem words_eq_nil {line : List Char} (h : ∀ c ∈ line, isBlank c = true) : words line = [] := by
  induction line with
  | nil => rfl
  | cons c line ih =>
    obtain ⟨hc, hline⟩ := List.forall_mem_cons.mp h
    have hwords := words_append hc [] line
    rw [List.nil_append] at hwords
    rw [hwords, ih hline]
    rfl

theorem words_append_blanks {after : List Char} (h : ∀ c ∈ after, isBlank c = true)
    (line : List Char) : words (line ++ after) = words line := by
  cases after with
  | nil => rw [List.append_nil]
  | cons c after =>
    obtain ⟨hc, hafter⟩ := List.forall_mem_cons.mp h
    rw [words_append hc, words_eq_nil hafter, List.append_nil]

theorem words_eq_self {word : List Char} (hne : word ≠ []) (h : ∀ c ∈ word, isBlank c = false) :
    words word = [word] := by
  rw [words, splitWhere_eq_self h, List.filter_eq_self]
  intro w hw
  rw [List.mem_singleton.mp hw, List.isEmpty_eq_false_iff.mpr hne]
  rfl

theorem EndsIn.lastWord? {line word : List Char} (h : EndsIn line word) :
    lastWord? line = some word := by
  obtain ⟨before, after, rfl, hne, hword, hafter, hbefore⟩ := h
  rw [Text.lastWord?, words_append_blanks hafter]
  rcases List.eq_nil_or_concat before with rfl | ⟨init, c, rfl⟩
  · rw [List.nil_append, words_eq_self hne hword]
    rfl
  · have hc : isBlank c = true := hbefore c (by simp)
    rw [List.concat_append, words_append hc, words_eq_self hne hword, List.getLast?_concat]

/-- A line that is not blank ends in some word. -/
theorem exists_endsIn (line : List Char) :
    (∀ c ∈ line, isBlank c = true) ∨ ∃ word, EndsIn line word := by
  induction line with
  | nil => exact .inl (List.forall_mem_nil _)
  | cons c line ih =>
    cases hc : isBlank c with
    | true =>
      rcases ih with hblank | ⟨word, before, after, rfl, hne, hword, hafter, hbefore⟩
      · exact .inl (List.forall_mem_cons.mpr ⟨hc, hblank⟩)
      · refine .inr ⟨word, c :: before, after, rfl, hne, hword, hafter, ?_⟩
        cases before with
        | nil => simpa using hc
        | cons d before => rwa [List.getLast?_cons_cons]
    | false =>
      rcases ih with hblank | ⟨word, before, after, rfl, hne, hword, hafter, hbefore⟩
      · exact .inr ⟨[c], [], line, rfl, by simp, by simpa using hc, hblank, by simp⟩
      · -- the character continues the word if nothing stands between them
        cases before with
        | nil =>
          exact .inr ⟨c :: word, [], after, rfl, by simp, List.forall_mem_cons.mpr ⟨hc, hword⟩,
            hafter, by simp⟩
        | cons d before =>
          refine .inr ⟨word, c :: d :: before, after, rfl, hne, hword, hafter, ?_⟩
          rwa [List.getLast?_cons_cons]

/-- The last word of a line is what the line ends in. -/
theorem lastWord?_eq_some_iff {line word : List Char} :
    lastWord? line = some word ↔ EndsIn line word := by
  refine ⟨fun h => ?_, EndsIn.lastWord?⟩
  rcases exists_endsIn line with hblank | ⟨word', hends⟩
  · rw [lastWord?, words_eq_nil hblank] at h
    cases h
  · rw [hends.lastWord?] at h
    cases h
    exact hends

end OrderedAtomics.Text

namespace OrderedAtomics.Export

open Text (Bytes EndsIn byteLines)
open Text.Utf8 (decodeLossy)

/-! ## Names -/

/-- A line of some lines of bytes ends in a word. -/
def Shows (lines : List Bytes) (word : List Char) : Prop :=
  ∃ line ∈ lines, EndsIn (decodeLossy line) word

/-- The names of the surface that a listing shows: each as it is written in the library, or with one
more underscore before it. -/
def shownNames (listing : Bytes) : Set String :=
  {name | "_sa_".toList <+: name.toList ∧
    (Shows (byteLines listing) name.toList ∨ Shows (byteLines listing) ('_' :: name.toList))}

theorem mem_lastWords {listing : Bytes} {word : List Char} :
    word ∈ (Text.lines (decodeLossy listing)).filterMap Text.lastWord? ↔
      Shows (byteLines listing) word := by
  rw [Text.lines_decodeLossy, List.filterMap_map, List.mem_filterMap]
  simp only [Function.comp_apply, Text.lastWord?_eq_some_iff]
  rfl

namespace Audit

theorem isSurfaceName_iff {name : List Char} :
    isSurfaceName name = true ↔ "_sa_".toList <+: name := by
  constructor
  · intro h
    unfold isSurfaceName at h
    split at h
    · exact List.prefix_append "_sa_".toList _
    · cases h
  · rintro ⟨rest, rfl⟩
    rfl

/-- What a name of the surface may be written as. -/
theorem normalize_eq_iff {word name : List Char} (h : "_sa_".toList <+: name) :
    normalize word = name ↔ word = name ∨ word = '_' :: name := by
  obtain ⟨rest, rfl⟩ := h
  unfold normalize
  constructor
  · intro h
    split at h
    · exact .inr (congrArg _ h)
    · exact .inl h
  · rintro (rfl | rfl)
    · split
      · next heq => cases heq
      · rfl
    · rfl

theorem mem_exportedNames {listing : Bytes} {name : String} :
    name ∈ exportedNames listing ↔ name ∈ shownNames listing := by
  have hlisted : name ∈ exportedNames listing ↔
      "_sa_".toList <+: name.toList ∧
        ∃ word, Shows (byteLines listing) word ∧ normalize word = name.toList := by
    rw [exportedNames, Text.NameSet.mem_ofList, listedNames, List.mem_map]
    constructor
    · rintro ⟨cs, hcs, rfl⟩
      obtain ⟨hmem, hsurface⟩ := List.mem_filter.mp hcs
      obtain ⟨word, hword, hnormal⟩ := List.mem_map.mp hmem
      refine ⟨isSurfaceName_iff.mp ?_, word, mem_lastWords.mp hword, ?_⟩
      · rwa [String.toList_ofList]
      · rwa [String.toList_ofList]
    · rintro ⟨hsurface, word, hword, hnormal⟩
      refine ⟨name.toList, List.mem_filter.mpr ⟨List.mem_map.mpr ⟨word, ?_, hnormal⟩, ?_⟩, ?_⟩
      · exact mem_lastWords.mpr hword
      · exact isSurfaceName_iff.mpr hsurface
      · exact String.ofList_toList
  rw [hlisted]
  refine and_congr_right fun hsurface => ?_
  simp only [normalize_eq_iff hsurface, and_or_left, exists_or, exists_eq_right]

end Audit

/-! ## Rearranging -/

/-- Lines that differ in their order, in how often they occur, and in anything but the words that
they end in. -/
inductive Rearranged : List Bytes → List Bytes → Prop where
  | permuted {lines lines' : List Bytes} (h : lines.Perm lines') : Rearranged lines lines'
  | repeated {line : Bytes} {lines : List Bytes} (h : line ∈ lines) :
      Rearranged lines (line :: lines)
  | altered {line line' : Bytes} {word : List Char} (before after : List Bytes)
      (h : EndsIn (decodeLossy line) word) (h' : EndsIn (decodeLossy line') word) :
      Rearranged (before ++ line :: after) (before ++ line' :: after)
  | symm {lines lines' : List Bytes} : Rearranged lines lines' → Rearranged lines' lines
  | trans {lines lines' lines'' : List Bytes} :
      Rearranged lines lines' → Rearranged lines' lines'' → Rearranged lines lines''

/-- A line ends in one word only. -/
theorem endsIn_unique {line word word' : List Char} (h : EndsIn line word)
    (h' : EndsIn line word') : word = word' := by
  have heq : some word = some word' := h.lastWord?.symm.trans h'.lastWord?
  exact Option.some.inj heq

theorem Rearranged.shows_iff {lines lines' : List Bytes} (h : Rearranged lines lines')
    (word : List Char) : Shows lines word ↔ Shows lines' word := by
  unfold Shows
  induction h with
  | permuted h => simp only [h.mem_iff]
  | repeated h =>
    constructor
    · rintro ⟨line, hline, hends⟩
      exact ⟨line, List.mem_cons_of_mem _ hline, hends⟩
    · rintro ⟨line, hline, hends⟩
      rcases List.mem_cons.mp hline with rfl | hline
      · exact ⟨line, h, hends⟩
      · exact ⟨line, hline, hends⟩
  | @altered line line' w before after hends hends' =>
    have hsame : EndsIn (decodeLossy line) word ↔ EndsIn (decodeLossy line') word := by
      constructor
      · intro h
        rwa [endsIn_unique h hends]
      · intro h
        rwa [endsIn_unique h hends']
    simp only [List.mem_append, List.mem_cons, or_and_right, exists_or, exists_eq_left, hsame]
  | symm _ ih => exact ih.symm
  | trans _ _ ih ih' => exact ih.trans ih'

end OrderedAtomics.Export
