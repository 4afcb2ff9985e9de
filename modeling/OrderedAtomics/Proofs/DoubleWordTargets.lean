import OrderedAtomics.Directives

/-
  Which targets have double words, in terms of what their lists contain.  An entry of a list stands
  between two commas, or the ends of the list, and holds none (`IsEntry`); looking for an entry
  finds whole entries only (`lists_iff`).  So a target is classified by its pointer width, its
  architecture and the sets of its entries (`hasDoubleWord_iff`), and of these sets at most one
  counts, and only whether it has the one entry that the target needs.
-/
namespace OrderedAtomics

/-! ## Entries of a list -/

/-- A text is an entry of a comma-separated list. -/
def IsEntry (list entry : String) : Prop :=
  ',' ∉ entry.toList ∧ ∃ before after, list.toList = before ++ entry.toList ++ after ∧
    (∀ c ∈ before.getLast?, c = ',') ∧ ∀ c ∈ after.head?, c = ','

section IsEntry

variable {list list' entry : String}

theorem lists_iff : lists list entry = true ↔ IsEntry list entry := by
  have hfree : (∀ c ∈ entry.toList, (c == ',') = false) ↔ ',' ∉ entry.toList := by
    simp only [beq_eq_false_iff_ne]
    exact ⟨fun h hc => h _ hc rfl, fun h c hc heq => h (heq ▸ hc)⟩
  unfold lists IsEntry
  rw [List.contains_iff_mem, Text.mem_splitWhere_iff]
  simp only [hfree, beq_iff_eq]
  constructor
  · rintro ⟨before, after, heq, hentry, hbefore, hafter⟩
    exact ⟨hentry, before, after, heq, hbefore, hafter⟩
  · rintro ⟨hentry, before, after, heq, hbefore, hafter⟩
    exact ⟨before, after, heq, hentry, hbefore, hafter⟩

/-- A comma divides the entries before it from those after it. -/
theorem isEntry_append :
    IsEntry (list ++ "," ++ list') entry ↔ IsEntry list entry ∨ IsEntry list' entry := by
  have htext : (list ++ "," ++ list').toList = list.toList ++ ',' :: list'.toList := by
    rw [String.toList_append, String.toList_append, List.append_assoc]
    rfl
  simp only [← lists_iff, lists, htext, List.contains_iff_mem]
  rw [Text.splitWhere_append rfl, List.mem_append]

/-- A list without a comma is its only entry. -/
theorem isEntry_iff_eq (h : ',' ∉ list.toList) : IsEntry list entry ↔ entry = list := by
  have hfree : ∀ c ∈ list.toList, (c == ',') = false := by
    intro c hc
    rw [beq_eq_false_iff_ne]
    rintro rfl
    exact h hc
  rw [← lists_iff, lists, List.contains_iff_mem, Text.splitWhere_eq_self hfree,
    List.mem_singleton, String.toList_inj]

end IsEntry

/-! ## Targets -/

namespace Target

variable {t t' : Target}

/-- The features that an architecture needs for double words, if there is any. -/
def neededFeature? (arch : String) : Option String :=
  if arch = "x86_64" then some "cmpxchg16b"
  else if arch = "powerpc64" then some "quadword-atomics"
  else none

/-- The same machine, with at least the entries of the first target in its lists. -/
structure Extends (t t' : Target) : Prop where
  pointerWidth : t'.pointerWidth = t.pointerWidth
  arch : t'.arch = t.arch
  features : ∀ e, IsEntry t.features e → IsEntry t'.features e
  atomicWidths : ∀ e, IsEntry t.atomicWidths e → IsEntry t'.atomicWidths e

/-- The same machine, with no entries in its lists that the first target lacks and would need. -/
structure Pads (t t' : Target) : Prop where
  pointerWidth : t'.pointerWidth = t.pointerWidth
  arch : t'.arch = t.arch
  features : ∀ e, IsEntry t'.features e → IsEntry t.features e ∨ neededFeature? t.arch ≠ some e
  atomicWidths : ∀ e, IsEntry t'.atomicWidths e → IsEntry t.atomicWidths e ∨ e ≠ "64"

theorem hasDoubleWord_iff :
    t.hasDoubleWord = true ↔
      t.pointerWidth = "32" ∧ IsEntry t.atomicWidths "64" ∨
      t.pointerWidth = "64" ∧ (t.arch = "aarch64" ∨ t.arch = "s390x" ∨
        t.arch = "x86_64" ∧ IsEntry t.features "cmpxchg16b" ∨
        t.arch = "powerpc64" ∧ IsEntry t.features "quadword-atomics") := by
  unfold hasDoubleWord
  split
  · next h => simp [h, lists_iff]
  · next h32 =>
    split
    · next h64 =>
      split
      · next h => simp [h64, h, lists_iff]
      · split
        · next h => simp [h64, h]
        · split
          · next h => simp [h64, h]
          · split
            · next h => simp [h64, h, lists_iff]
            · next hx86 ha64 hs390 hpower => simp [h64, hx86, ha64, hs390, hpower]
    · next h64 => simp [h32, h64]

/-- More entries, in any order and number, never take double words away. -/
theorem Extends.hasDoubleWord (h : Extends t t') (ht : t.hasDoubleWord = true) :
    t'.hasDoubleWord = true := by
  rw [hasDoubleWord_iff] at ht ⊢
  rw [h.pointerWidth, h.arch]
  rcases ht with ⟨hwidth, he⟩ | ⟨hwidth, harch | harch | ⟨harch, he⟩ | ⟨harch, he⟩⟩
  · exact .inl ⟨hwidth, h.atomicWidths _ he⟩
  · exact .inr ⟨hwidth, .inl harch⟩
  · exact .inr ⟨hwidth, .inr (.inl harch)⟩
  · exact .inr ⟨hwidth, .inr (.inr (.inl ⟨harch, h.features _ he⟩))⟩
  · exact .inr ⟨hwidth, .inr (.inr (.inr ⟨harch, h.features _ he⟩))⟩

/-- Entries that are not needed never bring double words. -/
theorem Pads.hasDoubleWord (h : Pads t t') (ht : t'.hasDoubleWord = true) :
    t.hasDoubleWord = true := by
  rw [hasDoubleWord_iff] at ht ⊢
  rw [h.pointerWidth, h.arch] at ht
  have hfeature : ∀ e, neededFeature? t.arch = some e → IsEntry t'.features e →
      IsEntry t.features e := fun e hneeded he =>
    (h.features e he).resolve_right fun hne => hne hneeded
  rcases ht with ⟨hwidth, he⟩ | ⟨hwidth, harch | harch | ⟨harch, he⟩ | ⟨harch, he⟩⟩
  · exact .inl ⟨hwidth, (h.atomicWidths _ he).resolve_right fun hne => hne rfl⟩
  · exact .inr ⟨hwidth, .inl harch⟩
  · exact .inr ⟨hwidth, .inr (.inl harch)⟩
  · exact .inr ⟨hwidth, .inr (.inr (.inl ⟨harch, hfeature _ (by rw [harch]; rfl) he⟩))⟩
  · exact .inr ⟨hwidth, .inr (.inr (.inr ⟨harch, hfeature _ (by rw [harch]; rfl) he⟩))⟩

/-- Of a target that is 64 bits wide the atomic widths do not count. -/
theorem hasDoubleWord_widths (h : t.pointerWidth = "64") (widths : String) :
    { t with atomicWidths := widths }.hasDoubleWord = t.hasDoubleWord := by
  unfold hasDoubleWord
  simp [h]

/-- Of a target that is 32 bits wide only the atomic widths count. -/
theorem hasDoubleWord_machine (h : t.pointerWidth = "32") (arch features : String) :
    { t with arch, features }.hasDoubleWord = t.hasDoubleWord := by
  unfold hasDoubleWord
  simp [h]

/-- **A target is classified by the sets of its entries.** It has double words exactly if it is 32
bits wide and lists an atomic width of 64, or is 64 bits wide and of one of four architectures, of
which two need an entry among the features.  Entries added to its lists, rearranged or repeated do
not take that away; entries other than the needed one do not bring it, whatever they contain; and
equal sets of entries give equal answers.  The lists of the other width have no influence. -/
theorem hasDoubleWord_by_entries (t : Target) :
    (t.hasDoubleWord = true ↔
      t.pointerWidth = "32" ∧ IsEntry t.atomicWidths "64" ∨
      t.pointerWidth = "64" ∧ (t.arch = "aarch64" ∨ t.arch = "s390x" ∨
        t.arch = "x86_64" ∧ IsEntry t.features "cmpxchg16b" ∨
        t.arch = "powerpc64" ∧ IsEntry t.features "quadword-atomics")) ∧
    (∀ t', Extends t t' → t.hasDoubleWord = true → t'.hasDoubleWord = true) ∧
    (∀ t', Pads t t' → t'.hasDoubleWord = true → t.hasDoubleWord = true) ∧
    (∀ t', Extends t t' → Extends t' t → t'.hasDoubleWord = t.hasDoubleWord) ∧
    (t.pointerWidth = "64" → ∀ widths,
      { t with atomicWidths := widths }.hasDoubleWord = t.hasDoubleWord) ∧
    (t.pointerWidth = "32" → ∀ arch features,
      { t with arch, features }.hasDoubleWord = t.hasDoubleWord) := by
  refine ⟨hasDoubleWord_iff, fun t' h => h.hasDoubleWord, fun t' h => h.hasDoubleWord, ?_,
    hasDoubleWord_widths, hasDoubleWord_machine⟩
  intro t' h h'
  rw [Bool.eq_iff_iff]
  exact ⟨h'.hasDoubleWord, h.hasDoubleWord⟩

/-- A target with the instruction, if its features say so. -/
def x86 (features : String) : Target := ⟨"64", "x86_64", features, "8,16,32,64,ptr"⟩

/-- The needed entry counts among others and at another place, one that only begins with it does
not, and of the lists of the other width none does. -/
theorem hasDoubleWord_by_entries_rearranged :
    Extends (x86 ("sse" ++ "," ++ "cmpxchg16b")) (x86 ("cmpxchg16b" ++ "," ++ "sse" ++ "," ++ "")) ∧
    (x86 ("cmpxchg16b" ++ "," ++ "sse" ++ "," ++ "")).hasDoubleWord = true ∧
    Pads (x86 "sse") (x86 ("cmpxchg16bx" ++ "," ++ "sse")) ∧
    (x86 ("cmpxchg16bx" ++ "," ++ "sse")).hasDoubleWord = false ∧
    { x86 "sse" with atomicWidths := "128" }.hasDoubleWord = false ∧
    hasDoubleWord ⟨"32", "s390x", "cmpxchg16b", "8,640"⟩ = false := by
  obtain ⟨hlisted, hextends, -⟩ := hasDoubleWord_by_entries (x86 ("sse" ++ "," ++ "cmpxchg16b"))
  obtain ⟨-, -, hpads, -, hwidths, -⟩ := hasDoubleWord_by_entries (x86 "sse")
  obtain ⟨-, -, -, -, -, hmachine⟩ := hasDoubleWord_by_entries ⟨"32", "arm", "v7", "8,640"⟩
  have hmore : Extends (x86 ("sse" ++ "," ++ "cmpxchg16b"))
      (x86 ("cmpxchg16b" ++ "," ++ "sse" ++ "," ++ "")) := by
    refine ⟨rfl, rfl, fun e he => ?_, fun e he => he⟩
    rcases isEntry_append.mp he with he | he
    · exact isEntry_append.mpr (.inl (isEntry_append.mpr (.inr he)))
    · exact isEntry_append.mpr (.inl (isEntry_append.mpr (.inl he)))
  have hpadded : Pads (x86 "sse") (x86 ("cmpxchg16bx" ++ "," ++ "sse")) := by
    refine ⟨rfl, rfl, fun e he => ?_, fun e he => .inl he⟩
    rcases isEntry_append.mp he with he | he
    · rw [(isEntry_iff_eq (by decide)).mp he]
      exact .inr (by decide)
    · exact .inl he
  refine ⟨hmore, hextends _ hmore (hlisted.mpr ?_), hpadded, ?_, ?_, ?_⟩
  · refine .inr ⟨rfl, .inr (.inr (.inl ⟨rfl, isEntry_append.mpr (.inr ?_)⟩))⟩
    exact (isEntry_iff_eq (by decide)).mpr rfl
  · exact Bool.eq_false_iff.mpr fun h => nomatch hpads _ hpadded h
  · exact hwidths rfl "128"
  · exact hmachine rfl "s390x" "cmpxchg16b"

end Target

end OrderedAtomics
