import OrderedAtomics.Text.Escape

/-
  Escaped text read back.  A character is written as itself, as a backslash and one more character,
  or by its code point (`escapeChar_cases`), whichever of the tables holds it; and a backslash never
  stands for itself.  So a reader that only looks for backslashes finds each character again
  (`readFrom_escapeChar`), although it knows neither the tables nor where a character stood
  (`unescape_escaped`).  What is written has no control characters (`free_escaped`).
-/
namespace OrderedAtomics.Text

/-! ## The reader -/

namespace Unescape

/-- Where the reader is. -/
inductive Place where
  /-- Between characters. -/
  | between
  /-- After a backslash. -/
  | escape
  /-- After the letter that begins an escape by code point. -/
  | codePoint
  /-- Among the digits of a code point; `code` is what they say so far. -/
  | digits (code : Nat)

/-- The character that a letter after a backslash stands for. -/
def short? (c : Char) : Option Char :=
  match c with
  | '0' => some '\x00'
  | 't' => some '\t'
  | 'r' => some '\r'
  | 'n' => some '\n'
  | '\\' => some '\\'
  | '\x22' => some '\x22'
  | '\x27' => some '\x27'
  | _ => none

/-- The value of a lower-case hexadecimal digit. -/
def digit? (c : Char) : Option Nat :=
  if '0' ≤ c ∧ c ≤ '9' then some (c.toNat - '0'.toNat)
  else if 'a' ≤ c ∧ c ≤ 'f' then some (c.toNat - 'a'.toNat + 10)
  else none

/-- The characters that are written from a place on. -/
def readFrom : Place → List Char → Option (List Char)
  | .between, [] => some []
  | .between, c :: cs =>
    if c = '\\' then readFrom .escape cs else (readFrom .between cs).map (c :: ·)
  | .escape, c :: cs =>
    if c = 'u' then readFrom .codePoint cs
    else (short? c).bind fun d => (readFrom .between cs).map (d :: ·)
  | .codePoint, c :: cs => if c = '\x7b' then readFrom (.digits 0) cs else none
  | .digits code, c :: cs =>
    if c = '\x7d' then (readFrom .between cs).map (Char.ofNat code :: ·)
    else (digit? c).bind fun d => readFrom (.digits (16 * code + d)) cs
  | _, [] => none

end Unescape

/-- The text that an escaped text stands for. -/
def unescape (s : String) : Option String :=
  (Unescape.readFrom .between s.toList).map String.ofList

/-! ## Control characters -/

/-- The control characters of ASCII. -/
def isControl (c : Char) : Bool := decide (c.toNat < 0x20) || c.toNat == 0x7f

/-- A text has none of the control characters. -/
def ControlFree (cs : List Char) : Prop := ∀ c ∈ cs, isControl c = false

instance (cs : List Char) : Decidable (ControlFree cs) :=
  List.decidableBAll (fun c => isControl c = false) cs

theorem ControlFree.append {cs ds : List Char} (h : ControlFree cs) (h' : ControlFree ds) :
    ControlFree (cs ++ ds) := by
  intro c hc
  rcases List.mem_append.mp hc with hc | hc
  · exact h c hc
  · exact h' c hc

/-! ## What is written for a character -/

theorem shortEscape?_eq_some {c : Char} {e : List Char} (h : shortEscape? c = some e) :
    ∃ d, e = ['\\', d] ∧ d ≠ 'u' ∧ isControl d = false ∧ Unescape.short? d = some c := by
  unfold shortEscape? at h
  split at h <;> cases h <;> exact ⟨_, rfl, by decide, by decide, rfl⟩

/-- A character is written as a short escape, by its code point, or as itself. -/
theorem escapeChar_cases (bare : Bool) (c : Char) :
    (∃ d, escapeChar bare c = ['\\', d] ∧ d ≠ 'u' ∧ isControl d = false ∧
      Unescape.short? d = some c) ∨
      escapeChar bare c = codeEscape c ∨
        escapeChar bare c = [c] ∧ c ≠ '\\' ∧ isPrintable c = true := by
  unfold escapeChar
  split
  · next e he => exact .inl (shortEscape?_eq_some he)
  · next hnone =>
    have hne : c ≠ '\\' := by
      rintro rfl
      cases hnone
    split
    · exact .inr (.inl rfl)
    · split
      · next hprint => exact .inr (.inr ⟨rfl, hne, hprint⟩)
      · exact .inr (.inl rfl)

namespace Unescape

variable {c : Char} {rest : List Char}

theorem digit?_digitChar : ∀ d < 16, digit? (Nat.digitChar d) = some d := by decide

theorem readFrom_digit {code d : Nat} (hd : d < 16) :
    readFrom (.digits code) (Nat.digitChar d :: rest) =
      readFrom (.digits (16 * code + d)) rest := by
  have hdigit := digit?_digitChar d hd
  have hne : Nat.digitChar d ≠ '\x7d' := by
    intro heq
    rw [heq] at hdigit
    cases hdigit
  rw [readFrom, if_neg hne, hdigit, Option.bind_some]

/-- The digits of a number say this number.  The induction takes off the last digit. -/
theorem readFrom_toDigits (n : Nat) :
    readFrom (.digits 0) (Nat.toDigits 16 n ++ rest) = readFrom (.digits n) rest := by
  induction n using Nat.strongRecOn generalizing rest with
  | ind n ih =>
    rw [Nat.toDigits_eq_if (by decide)]
    split
    · next hlt => rw [List.singleton_append, readFrom_digit hlt, Nat.mul_zero, Nat.zero_add]
    · next hge =>
      have hsmaller : n / 16 < n := by omega
      rw [List.append_assoc, ih (n / 16) hsmaller, List.singleton_append,
        readFrom_digit (Nat.mod_lt n (by decide)), Nat.div_add_mod]

theorem readFrom_codeEscape :
    readFrom .between (codeEscape c ++ rest) = (readFrom .between rest).map (c :: ·) := by
  have hescape : codeEscape c ++ rest =
      '\\' :: 'u' :: '\x7b' :: (Nat.toDigits 16 c.toNat ++ '\x7d' :: rest) := by
    simp [codeEscape]
  rw [hescape, readFrom, if_pos rfl, readFrom, if_pos rfl, readFrom, if_pos rfl, readFrom_toDigits,
    readFrom, if_pos rfl, Char.ofNat_toNat]

/-- Whatever a character is written as, the reader finds it. -/
theorem readFrom_escapeChar (bare : Bool) :
    readFrom .between (escapeChar bare c ++ rest) = (readFrom .between rest).map (c :: ·) := by
  rcases escapeChar_cases bare c with ⟨d, h, hne, -, hshort⟩ | h | ⟨h, hne, -⟩
  · rw [h, List.cons_append, List.singleton_append, readFrom, if_pos rfl, readFrom, if_neg hne,
      hshort, Option.bind_some]
  · rw [h, readFrom_codeEscape]
  · rw [h, List.singleton_append, readFrom, if_neg hne]

theorem readFrom_flatMap (cs : List Char) :
    readFrom .between (cs.flatMap (escapeChar true)) = some cs := by
  induction cs with
  | nil => rfl
  | cons c cs ih => rw [List.flatMap_cons, readFrom_escapeChar, ih, Option.map_some]

theorem readFrom_escapeChars (cs : List Char) : readFrom .between (escapeChars cs) = some cs := by
  cases cs with
  | nil => rfl
  | cons c cs => rw [escapeChars, readFrom_escapeChar, readFrom_flatMap, Option.map_some]

end Unescape

/-- Nothing is lost by escaping. -/
theorem unescape_escaped (s : String) : unescape (escaped s) = some s := by
  rw [unescape, escaped, String.toList_ofList, Unescape.readFrom_escapeChars, Option.map_some,
    String.ofList_toList]

/-! ## What is written has no control characters -/

theorem isPrintable_of_mem {r : CharRange} {c : Char} (hmem : r ∈ unprintableRanges)
    (hfirst : r.1 ≤ c.toNat) (hlast : c.toNat ≤ r.2) : isPrintable c = false := by
  have hcovers : CharRange.covers unprintableRanges c = true := by
    rw [CharRange.covers, List.any_eq_true]
    exact ⟨r, hmem, by simp [hfirst, hlast]⟩
  rw [isPrintable, hcovers]
  rfl

theorem isPrintable_of_isControl {c : Char} (h : isControl c = true) : isPrintable c = false := by
  have hlow : ((0x0, 0x1f) : CharRange) ∈ unprintableRanges := List.mem_cons_self
  have hdelete : ((0x7f, 0xa0) : CharRange) ∈ unprintableRanges :=
    List.mem_cons_of_mem _ List.mem_cons_self
  rw [isControl, Bool.or_eq_true, decide_eq_true_eq, beq_iff_eq] at h
  rcases h with hlt | heq
  · exact isPrintable_of_mem hlow (Nat.zero_le _) (by omega)
  · exact isPrintable_of_mem hdelete (by omega) (by omega)

theorem isControl_digitChar : ∀ d < 16, isControl (Nat.digitChar d) = false := by decide

theorem free_toDigits (n : Nat) : ControlFree (Nat.toDigits 16 n) := by
  induction n using Nat.strongRecOn with
  | ind n ih =>
    rw [Nat.toDigits_eq_if (by decide)]
    split
    · next hlt => simpa [ControlFree] using isControl_digitChar n hlt
    · next hge =>
      have hsmaller : n / 16 < n := by omega
      have hlast : n % 16 < 16 := Nat.mod_lt n (by decide)
      exact (ih (n / 16) hsmaller).append (by simpa [ControlFree] using isControl_digitChar _ hlast)

theorem free_escapeChar (bare : Bool) (c : Char) : ControlFree (escapeChar bare c) := by
  rcases escapeChar_cases bare c with ⟨d, h, -, hd, -⟩ | h | ⟨h, -, hprint⟩
  · have hbackslash : isControl '\\' = false := by decide
    rw [h]
    simp [ControlFree, hbackslash, hd]
  · have hopening : ControlFree ['\\', 'u', '\x7b'] := by decide
    have hclosing : ControlFree ['\x7d'] := by decide
    rw [h]
    exact (hopening.append (free_toDigits c.toNat)).append hclosing
  · have hc : isControl c = false := by
      cases hcontrol : isControl c with
      | false => rfl
      | true => exact absurd hprint (by simp [isPrintable_of_isControl hcontrol])
    rw [h]
    simpa [ControlFree] using hc

/-- Escaped text has no control characters. -/
theorem free_escaped (s : String) : ControlFree (escaped s).toList := by
  have hflat : ∀ cs : List Char, ControlFree (cs.flatMap (escapeChar true)) := by
    intro cs c hc
    obtain ⟨d, -, hc⟩ := List.mem_flatMap.mp hc
    exact free_escapeChar true d c hc
  rw [escaped, String.toList_ofList]
  cases s.toList with
  | nil => exact nofun
  | cons c cs => exact (free_escapeChar false c).append (hflat cs)

end OrderedAtomics.Text
