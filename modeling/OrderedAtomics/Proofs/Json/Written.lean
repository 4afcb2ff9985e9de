import OrderedAtomics.Proofs.Json.Grammar
import OrderedAtomics.Text.JsonString

/-
  JSON that is written out.  A string is escaped one character after the other, and each piece is
  what the grammar has for its character (`charactersText_cons`); a natural number stands in
  decimal, and only zero begins with a zero (`eq_zero_of_head?`).  Items and members stand one a
  line, and one induction over the lines takes both to the grammar (`of_lines`).
-/
namespace OrderedAtomics.Json

variable {double? : Numeral → Option Float} {r : Reader} {n depth : Nat} {text after : List Char}

/-! ## Strings and numbers -/

/-- A character is escaped as the grammar has it, or stands as itself where it may. -/
theorem charactersText_cons (c : Char) {cs : List Char} (h : CharactersText cs text) :
    CharactersText (c :: cs) (Text.jsonChar c ++ text) := by
  unfold Text.jsonChar
  split
  iterate 7 exact .escaped (.short (by decide)) h
  next hquote hslash _ _ _ _ _ =>
  split
  · next hcontrol =>
    have hdigit : ∀ v < 16, HexDigit v v.digitChar := fun v hv => ⟨hv, .inl rfl⟩
    have hunit := UnitText.digits (hdigit 0 (by decide)) (hdigit 0 (by decide))
      (hdigit (c.toNat / 16) (by omega)) (hdigit (c.toNat % 16) (by omega))
    have hcode : 4096 * 0 + 256 * 0 + 16 * (c.toNat / 16) + c.toNat % 16 = c.toNat := by omega
    rw [hcode] at hunit
    have hescape := EscapeText.unit hunit (.inl (by omega))
    rw [Char.ofNat_toNat] at hescape
    exact .escaped hescape h
  · next hcontrol => exact .plain hquote hslash (by omega) h

theorem stringText_jsonString (s : String) : StringText s (Text.jsonString s).toList := by
  have hcharacters : ∀ cs : List Char, CharactersText cs (cs.flatMap Text.jsonChar) := by
    intro cs
    induction cs with
    | nil => exact .nil
    | cons c cs ih => exact charactersText_cons c ih
  have hquoted := StringText.quoted (hcharacters s.toList)
  rw [String.ofList_toList] at hquoted
  rw [Text.jsonString, String.toList_ofList]
  exact hquoted

/-- Only zero begins with a zero. -/
theorem eq_zero_of_head? (h : (Nat.toDigits 10 n).head? = some '0') : n = 0 := by
  induction n using Nat.strongRecOn with
  | ind n ih =>
    by_cases hn : n < 10
    · have hdigit : ∀ d < 10, [Nat.digitChar d].head? = some '0' → d = 0 := by decide
      rw [Nat.toDigits_of_lt_base hn] at h
      exact hdigit n hn h
    · have hne : Nat.toDigits 10 (n / 10) ≠ [] := Nat.toDigits_ne_nil
      obtain ⟨c, cs, hcs⟩ := List.exists_cons_of_ne_nil hne
      rw [Nat.toDigits_of_base_le (by decide) (by omega), hcs] at h
      have hquotient := ih (n / 10) (by omega) (by rw [hcs]; exact h)
      omega

theorem digits_toDigits (n : Nat) : Digits (Nat.toDigits 10 n) :=
  ⟨Nat.toDigits_ne_nil, fun _ hc => Nat.isDigit_of_mem_toDigits (by decide) (by decide) hc⟩

theorem numeralText_natural (n : Nat) :
    NumeralText { negative := false, whole := Nat.toDigits 10 n } (toString n).toList := by
  have hzero : (Nat.toDigits 10 n).head? = some '0' → Nat.toDigits 10 n = ['0'] := by
    intro h
    rw [eq_zero_of_head? h]
    rfl
  have htext : (toString n).toList = signText false ++ Nat.toDigits 10 n ++ [] ++ [] := by
    rw [List.append_nil, List.append_nil]
    exact Nat.toList_repr
  rw [htext]
  exact .parts (digits_toDigits n) hzero .absent .absent

theorem spells_string (s : String) :
    Spells double? depth (.value (.text s)) (Text.jsonString s).toList :=
  .text (stringText_jsonString s)

/-- A number that fits 64 bits is read as it was written. -/
theorem Reader.Strict.spells_natural (hr : r.Strict) (h : n < UInt64.size) :
    Spells r.double? depth (.value (.number (UInt64.ofNat n).toFloat)) (toString n).toList := by
  have hvalue : valueOf (Nat.toDigits 10 n) = n := Nat.ofDigitChars_ten_toDigits
  have hdouble := hr.whole false (Nat.toDigits 10 n) (digits_toDigits n) (by rwa [hvalue])
  rw [hvalue] at hdouble
  exact .number (numeralText_natural n) hdouble

/-! ## Items and members, one a line -/

section Lines

variable {α : Type} {a : α} {as : List α} {written : α → List Char}

theorem of_lines {P : List α → List Char → Prop} (hne : as ≠ [])
    (hlast : ∀ a ∈ as, P [a] ('\n' :: (written a ++ after)))
    (hcons : ∀ a ∈ as, ∀ rest text, P rest text →
      P (a :: rest) ('\n' :: (written a ++ ',' :: text))) :
    P as ('\n' :: ([',', '\n'].intercalate (as.map written) ++ after)) := by
  induction as with
  | nil => exact absurd rfl hne
  | cons a as ih =>
    cases as with
    | nil =>
      rw [List.map_singleton, List.intercalate_singleton]
      exact hlast a List.mem_cons_self
    | cons b as =>
      have hrest := ih (List.cons_ne_nil b as)
        (fun c hc => hlast c (List.mem_cons_of_mem a hc))
        (fun c hc => hcons c (List.mem_cons_of_mem a hc))
      have := hcons a List.mem_cons_self _ _ hrest
      rw [List.map_cons, List.map_cons, List.intercalate_cons_cons, List.append_assoc,
        List.append_assoc]
      exact this

theorem blank_break (h : Blank text) : Blank ('\n' :: text) :=
  List.forall_mem_cons.mpr ⟨by decide, h⟩

theorem spells_items {document : α → Document} (hne : as ≠ [])
    (h : ∀ a ∈ as, Spells double? depth (.value (document a)) (written a)) (hafter : Blank after) :
    Spells double? depth (.items (as.map document))
      ('\n' :: ([',', '\n'].intercalate (as.map written) ++ after)) := by
  refine of_lines (P := fun as text => Spells double? depth (.items (as.map document)) text)
    hne ?_ ?_
  · intro a ha
    exact .lastItem (.padded (blank_break blank_nil) (h a ha) hafter)
  · intro a ha rest text hrest
    exact .item (.indented (blank_break blank_nil) (h a ha)) hrest

theorem spells_members {name : α → String} {document : α → Document} (hne : as ≠ [])
    (h : ∀ a ∈ as, ∃ before text, Blank before ∧
      written a = before ++ (Text.jsonString (name a)).toList ++ ':' :: text ∧
      Spells double? depth (.value (document a)) text) (hafter : Blank after) :
    Spells double? depth (.members (as.map fun a => (name a, document a)))
      ('\n' :: ([',', '\n'].intercalate (as.map written) ++ after)) := by
  refine of_lines
    (P := fun as text =>
      Spells double? depth (.members (as.map fun a => (name a, document a))) text) hne ?_ ?_
  · intro a ha
    obtain ⟨before, text, hbefore, heq, htext⟩ := h a ha
    have hmember := Spells.lastMember (blank_break hbefore) (stringText_jsonString (name a))
      blank_nil (htext.ended hafter)
    simpa [heq] using hmember
  · intro a ha rest more hrest
    obtain ⟨before, text, hbefore, heq, htext⟩ := h a ha
    have hmember := Spells.member (blank_break hbefore) (stringText_jsonString (name a)) blank_nil
      htext hrest
    simpa [heq] using hmember

end Lines

end OrderedAtomics.Json
