import OrderedAtomics.Proofs.Json.Grammar

/-
  Reading strings of JSON.  A string shows where it ends, so that each of its readers takes exactly
  what the grammar gives off the front of a text, whatever follows: one iff per reader, up to
  `readString_eq_some_iff`.
-/
namespace OrderedAtomics.Json

variable {text rest : List Char} {c : Char} {cs : List Char} {v u fuel : Nat}

/-! ## Codes -/

instance (v : Nat) (c : Char) : Decidable (HexDigit v c) :=
  inferInstanceAs (Decidable (_ ∧ _))

theorem hexDigit?_of_hexDigit (h : HexDigit v c) : hexDigit? c = some v := by
  have hdigits : ∀ v < 16, hexDigit? v.digitChar = some v ∧
      hexDigit? v.digitChar.toUpper = some v := by decide
  obtain ⟨hv, rfl | rfl⟩ := h
  · exact (hdigits v hv).1
  · exact (hdigits v hv).2

theorem toNat_lt_of_hexDigit? (h : hexDigit? c = some v) : c.toNat < 128 := by
  unfold hexDigit? at h
  split at h
  · next hdigit => exact Nat.lt_of_le_of_lt (Char.isDigit_iff_toNat.mp hdigit).2 (by decide)
  split at h
  · next hsmall => exact Nat.lt_of_le_of_lt hsmall.2 (by decide)
  split at h
  · next hcapital => exact Nat.lt_of_le_of_lt hcapital.2 (by decide)
  · cases h

theorem hexDigit_of_hexDigit? (h : hexDigit? c = some v) : HexDigit v c := by
  have hdigits : ∀ n < 128, ∀ v ∈ hexDigit? (Char.ofNat n), HexDigit v (Char.ofNat n) := by decide
  have hc := hdigits c.toNat (toNat_lt_of_hexDigit? h)
  rw [Char.ofNat_toNat] at hc
  exact hc v h

theorem hexDigit?_eq_some_iff : hexDigit? c = some v ↔ HexDigit v c :=
  ⟨hexDigit_of_hexDigit?, hexDigit?_of_hexDigit⟩

theorem readUnit_eq_some_iff : readUnit text = some (u, rest) ↔
    ∃ digits, text = digits ++ rest ∧ UnitText u digits := by
  constructor
  · intro h
    unfold readUnit at h
    split at h
    · next c₃ c₂ c₁ c₀ rest' =>
      simp only [bind, Option.bind_eq_some_iff, hexDigit?_eq_some_iff] at h
      obtain ⟨v₃, h₃, v₂, h₂, v₁, h₁, v₀, h₀, heq⟩ := h
      cases heq
      exact ⟨_, rfl, .digits h₃ h₂ h₁ h₀⟩
    · cases h
  · rintro ⟨digits, rfl, h⟩
    cases h with
    | digits h₃ h₂ h₁ h₀ =>
      simp only [readUnit, List.cons_append, hexDigit?_of_hexDigit h₃, hexDigit?_of_hexDigit h₂,
        hexDigit?_of_hexDigit h₁, hexDigit?_of_hexDigit h₀]
      rfl

theorem readUnit_append {digits : List Char} (h : UnitText u digits) :
    readUnit (digits ++ rest) = some (u, rest) :=
  readUnit_eq_some_iff.mpr ⟨digits, rfl, h⟩

/-! ## Escapes -/

/-- A code after a backslash, and what follows it. -/
theorem readCodeEscape_sound (h : readCodeEscape text = some (c, rest)) :
    ∃ escape, 'u' :: text = escape ++ rest ∧ EscapeText c escape := by
  unfold readCodeEscape at h
  simp only [bind, Option.bind_eq_some_iff] at h
  obtain ⟨⟨u, after⟩, hunit, h⟩ := h
  obtain ⟨digits, rfl, hdigits⟩ := readUnit_eq_some_iff.mp hunit
  dsimp only at h
  split at h
  · cases h
  split at h
  · next hhigh =>
    split at h
    · next rest' =>
      simp only [Option.bind_eq_some_iff] at h
      obtain ⟨⟨low, after'⟩, hlowunit, h⟩ := h
      obtain ⟨digits', rfl, hdigits'⟩ := readUnit_eq_some_iff.mp hlowunit
      dsimp only at h
      split at h
      · next hlow =>
        obtain ⟨rfl, rfl⟩ := Prod.mk.inj (Option.some.inj h)
        exact ⟨_, by simp, .surrogates hdigits hdigits' hhigh hlow⟩
      · cases h
    · cases h
  · next hlone hhigh =>
    obtain ⟨rfl, rfl⟩ := Prod.mk.inj (Option.some.inj h)
    exact ⟨'u' :: digits, rfl, .unit hdigits (by omega)⟩

theorem readEscape_sound (h : readEscape text = some (c, rest)) :
    ∃ escape, text = escape ++ rest ∧ EscapeText c escape := by
  unfold readEscape at h
  split at h
  case h_9 => exact readCodeEscape_sound h
  case h_10 => cases h
  all_goals
    cases h
    exact ⟨[_], rfl, .short (by decide)⟩

theorem readEscape_append {escape : List Char} (h : EscapeText c escape) :
    readEscape (escape ++ rest) = some (c, rest) := by
  cases h with
  | short h =>
    have hshort : ∀ p ∈ shortEscapes, ∀ rest, readEscape (p.1 :: rest) = some (p.2, rest) := by
      simp [shortEscapes, readEscape]
    exact hshort _ h rest
  | @unit u digits h hu =>
    have hlone : ¬ (0xdc00 ≤ u ∧ u ≤ 0xdfff) := by omega
    have hhigh : ¬ (0xd800 ≤ u ∧ u ≤ 0xdbff) := by omega
    rw [List.cons_append]
    simp only [readEscape, readCodeEscape, readUnit_append h, bind, Option.bind_some]
    rw [if_neg hlone, if_neg hhigh]
    rfl
  | @surrogates high low digits digits' h h' hhigh hlow =>
    have hlone : ¬ (0xdc00 ≤ high ∧ high ≤ 0xdfff) := by omega
    have htext : 'u' :: digits ++ '\\' :: 'u' :: digits' ++ rest =
        'u' :: (digits ++ '\\' :: 'u' :: (digits' ++ rest)) := by simp
    rw [htext]
    simp only [readEscape, readCodeEscape, readUnit_append h, readUnit_append h', bind,
      Option.bind_some]
    rw [if_neg hlone, if_pos hhigh, if_pos hlow]
    rfl

/-! ## Strings -/

theorem readCharacters_sound (h : readCharacters fuel text = some (cs, rest)) :
    ∃ characters, text = characters ++ '\x22' :: rest ∧ CharactersText cs characters := by
  induction fuel generalizing text cs with
  | zero => cases h
  | succ fuel ih =>
    cases text with
    | nil => cases h
    | cons c after =>
      rw [readCharacters] at h
      split at h
      · next hquote =>
        obtain ⟨rfl, rfl⟩ := Prod.mk.inj (Option.some.inj h)
        exact ⟨[], by rw [hquote]; rfl, .nil⟩
      split at h
      · next hslash =>
        simp only [bind, Option.bind_eq_some_iff] at h
        obtain ⟨⟨e, after'⟩, hread, ⟨more, rest'⟩, hmore, heq⟩ := h
        obtain ⟨rfl, rfl⟩ := Prod.mk.inj (Option.some.inj heq)
        obtain ⟨escape, rfl, hescape⟩ := readEscape_sound hread
        obtain ⟨characters, rfl, hcharacters⟩ := ih hmore
        exact ⟨_, by simp [hslash], .escaped hescape hcharacters⟩
      split at h
      · cases h
      · next hquote hslash hcontrol =>
        simp only [bind, Option.bind_eq_some_iff] at h
        obtain ⟨⟨more, rest'⟩, hmore, heq⟩ := h
        obtain ⟨rfl, rfl⟩ := Prod.mk.inj (Option.some.inj heq)
        obtain ⟨characters, rfl, hcharacters⟩ := ih hmore
        exact ⟨c :: characters, rfl, .plain hquote hslash (Nat.not_lt.mp hcontrol) hcharacters⟩

theorem readCharacters_append {characters : List Char} (h : CharactersText cs characters)
    (hfuel : characters.length ≤ fuel) :
    readCharacters (fuel + 1) (characters ++ '\x22' :: rest) = some (cs, rest) := by
  induction h generalizing fuel with
  | nil => rw [List.nil_append, readCharacters, if_pos rfl]
  | @plain c cs characters hquote hslash hcontrol h ih =>
    obtain ⟨fuel, rfl⟩ := Nat.exists_eq_add_of_le' hfuel
    rw [List.cons_append, readCharacters, if_neg hquote, if_neg hslash,
      if_neg (Nat.not_lt.mpr hcontrol), List.length_cons, ← Nat.add_assoc,
      ih (Nat.le_add_left _ fuel)]
    rfl
  | @escaped c cs escape characters hescape h ih =>
    obtain ⟨fuel, rfl⟩ := Nat.exists_eq_add_of_le' hfuel
    have hmore : readCharacters (fuel + ('\\' :: escape ++ characters).length)
        (characters ++ '\x22' :: rest) = some (cs, rest) := by
      rw [List.cons_append, List.length_cons, ← Nat.add_assoc]
      refine ih ?_
      rw [List.length_append]
      omega
    rw [List.cons_append, List.cons_append, readCharacters, if_neg (by decide), if_pos rfl,
      List.append_assoc, readEscape_append hescape]
    simp only [bind, Option.bind_some]
    rw [List.cons_append] at hmore
    rw [hmore]
    rfl

/-- A string is read as what the text in front spells. -/
theorem readString_eq_some_iff {s : String} : readString text = some (s, rest) ↔
    ∃ quoted, '\x22' :: text = quoted ++ rest ∧ StringText s quoted := by
  unfold readString
  simp only [bind, Option.bind_eq_some_iff]
  constructor
  · rintro ⟨⟨cs, after⟩, hread, heq⟩
    obtain ⟨rfl, rfl⟩ := Prod.mk.inj (Option.some.inj heq)
    obtain ⟨characters, rfl, h⟩ := readCharacters_sound hread
    exact ⟨_, by simp, .quoted h⟩
  · rintro ⟨quoted, htext, h⟩
    cases h with
    | @quoted cs characters h =>
      have htext : text = characters ++ '\x22' :: rest := by simpa using htext
      refine ⟨(cs, rest), ?_, rfl⟩
      rw [htext]
      exact readCharacters_append h (by simp)

theorem exists_readString {s : String} (h : StringText s text) (rest : List Char) :
    ∃ after, text ++ rest = '\x22' :: after ∧ readString after = some (s, rest) := by
  cases h with
  | quoted h => exact ⟨_, rfl, readString_eq_some_iff.mpr ⟨_, rfl, .quoted h⟩⟩

end OrderedAtomics.Json
