import OrderedAtomics.Proofs.Json.Grammar

/-
  Reading numerals of JSON.  A numeral does not show where it ends: its readers go on as long as
  there are digits, so that they take all of it only where something else follows (`Follows`).  The
  digits before the point, those after it and the exponent are read one after the other, and each
  reader has an equation for a text cut where it stops (`wholeDigits_append`,
  `fractionDigits_append`, `readExponent_marked`).  From these come what a numeral is read as
  (`readNumber_append`) and that nothing else is read as a number (`readNumber_sound`).
-/
namespace OrderedAtomics.Json

variable {text rest digits : List Char} {c : Char} {n significand : Nat} {negative : Bool}
  {exponent : Int} {x : Float}

/-! ## Runs of digits -/

theorem digit?_of_isDigit (h : c.isDigit = true) : digit? c = some (c.toNat - '0'.toNat) := if_pos h

theorem digit?_of_not_isDigit (h : c.isDigit = false) : digit? c = none :=
  if_neg (by rw [h]; exact Bool.false_ne_true)

/-- Any text begins with all the digits there are before something else. -/
theorem exists_digits (text : List Char) : ∃ digits rest, text = digits ++ rest ∧
    (∀ c ∈ digits, c.isDigit = true) ∧ startsWithDigit rest = false := by
  induction text with
  | nil => exact ⟨[], [], rfl, nofun, rfl⟩
  | cons c text ih =>
    cases hc : c.isDigit with
    | false => exact ⟨[], c :: text, rfl, nofun, hc⟩
    | true =>
      obtain ⟨digits, rest, htext, hdigits, hrest⟩ := ih
      exact ⟨c :: digits, rest, congrArg (c :: ·) htext, List.forall_mem_cons.mpr ⟨hc, hdigits⟩,
        hrest⟩

theorem startsWithDigit_append (hdigits : ∀ c ∈ digits, c.isDigit = true)
    (hrest : startsWithDigit rest = false) :
    startsWithDigit (digits ++ rest) = true ↔ digits ≠ [] := by
  cases digits with
  | nil => simp [hrest]
  | cons c digits => simpa [startsWithDigit] using hdigits c List.mem_cons_self

theorem wholeDigits_append (hdigits : ∀ c ∈ digits, c.isDigit = true)
    (hrest : startsWithDigit rest = false) (dropped : Nat) :
    wholeDigits significand dropped (digits ++ rest) =
      ((wholeDigits significand dropped digits).1, (wholeDigits significand dropped digits).2.1,
        rest) := by
  induction digits generalizing significand dropped with
  | nil =>
    cases rest with
    | nil => rfl
    | cons c rest => simp [wholeDigits, digit?_of_not_isDigit hrest]
  | cons c digits ih =>
    obtain ⟨hc, hdigits⟩ := List.forall_mem_cons.mp hdigits
    rw [List.cons_append]
    simp only [wholeDigits, digit?_of_isDigit hc]
    split
    · exact ih hdigits 0
    · exact ih hdigits (dropped + 1)

theorem fractionDigits_append (hdigits : ∀ c ∈ digits, c.isDigit = true)
    (hrest : startsWithDigit rest = false) (taken : Nat) (full : Bool) :
    fractionDigits significand taken full (digits ++ rest) =
      ((fractionDigits significand taken full digits).1,
        (fractionDigits significand taken full digits).2.1, rest) := by
  induction digits generalizing significand taken full with
  | nil =>
    cases rest with
    | nil => rfl
    | cons c rest => simp [fractionDigits, digit?_of_not_isDigit hrest]
  | cons c digits ih =>
    obtain ⟨hc, hdigits⟩ := List.forall_mem_cons.mp hdigits
    rw [List.cons_append]
    simp only [fractionDigits, digit?_of_isDigit hc]
    split
    · exact ih hdigits (taken + 1) false
    · exact ih hdigits taken true

theorem le_ofDigitChars (digits : List Char) (n : Nat) : n ≤ Nat.ofDigitChars 10 digits n := by
  induction digits generalizing n with
  | nil => exact Nat.le_refl n
  | cons c digits ih =>
    rw [Nat.ofDigitChars_cons]
    have := ih (10 * n + (c.toNat - '0'.toNat))
    omega

theorem exponentDigits_none (hdigits : ∀ c ∈ digits, c.isDigit = true)
    (hrest : startsWithDigit rest = false) :
    exponentDigits none (digits ++ rest) = (none, rest) := by
  induction digits with
  | nil =>
    cases rest with
    | nil => rfl
    | cons c rest => simp [exponentDigits, digit?_of_not_isDigit hrest]
  | cons c digits ih =>
    obtain ⟨hc, hdigits⟩ := List.forall_mem_cons.mp hdigits
    simp only [List.cons_append, exponentDigits, digit?_of_isDigit hc]
    exact ih hdigits

theorem exponentDigits_append (hdigits : ∀ c ∈ digits, c.isDigit = true)
    (hrest : startsWithDigit rest = false) (hn : n ≤ exponentLimit) :
    exponentDigits (some n) (digits ++ rest) =
      (if Nat.ofDigitChars 10 digits n ≤ exponentLimit then some (Nat.ofDigitChars 10 digits n)
        else none, rest) := by
  induction digits generalizing n with
  | nil =>
    rw [List.nil_append, Nat.ofDigitChars_nil, if_pos hn]
    cases rest with
    | nil => rfl
    | cons c rest => simp [exponentDigits, digit?_of_not_isDigit hrest]
  | cons c digits ih =>
    obtain ⟨hc, hdigits⟩ := List.forall_mem_cons.mp hdigits
    rw [Nat.ofDigitChars_cons]
    simp only [List.cons_append, exponentDigits, digit?_of_isDigit hc, Option.bind_some]
    split
    · next hfits => exact ih hdigits hfits
    · next hfits =>
      have hle := le_ofDigitChars digits (10 * n + (c.toNat - '0'.toNat))
      rw [exponentDigits_none hdigits hrest, if_neg (by omega)]

/-! ## Exponents -/

/-- The double for a sign, a significand and an exponent of ten, with the exponent that is written
apart; one beyond the limit leaves nothing but zero. -/
def raised? (negative : Bool) (significand : Nat) (exponent written : Int) : Option Float :=
  if written.natAbs ≤ exponentLimit then assemble? negative significand (exponent + written)
  else if significand ≠ 0 ∧ 0 < written then none
  else some (signed negative 0.0)

theorem raised?_zero : raised? negative significand exponent 0 =
    assemble? negative significand exponent := by
  rw [raised?, if_pos (by decide), Int.add_zero]

/-- What may follow a value: nothing, a blank, or what goes on with an array or an object. -/
def Follows (rest : List Char) : Prop :=
  ∀ c ∈ rest.head?, c ∈ [' ', '\n', '\t', '\r', ',', ']', '\x7d']

theorem startsWithDigit_eq_false (h : ∀ c ∈ text.head?, c.isDigit = false) :
    startsWithDigit text = false := by
  cases text with
  | nil => rfl
  | cons c text => exact h c rfl

/-- What follows a value does not go on with a numeral. -/
theorem Follows.ends (h : Follows rest) :
    ∀ c ∈ rest.head?, c.isDigit = false ∧ c ∉ ['e', 'E'] ∧ c ≠ '.' := by
  have hends : ∀ c ∈ [' ', '\n', '\t', '\r', ',', ']', '\x7d'],
      c.isDigit = false ∧ c ∉ ['e', 'E'] ∧ c ≠ '.' := by simp
  exact fun c hc => hends c (h c hc)

theorem Follows.startsWithDigit (h : Follows rest) : startsWithDigit rest = false :=
  startsWithDigit_eq_false fun c hc => (h.ends c hc).1

theorem readExponent_plain (h : ∀ c ∈ text.head?, c ∉ ['e', 'E']) :
    readExponent negative significand exponent text =
      (assemble? negative significand exponent).map (·, text) := by
  cases text with
  | nil => rfl
  | cons c text =>
    have hc : ¬ (c = 'e' ∨ c = 'E') := by simpa using h c rfl
    rw [readExponent]
    exact if_neg hc

theorem readExponent_marked {e : Char} (he : e ∈ ['e', 'E']) (hdigits : Digits digits)
    (hrest : startsWithDigit rest = false) {down : Bool}
    (hsign : exponentSign text = (down, digits ++ rest)) :
    readExponent negative significand exponent (e :: text) =
      (raised? negative significand exponent
        (if down then -valueOf digits else valueOf digits)).map (·, rest) := by
  have he : e = 'e' ∨ e = 'E' := by simpa using he
  have hstarts := (startsWithDigit_append hdigits.2 hrest).mpr hdigits.1
  have hread : exponentDigits (some 0) (digits ++ rest) =
      (if valueOf digits ≤ exponentLimit then some (valueOf digits) else none, rest) :=
    exponentDigits_append hdigits.2 hrest (Nat.zero_le exponentLimit)
  have habs : (if down then -(valueOf digits : Int) else valueOf digits).natAbs =
      valueOf digits := by
    split <;> omega
  rw [readExponent]
  dsimp only
  rw [if_pos he, hsign]
  dsimp only
  rw [if_pos hstarts, hread, raised?, habs]
  by_cases hfits : valueOf digits ≤ exponentLimit
  · have hadd : exponent + (if down then -(valueOf digits : Int) else valueOf digits) =
        if down then exponent - valueOf digits else exponent + valueOf digits := by
      split <;> omega
    rw [if_pos hfits, if_pos hfits, hadd]
  · have hup : 0 < (if down then -(valueOf digits : Int) else valueOf digits) ↔
        (!down) = true := by
      cases down with
      | true => simp
      | false =>
        simp
        omega
    rw [if_neg hfits, if_neg hfits]
    simp only [hup]
    split <;> rfl

theorem readExponent_none {e : Char} {down : Bool} (he : e ∈ ['e', 'E'])
    (hsign : exponentSign text = (down, rest)) (hrest : startsWithDigit rest = false) :
    readExponent negative significand exponent (e :: text) = none := by
  have he : e = 'e' ∨ e = 'E' := by simpa using he
  rw [readExponent]
  dsimp only
  rw [if_pos he, hsign]
  exact if_neg (by rw [hrest]; exact Bool.false_ne_true)

theorem exponentSign_digits (h : Digits digits) :
    exponentSign (digits ++ rest) = (false, digits ++ rest) := by
  obtain ⟨hne, hdigits⟩ := h
  obtain ⟨c, digits, rfl⟩ := List.exists_cons_of_ne_nil hne
  have hc := hdigits c List.mem_cons_self
  rw [List.cons_append]
  unfold exponentSign
  split
  · next heq =>
    rw [(List.cons.inj heq).1] at hc
    exact absurd hc (by decide)
  · next heq =>
    rw [(List.cons.inj heq).1] at hc
    exact absurd hc (by decide)
  · rfl

/-- A text with the mark of an exponent is one with a sign or without, and digits or none. -/
theorem exponentSign_cases (text : List Char) :
    (∃ after, text = '-' :: after ∧ exponentSign text = (true, after)) ∨
      (∃ after, text = '+' :: after ∧ exponentSign text = (false, after)) ∨
      exponentSign text = (false, text) := by
  unfold exponentSign
  split
  · exact .inl ⟨_, rfl, rfl⟩
  · exact .inr (.inl ⟨_, rfl, rfl⟩)
  · exact .inr (.inr rfl)

theorem readExponent_append {written : Int} {text : List Char} (h : ExponentText written text)
    (hrest : Follows rest) :
    readExponent negative significand exponent (text ++ rest) =
      (raised? negative significand exponent written).map (·, rest) := by
  cases h with
  | absent =>
    rw [raised?_zero, List.nil_append]
    exact readExponent_plain fun c hc => (hrest.ends c hc).2.1
  | plain he h => exact readExponent_marked he h hrest.startsWithDigit (exponentSign_digits h)
  | @plus e digits he h =>
    have hsign : exponentSign ('+' :: (digits ++ rest)) = (false, digits ++ rest) := rfl
    exact readExponent_marked he h hrest.startsWithDigit hsign
  | @minus e digits he h =>
    have hsign : exponentSign ('-' :: (digits ++ rest)) = (true, digits ++ rest) := rfl
    exact readExponent_marked he h hrest.startsWithDigit hsign

theorem readExponent_sound
    (h : readExponent negative significand exponent text = some (x, rest)) :
    ∃ written exponentText, text = exponentText ++ rest ∧ ExponentText written exponentText ∧
      raised? negative significand exponent written = some x := by
  by_cases hmark : ∃ e ∈ text.head?, e ∈ ['e', 'E']
  · obtain ⟨e, hhead, he⟩ := hmark
    obtain ⟨after, rfl⟩ := List.head?_eq_some_iff.mp hhead
    -- the digits come first after the sign, if there is one
    have hread : ∀ {down} {signed : List Char}, exponentSign after = (down, signed) →
        ∃ digits, Digits digits ∧ signed = digits ++ rest ∧ raised? negative significand exponent
          (if down then -valueOf digits else valueOf digits) = some x := by
      intro down signed hsign
      obtain ⟨digits, rest', rfl, hdigits, hrest'⟩ := exists_digits signed
      by_cases hne : digits = []
      · rw [hne, List.nil_append] at hsign
        rw [readExponent_none he hsign hrest'] at h
        cases h
      · rw [readExponent_marked he ⟨hne, hdigits⟩ hrest' hsign, Option.map_eq_some_iff] at h
        obtain ⟨x', hx, heq⟩ := h
        obtain ⟨rfl, rfl⟩ := Prod.mk.inj heq
        exact ⟨digits, ⟨hne, hdigits⟩, rfl, hx⟩
    rcases exponentSign_cases after with ⟨signed, rfl, hsign⟩ | ⟨signed, rfl, hsign⟩ | hsign
    · obtain ⟨digits, hdigits, rfl, hx⟩ := hread hsign
      exact ⟨_, _, rfl, .minus he hdigits, hx⟩
    · obtain ⟨digits, hdigits, rfl, hx⟩ := hread hsign
      exact ⟨_, _, rfl, .plus he hdigits, hx⟩
    · obtain ⟨digits, hdigits, rfl, hx⟩ := hread hsign
      exact ⟨_, _, rfl, .plain he hdigits, hx⟩
  · have hplain : ∀ c ∈ text.head?, c ∉ ['e', 'E'] := fun c hc he => hmark ⟨c, hc, he⟩
    rw [readExponent_plain hplain, Option.map_eq_some_iff] at h
    obtain ⟨x', hx, heq⟩ := h
    obtain ⟨rfl, rfl⟩ := Prod.mk.inj heq
    exact ⟨0, [], rfl, .absent, by rw [raised?_zero, hx]⟩

/-! ## Numerals -/

/-- The double for what was read before the point, with digits after it and an exponent. -/
def withFraction? (negative : Bool) (significand dropped : Nat) (digits : List Char)
    (written : Int) : Option Float :=
  let (significand, taken, _) := fractionDigits significand 0 false digits
  raised? negative significand ((dropped : Int) - taken) written

/-- The double that a numeral is read as. -/
def Numeral.double? (n : Numeral) : Option Float :=
  let (significand, dropped, _) := wholeDigits 0 0 n.whole
  withFraction? n.negative significand dropped n.fraction n.exponent

theorem withFraction?_nil {dropped : Nat} {written : Int} :
    withFraction? negative significand dropped [] written =
      raised? negative significand dropped written :=
  congrArg (raised? negative significand · written) (Int.sub_zero (dropped : Int))

/-- Whether a zero that comes first is followed by more digits. -/
theorem zero_alone_iff (hdigits : Digits digits) (hrest : startsWithDigit rest = false) :
    ((digits ++ rest).head? == some '0' && startsWithDigit (digits ++ rest).tail) = false ↔
      (digits.head? = some '0' → digits = ['0']) := by
  obtain ⟨hne, hall⟩ := hdigits
  obtain ⟨c, digits, rfl⟩ := List.exists_cons_of_ne_nil hne
  have hmore := startsWithDigit_append (List.forall_mem_cons.mp hall).2 hrest
  have hstarts : startsWithDigit (digits ++ rest) = false ↔ digits = [] := by
    rw [← Bool.not_eq_true, hmore, Classical.not_not]
  by_cases hc : c = '0' <;> simp [hstarts, hc]

theorem readUnsigned_append (hdigits : Digits digits) (hrest : startsWithDigit rest = false)
    (hzero : digits.head? = some '0' → digits = ['0']) :
    readUnsigned negative (digits ++ rest) =
      readFraction negative (wholeDigits 0 0 digits).1 (wholeDigits 0 0 digits).2.1 rest := by
  have hstarts := (startsWithDigit_append hdigits.2 hrest).mpr hdigits.1
  unfold readUnsigned
  rw [hstarts, (zero_alone_iff hdigits hrest).mpr hzero, wholeDigits_append hdigits.2 hrest]
  rfl

theorem readUnsigned_sound (h : readUnsigned negative text = some (x, rest)) :
    ∃ digits after, text = digits ++ after ∧ Digits digits ∧ startsWithDigit after = false ∧
      (digits.head? = some '0' → digits = ['0']) ∧
      readFraction negative (wholeDigits 0 0 digits).1 (wholeDigits 0 0 digits).2.1 after =
        some (x, rest) := by
  obtain ⟨digits, after, rfl, hall, hafter⟩ := exists_digits text
  by_cases hne : digits = []
  · rw [hne, List.nil_append, readUnsigned, hafter] at h
    cases h
  have hdigits : Digits digits := ⟨hne, hall⟩
  by_cases hzero : digits.head? = some '0' → digits = ['0']
  · rw [readUnsigned_append hdigits hafter hzero] at h
    exact ⟨digits, after, rfl, hdigits, hafter, hzero, h⟩
  · have hfollowed := Bool.not_eq_false _ ▸ mt (zero_alone_iff hdigits hafter).mp hzero
    rw [readUnsigned, (startsWithDigit_append hall hafter).mpr hne, hfollowed] at h
    cases h

theorem readFraction_point {dropped : Nat} (hdigits : Digits digits)
    (hrest : startsWithDigit rest = false) :
    readFraction negative significand dropped ('.' :: (digits ++ rest)) =
      readExponent negative (fractionDigits significand 0 false digits).1
        ((dropped : Int) - (fractionDigits significand 0 false digits).2.1) rest := by
  rw [readFraction, if_pos ((startsWithDigit_append hdigits.2 hrest).mpr hdigits.1),
    fractionDigits_append hdigits.2 hrest]

theorem readFraction_plain {dropped : Nat} (h : ∀ c ∈ text.head?, c ≠ '.') :
    readFraction negative significand dropped text =
      readExponent negative significand dropped text := by
  unfold readFraction
  split
  · exact absurd rfl (h '.' rfl)
  · rfl

/-- Neither an exponent nor what follows a numeral goes on with its digits. -/
theorem exponentText_ends {written : Int} {text : List Char} (h : ExponentText written text)
    (hrest : Follows rest) : ∀ c ∈ (text ++ rest).head?, c.isDigit = false ∧ c ≠ '.' := by
  have hmarks : ∀ e ∈ ['e', 'E'], e.isDigit = false ∧ e ≠ '.' := by simp
  cases h with
  | absent => exact fun c hc => ⟨(hrest.ends c hc).1, (hrest.ends c hc).2.2⟩
  | plain he | plus he | minus he =>
    rintro c ⟨⟩
    exact hmarks _ he

theorem readFraction_append {dropped : Nat} {fraction exponentText : List Char} {written : Int}
    (hfraction : FractionText digits fraction) (hexponent : ExponentText written exponentText)
    (hrest : Follows rest) :
    readFraction negative significand dropped (fraction ++ (exponentText ++ rest)) =
      (withFraction? negative significand dropped digits written).map (·, rest) := by
  have hends := exponentText_ends hexponent hrest
  cases hfraction with
  | absent =>
    rw [List.nil_append, readFraction_plain fun c hc => (hends c hc).2,
      readExponent_append hexponent hrest, withFraction?_nil]
  | present h =>
    have hafter := startsWithDigit_eq_false fun c hc => (hends c hc).1
    rw [List.cons_append, readFraction_point h hafter, readExponent_append hexponent hrest]
    rfl

theorem readFraction_sound {dropped : Nat}
    (h : readFraction negative significand dropped text = some (x, rest)) :
    ∃ digits fraction written exponentText, text = fraction ++ (exponentText ++ rest) ∧
      FractionText digits fraction ∧ ExponentText written exponentText ∧
      withFraction? negative significand dropped digits written = some x := by
  by_cases hpoint : ∃ after, text = '.' :: after
  · obtain ⟨after, rfl⟩ := hpoint
    obtain ⟨digits, rest', rfl, hall, hrest'⟩ := exists_digits after
    by_cases hne : digits = []
    · rw [hne, List.nil_append, readFraction, hrest'] at h
      cases h
    · rw [readFraction_point ⟨hne, hall⟩ hrest'] at h
      obtain ⟨written, exponentText, rfl, hexponent, hx⟩ := readExponent_sound h
      exact ⟨digits, _, written, exponentText, rfl, .present ⟨hne, hall⟩, hexponent, hx⟩
  · have hplain : ∀ c ∈ text.head?, c ≠ '.' := by
      rintro c hc rfl
      obtain ⟨after, heq⟩ := List.head?_eq_some_iff.mp hc
      exact hpoint ⟨after, heq⟩
    rw [readFraction_plain hplain] at h
    obtain ⟨written, exponentText, rfl, hexponent, hx⟩ := readExponent_sound h
    exact ⟨[], [], written, exponentText, rfl, .absent, hexponent, withFraction?_nil.trans hx⟩

/-- The parts of a numeral without its sign. -/
theorem readUnsigned_eq {whole fraction exponentText : List Char} {written : Int}
    (hwhole : Digits whole) (hzero : whole.head? = some '0' → whole = ['0'])
    (hfraction : FractionText digits fraction) (hexponent : ExponentText written exponentText)
    (hrest : Follows rest) :
    readUnsigned negative (whole ++ (fraction ++ (exponentText ++ rest))) =
      ({ negative, whole, fraction := digits, exponent := written } : Numeral).double?.map
        (·, rest) := by
  have hafter : startsWithDigit (fraction ++ (exponentText ++ rest)) = false := by
    cases hfraction with
    | absent =>
      exact startsWithDigit_eq_false fun c hc => (exponentText_ends hexponent hrest c hc).1
    | present h => rfl
  rw [readUnsigned_append hwhole hafter hzero, readFraction_append hfraction hexponent hrest]
  rfl

theorem readNumber_digits (h : Digits digits) :
    readNumber (digits ++ rest) = readUnsigned false (digits ++ rest) := by
  obtain ⟨hne, hall⟩ := h
  obtain ⟨c, digits, rfl⟩ := List.exists_cons_of_ne_nil hne
  rw [List.cons_append]
  unfold readNumber
  split
  · next heq =>
    have hminus := hall c List.mem_cons_self
    rw [(List.cons.inj heq).1] at hminus
    exact absurd hminus (by decide)
  · rfl

/-- A numeral is read as its double. -/
theorem readNumber_append {n : Numeral} (h : NumeralText n text) (hx : n.double? = some x)
    (hrest : Follows rest) : readNumber (text ++ rest) = some (x, rest) := by
  cases h with
  | @parts fraction exponentText hwhole hzero hfraction hexponent =>
    have hread : readUnsigned n.negative (n.whole ++ (fraction ++ (exponentText ++ rest))) =
        some (x, rest) := by
      rw [readUnsigned_eq hwhole hzero hfraction hexponent hrest]
      exact congrArg (Option.map (·, rest)) hx
    simp only [List.append_assoc]
    cases hnegative : n.negative with
    | true =>
      rw [hnegative] at hread
      exact hread
    | false =>
      rw [hnegative] at hread
      exact (readNumber_digits hwhole).trans hread

/-- What is read as a number is the numeral in front. -/
theorem readNumber_sound (h : readNumber text = some (x, rest)) :
    ∃ numeral numeralText, text = numeralText ++ rest ∧ NumeralText numeral numeralText ∧
      numeral.double? = some x := by
  have hunsigned : ∀ {negative : Bool} {text : List Char},
      readUnsigned negative text = some (x, rest) → ∃ numeral numeralText,
        signText negative ++ text = numeralText ++ rest ∧ NumeralText numeral numeralText ∧
          numeral.double? = some x := by
    intro negative text h
    obtain ⟨whole, after, rfl, hwhole, -, hzero, h⟩ := readUnsigned_sound h
    obtain ⟨digits, fraction, written, exponentText, rfl, hfraction, hexponent, hx⟩ :=
      readFraction_sound h
    exact ⟨⟨negative, whole, digits, written⟩, _, by simp only [List.append_assoc],
      .parts hwhole hzero hfraction hexponent, hx⟩
  unfold readNumber at h
  split at h
  · exact hunsigned h
  · exact hunsigned h

/-! ## Numerals that are read exactly -/

theorem wholeDigits_of_le (hdigits : ∀ c ∈ digits, c.isDigit = true)
    (h : Nat.ofDigitChars 10 digits significand ≤ significandLimit) :
    wholeDigits significand 0 digits = (Nat.ofDigitChars 10 digits significand, 0, []) := by
  induction digits generalizing significand with
  | nil => rfl
  | cons c digits ih =>
    obtain ⟨hc, hdigits⟩ := List.forall_mem_cons.mp hdigits
    rw [Nat.ofDigitChars_cons] at h ⊢
    have hfits := Nat.le_trans (le_ofDigitChars digits _) h
    rw [wholeDigits, digit?_of_isDigit hc]
    dsimp only
    rw [if_pos ⟨rfl, hfits⟩]
    exact ih hdigits h

theorem fractionDigits_of_le (hdigits : ∀ c ∈ digits, c.isDigit = true)
    (h : Nat.ofDigitChars 10 digits significand ≤ significandLimit) (taken : Nat) :
    fractionDigits significand taken false digits =
      (Nat.ofDigitChars 10 digits significand, taken + digits.length, []) := by
  induction digits generalizing significand taken with
  | nil => rfl
  | cons c digits ih =>
    obtain ⟨hc, hdigits⟩ := List.forall_mem_cons.mp hdigits
    rw [Nat.ofDigitChars_cons] at h ⊢
    have hfits := Nat.le_trans (le_ofDigitChars digits _) h
    rw [fractionDigits, digit?_of_isDigit hc]
    dsimp only
    rw [if_pos (by simpa using hfits), ih hdigits h, List.length_cons]
    congr 2
    omega

theorem double?_whole (hdigits : Digits digits) (h : valueOf digits < UInt64.size) :
    ({ negative, whole := digits } : Numeral).double? =
      some (signed negative (UInt64.ofNat (valueOf digits)).toFloat) := by
  have hwhole : wholeDigits 0 0 digits = (valueOf digits, 0, []) :=
    wholeDigits_of_le hdigits.2 (Nat.le_of_lt_succ h)
  unfold Numeral.double?
  dsimp only
  rw [hwhole]
  dsimp only
  rw [withFraction?_nil, raised?_zero]
  rfl

theorem double?_decimal {fraction : List Char} (hdigits : Digits digits)
    (hfraction : Digits fraction) (hlength : fraction.length ≤ 22)
    (h : valueOf (digits ++ fraction) ≤ exactLimit) :
    ({ negative, whole := digits, fraction } : Numeral).double? =
      some (signed negative ((UInt64.ofNat (valueOf (digits ++ fraction))).toFloat /
        Float.ofScientific 1 false fraction.length)) := by
  have hvalue : valueOf (digits ++ fraction) = Nat.ofDigitChars 10 fraction (valueOf digits) :=
    Nat.ofDigitChars_append 0
  have hfits : Nat.ofDigitChars 10 fraction (valueOf digits) ≤ significandLimit := by
    rw [← hvalue]
    exact Nat.le_trans h (by decide)
  have hwhole : wholeDigits 0 0 digits = (valueOf digits, 0, []) :=
    wholeDigits_of_le hdigits.2 (Nat.le_trans (le_ofDigitChars fraction _) hfits)
  have hpos : 0 < fraction.length := List.length_pos_iff.mpr hfraction.1
  have hscale : ∀ x, scale? x (-(fraction.length : Int)) =
      some (x / Float.ofScientific 1 false fraction.length) := by
    intro x
    have hdown : (-(-(fraction.length : Int))).toNat = fraction.length := by omega
    rw [scale?, if_neg (by omega), if_pos (by omega), hdown, scaleDown, if_pos (by omega)]
    rfl
  unfold Numeral.double?
  dsimp only
  rw [hwhole]
  dsimp only
  unfold withFraction?
  rw [fractionDigits_of_le hfraction.2 hfits, ← hvalue]
  dsimp only
  rw [raised?_zero, Nat.zero_add, Int.natCast_zero, Int.zero_sub, assemble?, hscale]
  rfl

end OrderedAtomics.Json
