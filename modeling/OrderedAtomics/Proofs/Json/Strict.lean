import OrderedAtomics.Proofs.Json.Numerals
import OrderedAtomics.Proofs.Json.Strings

/-
  The reader of documents is strict.  What it reads is spelled by the text it takes (`sound`, by
  induction on the fuel), and what the grammar spells it reads (`Spells.reads`, by induction on the
  grammar, with fuel for two calls per character).  A value may be followed by blanks that the
  grammar counts to it and that are left in the text, so that what is left is compared without them.
-/
namespace OrderedAtomics.Json

variable {text text' rest before gap : List Char} {c : Char} {d : Document} {fuel depth n : Nat}
  {double? : Numeral → Option Float}

/-! ## Blanks and words -/

theorem isBlank_iff : (c == ' ' || c == '\n' || c == '\t' || c == '\r') = true ↔
    c ∈ [' ', '\n', '\t', '\r'] := by
  simp [or_assoc]

theorem skipBlanks_append (h : Blank before) : skipBlanks (before ++ text) = skipBlanks text :=
  List.dropWhile_append_of_pos fun c hc => isBlank_iff.mpr (h c hc)

/-- Blanks stand before what is left without them. -/
theorem exists_blank (text : List Char) :
    ∃ before, Blank before ∧ text = before ++ skipBlanks text :=
  ⟨_, fun c hc => isBlank_iff.mp (List.all_eq_true.mp List.all_takeWhile c hc),
    List.takeWhile_append_dropWhile.symm⟩

theorem skipBlanks_cons (h : c ∉ [' ', '\n', '\t', '\r']) : skipBlanks (c :: text) = c :: text :=
  List.dropWhile_cons_of_neg fun hc => h (isBlank_iff.mp hc)

theorem skipBlanks_skipBlanks (text : List Char) :
    skipBlanks (skipBlanks text) = skipBlanks text := by
  obtain ⟨before, hbefore, htext⟩ := exists_blank text
  have hskip : skipBlanks (before ++ skipBlanks text) = skipBlanks (skipBlanks text) :=
    skipBlanks_append hbefore
  rw [← htext] at hskip
  exact hskip.symm

theorem blank_of_skipBlanks (h : skipBlanks text = []) : Blank text := by
  obtain ⟨before, hbefore, htext⟩ := exists_blank text
  rw [h, List.append_nil] at htext
  rw [htext]
  exact hbefore

theorem dropWord_eq_some_iff {word : List Char} :
    dropWord word text = some rest ↔ text = word ++ rest := by
  induction word generalizing text with
  | nil => simp [dropWord]
  | cons w word ih =>
    cases text with
    | nil => simp [dropWord]
    | cons c text =>
      rw [dropWord, List.cons_append, List.cons.injEq]
      split
      · next heq => simp [ih, heq]
      · next hne => exact iff_of_false nofun fun h => hne h.1.symm

/-! ## What is read is spelled -/

section Sound

/-- What a reader takes off a text spells what it reads. -/
def ValuesSound (fuel : Nat) : Prop := ∀ {depth : Nat} {text rest : List Char} {d : Document},
  readValue fuel depth text = some (d, rest) →
    ∃ taken, text = taken ++ rest ∧ Spells Numeral.double? depth (.value d) taken

def ItemsSound (fuel : Nat) : Prop := ∀ {depth : Nat} {text rest : List Char}
  {items : List Document}, readItems fuel depth text = some (items, rest) →
    ∃ taken, text = taken ++ ']' :: rest ∧ Spells Numeral.double? depth (.items items) taken

def MembersSound (fuel : Nat) : Prop := ∀ {depth : Nat} {text rest : List Char}
  {members : List (String × Document)}, readMembers fuel depth text = some (members, rest) →
    ∃ taken, text = taken ++ '\x7d' :: rest ∧
      Spells Numeral.double? depth (.members members) taken

/-- What is made of what a reader gives back leaves the same rest. -/
theorem of_read {β γ : Type} {read : Option (β × List Char)} {f : β → γ} {v : γ}
    (h : (do let r ← read; return (f r.1, r.2)) = some (v, rest)) :
    ∃ b, read = some (b, rest) ∧ f b = v := by
  obtain ⟨⟨b, rest'⟩, hread, hpair⟩ := Option.bind_eq_some_iff.mp h
  cases hpair
  exact ⟨b, hread, rfl⟩

theorem of_dropWord {word : List Char} {value : Document}
    (h : (do return (value, ← dropWord word text)) = some (d, rest)) :
    text = word ++ rest ∧ value = d := by
  obtain ⟨rest', hword, hpair⟩ := Option.bind_eq_some_iff.mp h
  cases hpair
  exact ⟨dropWord_eq_some_iff.mp hword, rfl⟩

/-- A value may be read after blanks. -/
theorem spells_of_skipBlanks
    (h : ∃ taken, skipBlanks text = taken ++ rest ∧ Spells double? n (.value d) taken) :
    ∃ taken, text = taken ++ rest ∧ Spells double? n (.value d) taken := by
  obtain ⟨taken, heq, hspells⟩ := h
  obtain ⟨before, hbefore, htext⟩ := exists_blank text
  rw [heq] at htext
  exact ⟨before ++ taken, by rw [htext, List.append_assoc], .indented hbefore hspells⟩

theorem Spells.items_blank {items : List Document} (h : Spells double? n (.items items) text)
    (hbefore : Blank before) : Spells double? n (.items items) (before ++ text) := by
  cases h with
  | lastItem h => exact .lastItem (.indented hbefore h)
  | item h hmore =>
    rw [← List.append_assoc]
    exact .item (.indented hbefore h) hmore

theorem Spells.members_blank {members : List (String × Document)}
    (h : Spells double? n (.members members) text) (hbefore : Blank before) :
    Spells double? n (.members members) (before ++ text) := by
  have hblank : ∀ {gap}, Blank gap → Blank (before ++ gap) := by
    intro gap hgap c hc
    exact (List.mem_append.mp hc).elim (hbefore c) (hgap c)
  cases h with
  | lastMember hgap hname hafter h =>
    simpa using Spells.lastMember (hblank hgap) hname hafter h
  | member hgap hname hafter h hmore =>
    simpa using Spells.member (hblank hgap) hname hafter h hmore

theorem values_sound_succ (hitems : ItemsSound fuel) (hmembers : MembersSound fuel) :
    ValuesSound (fuel + 1) := by
  intro depth text rest d h
  apply spells_of_skipBlanks
  rw [readValue] at h
  split at h
  case h_1 => cases h
  case h_2 after heq =>
    obtain ⟨rfl, rfl⟩ := of_dropWord h
    exact ⟨_, heq, .nullWord⟩
  case h_3 after heq =>
    obtain ⟨rfl, rfl⟩ := of_dropWord h
    exact ⟨_, heq, .trueWord⟩
  case h_4 after heq =>
    obtain ⟨rfl, rfl⟩ := of_dropWord h
    exact ⟨_, heq, .falseWord⟩
  case h_5 after heq =>
    obtain ⟨s, hread, rfl⟩ := of_read h
    obtain ⟨quoted, hafter, hquoted⟩ := readString_eq_some_iff.mp hread
    exact ⟨quoted, heq.trans hafter, .text hquoted⟩
  case h_6 after heq =>
    cases depth with
    | zero => cases h
    | succ depth =>
      obtain ⟨gap, hgap, hafter⟩ := exists_blank after
      dsimp only at h
      split at h
      · next rest' hclose =>
        cases h
        rw [hclose] at hafter
        exact ⟨'[' :: gap ++ [']'], by simp [heq, hafter], .noItems hgap⟩
      · obtain ⟨items, hread, rfl⟩ := of_read h
        obtain ⟨taken, htaken, hspells⟩ := hitems hread
        rw [htaken] at hafter
        exact ⟨'[' :: (gap ++ taken) ++ [']'], by simp [heq, hafter],
          .array (hspells.items_blank hgap)⟩
  case h_7 after heq =>
    cases depth with
    | zero => cases h
    | succ depth =>
      obtain ⟨gap, hgap, hafter⟩ := exists_blank after
      dsimp only at h
      split at h
      · next rest' hclose =>
        cases h
        rw [hclose] at hafter
        exact ⟨'\x7b' :: gap ++ ['\x7d'], by simp [heq, hafter], .noMembers hgap⟩
      · obtain ⟨members, hread, rfl⟩ := of_read h
        obtain ⟨taken, htaken, hspells⟩ := hmembers hread
        rw [htaken] at hafter
        exact ⟨'\x7b' :: (gap ++ taken) ++ ['\x7d'], by simp [heq, hafter],
          .object (hspells.members_blank hgap)⟩
  case h_8 c after _ _ _ _ _ _ heq =>
    obtain ⟨x, hread, rfl⟩ := of_read h
    obtain ⟨numeral, taken, htaken, hnumeral, hx⟩ := readNumber_sound hread
    exact ⟨taken, heq.trans htaken, .number hnumeral hx⟩

theorem items_sound_succ (hvalues : ValuesSound fuel) (hitems : ItemsSound fuel) :
    ItemsSound (fuel + 1) := by
  intro depth text rest items h
  rw [readItems] at h
  simp only [bind, Option.bind_eq_some_iff] at h
  obtain ⟨⟨item, after⟩, hread, h⟩ := h
  obtain ⟨taken, rfl, hspells⟩ := hvalues hread
  obtain ⟨gap, hgap, hafter⟩ := exists_blank after
  have hpadded : Spells Numeral.double? depth (.value item) (taken ++ gap) :=
    hspells.ended hgap
  dsimp only at h
  split at h
  · next rest' hclose =>
    cases h
    rw [hclose] at hafter
    exact ⟨taken ++ gap, by simp [hafter], .lastItem hpadded⟩
  · next rest' hcomma =>
    obtain ⟨items', hread', rfl⟩ := of_read h
    obtain ⟨more, rfl, hmore⟩ := hitems hread'
    rw [hcomma] at hafter
    exact ⟨taken ++ gap ++ ',' :: more, by simp [hafter], .item hpadded hmore⟩
  · cases h

theorem members_sound_succ (hvalues : ValuesSound fuel) (hmembers : MembersSound fuel) :
    MembersSound (fuel + 1) := by
  intro depth text rest members h
  obtain ⟨before, hbefore, htext⟩ := exists_blank text
  rw [readMembers] at h
  split at h
  · next after heq =>
    simp only [bind, Option.bind_eq_some_iff] at h
    obtain ⟨⟨name, afterName⟩, hname, h⟩ := h
    obtain ⟨quoted, hquoted, hname⟩ := readString_eq_some_iff.mp hname
    obtain ⟨gap, hgap, hafterName⟩ := exists_blank afterName
    dsimp only at h
    split at h
    · next afterColon hcolon =>
      simp only [Option.bind_eq_some_iff] at h
      obtain ⟨⟨value, afterValue⟩, hvalue, h⟩ := h
      obtain ⟨taken, rfl, hspells⟩ := hvalues hvalue
      obtain ⟨gap', hgap', hafterValue⟩ := exists_blank afterValue
      have hpadded : Spells Numeral.double? depth (.value value) (taken ++ gap') :=
        hspells.ended hgap'
      rw [heq, hquoted, hafterName, hcolon, hafterValue] at htext
      dsimp only at h
      split at h
      · next rest' hclose =>
        cases h
        rw [hclose] at htext
        exact ⟨_, by simp [htext], .lastMember hbefore hname hgap hpadded⟩
      · next rest' hcomma =>
        obtain ⟨members', hread, rfl⟩ := of_read h
        obtain ⟨more, rfl, hmore⟩ := hmembers hread
        rw [hcomma] at htext
        exact ⟨_, by simp [htext], .member hbefore hname hgap hpadded hmore⟩
      · cases h
    · cases h
  · cases h

/-- What is read of a text is spelled by what is taken off it. -/
theorem sound (fuel : Nat) : ValuesSound fuel ∧ ItemsSound fuel ∧ MembersSound fuel := by
  induction fuel with
  | zero =>
    refine ⟨?_, ?_, ?_⟩
    all_goals
      intro depth text rest read h
      cases h
  | succ fuel ih =>
    obtain ⟨hvalues, hitems, hmembers⟩ := ih
    exact ⟨values_sound_succ hitems hmembers, items_sound_succ hvalues hitems,
      members_sound_succ hvalues hmembers⟩

end Sound

/-! ## What is spelled is read -/

section Complete

theorem Follows.blank_append (hgap : Blank gap) (h : Follows rest) : Follows (gap ++ rest) := by
  cases gap with
  | nil => exact h
  | cons c gap =>
    rintro _ ⟨⟩
    have hblanks : ∀ c ∈ [' ', '\n', '\t', '\r'],
        c ∈ [' ', '\n', '\t', '\r', ',', ']', '\x7d'] := by simp
    exact hblanks c (hgap c List.mem_cons_self)

/-- A text that spells something begins, after blanks, with none of the closing brackets. -/
def Opens (text : List Char) : Prop :=
  ∃ c after, skipBlanks text = c :: after ∧ c ≠ ']' ∧ c ≠ '\x7d'

theorem opens_cons (hblank : c ∉ [' ', '\n', '\t', '\r']) (hitem : c ≠ ']') (hmember : c ≠ '\x7d') :
    Opens (c :: text) :=
  ⟨c, text, skipBlanks_cons hblank, hitem, hmember⟩

theorem opens_stringText {s : String} (h : StringText s text) (rest : List Char) :
    Opens (text ++ rest) := by
  cases h with
  | quoted => exact opens_cons (by decide) (by decide) (by decide)

theorem opens_blank_append (h : Blank before) (hopens : Opens text) : Opens (before ++ text) := by
  unfold Opens
  rw [skipBlanks_append h]
  exact hopens

/-- A numeral begins with a digit or a minus. -/
theorem numeralText_head {numeral : Numeral} (h : NumeralText numeral text) :
    ∃ c after, text = c :: after ∧ (c.isDigit = true ∨ c = '-') := by
  cases h with
  | parts hwhole =>
    obtain ⟨c, digits, hdigits⟩ := List.exists_cons_of_ne_nil hwhole.1
    rw [hdigits]
    cases numeral.negative with
    | true => exact ⟨'-', _, rfl, .inr rfl⟩
    | false =>
      refine ⟨c, _, rfl, .inl (hwhole.2 c ?_)⟩
      rw [hdigits]
      exact List.mem_cons_self

/-- What begins with a digit or a minus is nothing but a number. -/
theorem numeral_head_ne (h : c.isDigit = true ∨ c = '-') :
    c ∉ [' ', '\n', '\t', '\r', ']', '\x7d', 'n', 't', 'f', '\x22', '[', '\x7b'] := by
  rcases h with h | rfl
  · intro hc
    have hnone : ∀ c ∈ [' ', '\n', '\t', '\r', ']', '\x7d', 'n', 't', 'f', '\x22', '[', '\x7b'],
        c.isDigit = false := by simp
    rw [hnone c hc] at h
    cases h
  · decide

theorem Spells.opens {p : Phrase} (h : Spells double? n p text) (rest : List Char) :
    Opens (text ++ rest) := by
  induction h generalizing rest with
  | padded hbefore _ hafter ih =>
    rw [List.append_assoc, List.append_assoc]
    exact opens_blank_append hbefore (ih _)
  | nullWord | trueWord | falseWord | noItems | array | noMembers | object =>
    exact opens_cons (by decide) (by decide) (by decide)
  | number hnumeral =>
    obtain ⟨c, after, rfl, hc⟩ := numeralText_head hnumeral
    have hne := numeral_head_ne hc
    simp only [List.mem_cons, not_or] at hne
    exact opens_cons (by simp [hne]) hne.2.2.2.2.1 hne.2.2.2.2.2.1
  | text h => exact opens_stringText h rest
  | lastItem _ ih => exact ih rest
  | item _ _ ih =>
    rw [List.append_assoc]
    exact ih _
  | lastMember hbefore hname | member hbefore hname =>
    simp only [List.append_assoc]
    exact opens_blank_append hbefore (opens_stringText hname _)

/-! Readers do not look at the blanks in front. -/

theorem readValue_congr (h : skipBlanks text = skipBlanks text') (fuel depth : Nat) :
    readValue fuel depth text = readValue fuel depth text' := by
  cases fuel with
  | zero => rfl
  | succ fuel => rw [readValue, readValue, h]

theorem readItems_congr (h : skipBlanks text = skipBlanks text') (fuel depth : Nat) :
    readItems fuel depth text = readItems fuel depth text' := by
  cases fuel with
  | zero => rfl
  | succ fuel => rw [readItems, readItems, readValue_congr h]

theorem readMembers_congr (h : skipBlanks text = skipBlanks text') (fuel depth : Nat) :
    readMembers fuel depth text = readMembers fuel depth text' := by
  cases fuel with
  | zero => rfl
  | succ fuel => rw [readMembers, readMembers, h]

/-! What a value begins with decides how it is read. -/

theorem readValue_text : readValue (fuel + 1) depth ('\x22' :: text) =
    (readString text).map fun r => (.text r.1, r.2) := by
  rw [readValue, skipBlanks_cons (by decide)]
  split
  case h_5 heq =>
    cases heq
    cases readString text <;> rfl
  all_goals grind

theorem readValue_noItems (h : skipBlanks text = ']' :: rest) :
    readValue (fuel + 1) (depth + 1) ('[' :: text) = some (.array [], rest) := by
  rw [readValue, skipBlanks_cons (by decide)]
  split
  case h_6 heq =>
    cases heq
    dsimp only
    rw [h]
    rfl
  all_goals grind

theorem readValue_items (h : Opens text) : readValue (fuel + 1) (depth + 1) ('[' :: text) =
    (readItems fuel depth text).map fun r => (.array r.1, r.2) := by
  obtain ⟨c, after, hskip, hne, -⟩ := h
  rw [readValue, skipBlanks_cons (by decide), ← readItems_congr (skipBlanks_skipBlanks text)]
  split
  case h_6 heq =>
    cases heq
    dsimp only
    split
    · next hclose =>
      rw [hskip] at hclose
      exact absurd (List.cons.inj hclose).1 hne
    · cases readItems fuel depth (skipBlanks text) <;> rfl
  all_goals grind

theorem readValue_noMembers (h : skipBlanks text = '\x7d' :: rest) :
    readValue (fuel + 1) (depth + 1) ('\x7b' :: text) = some (.object [], rest) := by
  rw [readValue, skipBlanks_cons (by decide)]
  split
  case h_7 heq =>
    cases heq
    dsimp only
    rw [h]
    rfl
  all_goals grind

theorem readValue_members (h : Opens text) : readValue (fuel + 1) (depth + 1) ('\x7b' :: text) =
    (readMembers fuel depth text).map fun r => (.object r.1, r.2) := by
  obtain ⟨c, after, hskip, -, hne⟩ := h
  rw [readValue, skipBlanks_cons (by decide), ← readMembers_congr (skipBlanks_skipBlanks text)]
  split
  case h_7 heq =>
    cases heq
    dsimp only
    split
    · next hclose =>
      rw [hskip] at hclose
      exact absurd (List.cons.inj hclose).1 hne
    · cases readMembers fuel depth (skipBlanks text) <;> rfl
  all_goals grind

theorem readValue_number (h : c.isDigit = true ∨ c = '-') :
    readValue (fuel + 1) depth (c :: text) =
      (readNumber (c :: text)).map fun r => (.number r.1, r.2) := by
  have hne := numeral_head_ne h
  simp only [List.mem_cons, not_or] at hne
  rw [readValue, skipBlanks_cons (by simp [hne])]
  split
  case h_8 heq =>
    cases heq
    cases readNumber (c :: text) <;> rfl
  all_goals simp_all

/-- What is read where a phrase is spelled.  After a value something must follow that ends it, and
the blanks there may be taken or left. -/
def Reads (depth : Nat) : Phrase → List Char → Prop
  | .value d, text => ∀ fuel rest, 2 * text.length ≤ fuel → Follows rest →
    ∃ rest', readValue fuel depth (text ++ rest) = some (d, rest') ∧
      skipBlanks rest' = skipBlanks rest
  | .items items, text => ∀ fuel rest, 2 * text.length + 1 ≤ fuel →
    readItems fuel depth (text ++ ']' :: rest) = some (items, rest)
  | .members members, text => ∀ fuel rest, 2 * text.length + 1 ≤ fuel →
    readMembers fuel depth (text ++ '\x7d' :: rest) = some (members, rest)

/-- A value that is read off any text it stands in front of. -/
theorem reads_of_eq (hne : text ≠ [])
    (h : ∀ fuel rest, 2 * text.length ≤ fuel + 1 → Follows rest →
      readValue (fuel + 1) depth (text ++ rest) = some (d, rest)) :
    Reads depth (.value d) text := by
  intro fuel rest hfuel hrest
  have hpos := List.length_pos_iff.mpr hne
  obtain ⟨fuel, rfl⟩ := Nat.exists_eq_add_one_of_ne_zero (show fuel ≠ 0 by omega)
  exact ⟨rest, h fuel rest hfuel hrest, rfl⟩

theorem reads_padded {after : List Char} (hbefore : Blank before) (hafter : Blank after)
    (h : Reads depth (.value d) text) : Reads depth (.value d) (before ++ text ++ after) := by
  intro fuel rest hfuel hrest
  simp only [List.length_append] at hfuel
  obtain ⟨rest', hread, hleft⟩ := h fuel (after ++ rest) (by omega) (hrest.blank_append hafter)
  refine ⟨rest', ?_, hleft.trans (skipBlanks_append hafter)⟩
  rw [List.append_assoc, List.append_assoc, readValue_congr (skipBlanks_append hbefore)]
  exact hread

theorem reads_text {s : String} (h : StringText s text) : Reads depth (.value (.text s)) text := by
  have hne : text ≠ [] := by
    rintro rfl
    cases h
  refine reads_of_eq hne fun fuel rest _ _ => ?_
  obtain ⟨after, htext, hread⟩ := exists_readString h rest
  rw [htext, readValue_text, hread]
  rfl

theorem reads_number {numeral : Numeral} {x : Float} (h : NumeralText numeral text)
    (hx : numeral.double? = some x) : Reads depth (.value (.number x)) text := by
  obtain ⟨c, after, htext, hc⟩ := numeralText_head h
  refine reads_of_eq (by rw [htext]; nofun) fun fuel rest _ hrest => ?_
  have hread := readNumber_append h hx hrest
  rw [htext, List.cons_append] at hread ⊢
  rw [readValue_number hc, hread]
  rfl

theorem reads_noItems (hgap : Blank gap) :
    Reads (depth + 1) (.value (.array [])) ('[' :: gap ++ [']']) := by
  refine reads_of_eq nofun fun fuel rest _ _ => ?_
  rw [List.cons_append, List.cons_append, List.append_assoc]
  exact readValue_noItems ((skipBlanks_append hgap).trans (skipBlanks_cons (by decide)))

theorem reads_array {items : List Document} (hopens : ∀ rest, Opens (text ++ rest))
    (h : Reads depth (.items items) text) :
    Reads (depth + 1) (.value (.array items)) ('[' :: text ++ [']']) := by
  refine reads_of_eq nofun fun fuel rest hfuel _ => ?_
  simp only [List.length_cons, List.length_append] at hfuel
  have hread : readItems fuel depth (text ++ ']' :: rest) = some (items, rest) :=
    h fuel rest (by omega)
  rw [List.cons_append, List.cons_append, List.append_assoc, List.singleton_append,
    readValue_items (hopens _), hread]
  rfl

theorem reads_noMembers (hgap : Blank gap) :
    Reads (depth + 1) (.value (.object [])) ('\x7b' :: gap ++ ['\x7d']) := by
  refine reads_of_eq nofun fun fuel rest _ _ => ?_
  rw [List.cons_append, List.cons_append, List.append_assoc]
  exact readValue_noMembers ((skipBlanks_append hgap).trans (skipBlanks_cons (by decide)))

theorem reads_object {members : List (String × Document)} (hopens : ∀ rest, Opens (text ++ rest))
    (h : Reads depth (.members members) text) :
    Reads (depth + 1) (.value (.object members)) ('\x7b' :: text ++ ['\x7d']) := by
  refine reads_of_eq nofun fun fuel rest hfuel _ => ?_
  simp only [List.length_cons, List.length_append] at hfuel
  have hread : readMembers fuel depth (text ++ '\x7d' :: rest) = some (members, rest) :=
    h fuel rest (by omega)
  rw [List.cons_append, List.cons_append, List.append_assoc, List.singleton_append,
    readValue_members (hopens _), hread]
  rfl

theorem reads_lastItem (h : Reads depth (.value d) text) : Reads depth (.items [d]) text := by
  intro fuel rest hfuel
  obtain ⟨fuel, rfl⟩ := Nat.exists_eq_add_of_le' (Nat.le_trans (Nat.le_add_left 1 _) hfuel)
  obtain ⟨rest', hread, hleft⟩ := h fuel (']' :: rest) (by omega) (by rintro _ ⟨⟩; decide)
  rw [skipBlanks_cons (by decide)] at hleft
  rw [readItems, hread]
  simp only [bind, Option.bind_some, hleft]
  rfl

theorem reads_item {items : List Document} {more : List Char} (h : Reads depth (.value d) text)
    (hmore : Reads depth (.items items) more) :
    Reads depth (.items (d :: items)) (text ++ ',' :: more) := by
  intro fuel rest hfuel
  obtain ⟨fuel, rfl⟩ := Nat.exists_eq_add_of_le' (Nat.le_trans (Nat.le_add_left 1 _) hfuel)
  simp only [List.length_append, List.length_cons] at hfuel
  obtain ⟨rest', hread, hleft⟩ := h fuel (',' :: (more ++ ']' :: rest)) (by omega)
    (by rintro _ ⟨⟩; decide)
  rw [skipBlanks_cons (by decide)] at hleft
  rw [List.append_assoc, List.cons_append, readItems, hread]
  simp only [bind, Option.bind_some, hleft, hmore fuel rest (by omega)]
  rfl

/-- The name of a member is read, and what is left stands after the colon. -/
theorem skipBlanks_name {name : String} {quoted after : List Char} (hbefore : Blank before)
    (hname : StringText name quoted) (hafter : Blank after) :
    ∃ afterQuote, skipBlanks (before ++ (quoted ++ (after ++ ':' :: text))) = '\x22' :: afterQuote ∧
      ∃ afterName, readString afterQuote = some (name, afterName) ∧
        skipBlanks afterName = ':' :: text := by
  obtain ⟨afterQuote, htext, hread⟩ := exists_readString hname (after ++ ':' :: text)
  refine ⟨afterQuote, ?_, _, hread, ?_⟩
  · rw [skipBlanks_append hbefore, htext, skipBlanks_cons (by decide)]
  · rw [skipBlanks_append hafter, skipBlanks_cons (by decide)]

theorem reads_lastMember {name : String} {quoted after : List Char} (hbefore : Blank before)
    (hname : StringText name quoted) (hafter : Blank after) (h : Reads depth (.value d) text) :
    Reads depth (.members [(name, d)]) (before ++ quoted ++ after ++ ':' :: text) := by
  intro fuel rest hfuel
  obtain ⟨fuel, rfl⟩ := Nat.exists_eq_add_of_le' (Nat.le_trans (Nat.le_add_left 1 _) hfuel)
  simp only [List.length_append, List.length_cons] at hfuel
  obtain ⟨rest', hread, hleft⟩ := h fuel ('\x7d' :: rest) (by omega) (by rintro _ ⟨⟩; decide)
  rw [skipBlanks_cons (by decide)] at hleft
  obtain ⟨afterQuote, hquote, afterName, hname, hcolon⟩ := skipBlanks_name hbefore hname hafter
  simp only [List.append_assoc, List.cons_append]
  rw [readMembers, hquote]
  simp only [bind, Option.bind_some, hname, hcolon, hread, hleft]
  rfl

theorem reads_member {name : String} {members : List (String × Document)}
    {quoted after more : List Char} (hbefore : Blank before) (hname : StringText name quoted)
    (hafter : Blank after) (h : Reads depth (.value d) text)
    (hmore : Reads depth (.members members) more) :
    Reads depth (.members ((name, d) :: members))
      (before ++ quoted ++ after ++ ':' :: text ++ ',' :: more) := by
  intro fuel rest hfuel
  obtain ⟨fuel, rfl⟩ := Nat.exists_eq_add_of_le' (Nat.le_trans (Nat.le_add_left 1 _) hfuel)
  simp only [List.length_append, List.length_cons] at hfuel
  obtain ⟨rest', hread, hleft⟩ := h fuel (',' :: (more ++ '\x7d' :: rest)) (by omega)
    (by rintro _ ⟨⟩; decide)
  rw [skipBlanks_cons (by decide)] at hleft
  obtain ⟨afterQuote, hquote, afterName, hname, hcolon⟩ := skipBlanks_name hbefore hname hafter
  simp only [List.append_assoc, List.cons_append]
  rw [readMembers, hquote]
  simp only [bind, Option.bind_some, hname, hcolon, hread, hleft, hmore fuel rest (by omega)]
  rfl

/-- Whatever the grammar spells is read. -/
theorem Spells.reads {p : Phrase} (h : Spells Numeral.double? depth p text) :
    Reads depth p text := by
  induction h with
  | padded hbefore _ hafter ih => exact reads_padded hbefore hafter ih
  | nullWord | trueWord | falseWord => exact reads_of_eq nofun fun _ _ _ _ => rfl
  | number h hx => exact reads_number h hx
  | text h => exact reads_text h
  | noItems hgap => exact reads_noItems hgap
  | array h ih => exact reads_array h.opens ih
  | noMembers hgap => exact reads_noMembers hgap
  | object h ih => exact reads_object h.opens ih
  | lastItem _ ih => exact reads_lastItem ih
  | item _ _ ih ihmore => exact reads_item ih ihmore
  | lastMember hbefore hname hafter _ ih => exact reads_lastMember hbefore hname hafter ih
  | member hbefore hname hafter _ _ ih ihmore =>
    exact reads_member hbefore hname hafter ih ihmore

end Complete

/-! ## The reader -/

theorem read?_eq_some_iff : Document.read? text = some d ↔
    Spells Numeral.double? maxDepth (.value d) text := by
  unfold Document.read?
  constructor
  · intro h
    split at h
    · next d' rest hread =>
      split at h
      · next hblank =>
        cases h
        obtain ⟨taken, rfl, hspells⟩ := (sound _).1 hread
        have hrest : Blank rest := blank_of_skipBlanks (List.isEmpty_iff.mp hblank)
        exact hspells.ended hrest
      · cases h
    · cases h
  · intro h
    obtain ⟨rest, hread, hleft⟩ := h.reads (2 * text.length + 2) [] (by omega) nofun
    rw [List.append_nil] at hread
    rw [hread]
    dsimp only
    rw [hleft]
    rfl

/-- The reader of this library, with the doubles it makes. -/
def documentReader : Reader := ⟨Document.read?, Numeral.double?⟩

/-- **The reader of this library reads JSON and nothing else.** -/
theorem documentReader_strict : documentReader.Strict where
  read?_eq_some_iff _ _ := read?_eq_some_iff
  whole _ _ := double?_whole
  decimal _ _ _ := double?_decimal

end OrderedAtomics.Json
