import OrderedAtomics.Text.Blank
import OrderedAtomics.Text.Utf8

/-
  Reading bytes as UTF-8 undoes writing a text as UTF-8, and no other bytes are read as text
  (`decode?_eq_some_iff`).  The reader divides the bytes into pieces, one for each character and
  each run of bytes that forms none, and the piece of a character is its encoding (`divides_read`).
  This rests on what a state in the middle of a character promises: whatever bytes come that it has
  room for, they and those read so far are the encoding of a character (`Completes`), which is
  arithmetic on the first byte (`start_after`).  A line break is a piece of its own, so that a text
  has the lines of its bytes, whatever stands in them (`lines_decodeLossy`).
-/
namespace OrderedAtomics.Text

/-! ## Bytes of a text -/

theorem toList_loop (a : ByteArray) (i : Nat) (read : Bytes) :
    ByteArray.toList.loop a i read = read.reverse ++ a.data.toList.drop i := by
  rw [ByteArray.toList.loop]
  split
  · rename_i hi
    have hi' : i < a.data.toList.length := hi
    have hget : a.get! i = a.data.toList[i] := getElem!_pos a.data i hi
    rw [toList_loop a (i + 1), hget, List.reverse_cons, List.append_assoc, List.singleton_append,
      ← List.drop_eq_getElem_cons hi']
  · rename_i hi
    rw [List.drop_eq_nil_of_le (Nat.le_of_not_lt hi), List.append_nil]
termination_by a.size - i

theorem toBytes_ofList (cs : List Char) :
    toBytes (String.ofList cs) = cs.flatMap String.utf8EncodeChar := by
  rw [toBytes, String.toUTF8_eq_toByteArray, String.toByteArray_ofList, ByteArray.toList,
    toList_loop, List.utf8Encode, List.toList_data_toByteArray]
  rfl

namespace Utf8

/-! ## Encodings of characters -/

section Encoding

variable {n : Nat}

theorem toNat_ofNat (h : n.isValidChar) : (Char.ofNat n).val.toNat = n := by
  rw [Char.ofNat, dif_pos h]
  rfl

theorem encode_one (h : n ≤ 0x7f) : String.utf8EncodeChar (Char.ofNat n) = [UInt8.ofNat n] := by
  have hn : (Char.ofNat n).val.toNat = n := toNat_ofNat (.inl (by omega))
  simp only [String.utf8EncodeChar, hn, if_pos h]

theorem encode_two (h : 0x80 ≤ n) (h' : n ≤ 0x7ff) : String.utf8EncodeChar (Char.ofNat n) =
    [UInt8.ofNat (n / 64 + 0xc0), UInt8.ofNat (n % 64 + 0x80)] := by
  have hn : (Char.ofNat n).val.toNat = n := toNat_ofNat (.inl (by omega))
  have hlead : n / 64 % 32 = n / 64 := Nat.mod_eq_of_lt (by omega)
  simp only [String.utf8EncodeChar, hn, if_neg (show ¬n ≤ 0x7f by omega), if_pos h', hlead]

theorem encode_three (hvalid : n.isValidChar) (h : 0x800 ≤ n) (h' : n ≤ 0xffff) :
    String.utf8EncodeChar (Char.ofNat n) =
      [UInt8.ofNat (n / 4096 + 0xe0), UInt8.ofNat (n / 64 % 64 + 0x80),
        UInt8.ofNat (n % 64 + 0x80)] := by
  have hlead : n / 4096 % 16 = n / 4096 := Nat.mod_eq_of_lt (by omega)
  simp only [String.utf8EncodeChar, toNat_ofNat hvalid, if_neg (show ¬n ≤ 0x7f by omega),
    if_neg (show ¬n ≤ 0x7ff by omega), if_pos h', hlead]

theorem encode_four (hvalid : n.isValidChar) (h : 0x10000 ≤ n) :
    String.utf8EncodeChar (Char.ofNat n) =
      [UInt8.ofNat (n / 262144 + 0xf0), UInt8.ofNat (n / 4096 % 64 + 0x80),
        UInt8.ofNat (n / 64 % 64 + 0x80), UInt8.ofNat (n % 64 + 0x80)] := by
  have hlead : n / 262144 % 8 = n / 262144 := by
    unfold Nat.isValidChar at hvalid
    exact Nat.mod_eq_of_lt (by omega)
  simp only [String.utf8EncodeChar, toNat_ofNat hvalid, if_neg (show ¬n ≤ 0x7f by omega),
    if_neg (show ¬n ≤ 0x7ff by omega), if_neg (show ¬n ≤ 0xffff by omega), hlead]

end Encoding

/-! ## In the middle of a character -/

/-- The bytes `seen` say `code`, and with any `missing` more, the first of them from `low` to
`high`, they are the encoding of the character that these bytes say together. -/
def Completes : Nat → Bytes → Nat → Nat → Nat → Prop
  | 0, _, _, _, _ => False
  | 1, seen, code, low, high => ∀ b : UInt8, low ≤ b.toNat → b.toNat ≤ high →
    String.utf8EncodeChar (Char.ofNat (64 * code + (b.toNat - 0x80))) = seen ++ [b]
  | missing + 2, seen, code, low, high => ∀ b : UInt8, low ≤ b.toNat → b.toNat ≤ high →
    Completes (missing + 1) (seen ++ [b]) (64 * code + (b.toNat - 0x80)) 0x80 0xbf

section Completes

variable {lead : UInt8} {code low high : Nat}

theorem completes_two (hlead : lead.toNat = 0xc0 + code) (hleast : 2 ≤ code) (hmost : code ≤ 31) :
    Completes 1 [lead] code 0x80 0xbf := by
  intro b hlow hhigh
  rw [encode_two (by omega) (by omega)]
  have h1 : (64 * code + (b.toNat - 0x80)) / 64 + 0xc0 = lead.toNat := by omega
  have h2 : (64 * code + (b.toNat - 0x80)) % 64 + 0x80 = b.toNat := by omega
  rw [h1, h2, UInt8.ofNat_toNat, UInt8.ofNat_toNat]
  rfl

theorem completes_three (hlead : lead.toNat = 0xe0 + code) (hmost : code ≤ 15) (h : 0x80 ≤ low)
    (h' : high ≤ 0xbf) (hleast : 0x20 ≤ 64 * code + (low - 0x80))
    (hsurrogate : code = 13 → high ≤ 0x9f) : Completes 2 [lead] code low high := by
  intro b hlow hhigh c hlow' hhigh'
  generalize hn : 64 * (64 * code + (b.toNat - 0x80)) + (c.toNat - 0x80) = n
  -- the limits on the second byte leave out the surrogates, and what two bytes would say
  have hvalid : n.isValidChar := by
    unfold Nat.isValidChar
    omega
  rw [encode_three hvalid (by omega) (by omega)]
  have h1 : n / 4096 + 0xe0 = lead.toNat := by omega
  have h2 : n / 64 % 64 + 0x80 = b.toNat := by omega
  have h3 : n % 64 + 0x80 = c.toNat := by omega
  rw [h1, h2, h3, UInt8.ofNat_toNat, UInt8.ofNat_toNat, UInt8.ofNat_toNat]
  rfl

theorem completes_four (hlead : lead.toNat = 0xf0 + code) (h : 0x80 ≤ low) (h' : high ≤ 0xbf)
    (hleast : 0x10 ≤ 64 * code + (low - 0x80)) (hmost : 64 * code + (high - 0x80) ≤ 0x10f) :
    Completes 3 [lead] code low high := by
  intro b hlow hhigh c hlow' hhigh' d hlow'' hhigh''
  generalize hn :
    64 * (64 * (64 * code + (b.toNat - 0x80)) + (c.toNat - 0x80)) + (d.toNat - 0x80) = n
  have hvalid : n.isValidChar := by
    unfold Nat.isValidChar
    omega
  rw [encode_four hvalid (by omega)]
  have h1 : n / 262144 + 0xf0 = lead.toNat := by omega
  have h2 : n / 4096 % 64 + 0x80 = b.toNat := by omega
  have h3 : n / 64 % 64 + 0x80 = c.toNat := by omega
  have h4 : n % 64 + 0x80 = d.toNat := by omega
  rw [h1, h2, h3, h4, UInt8.ofNat_toNat, UInt8.ofNat_toNat, UInt8.ofNat_toNat, UInt8.ofNat_toNat]
  rfl

end Completes

/-! ## First bytes -/

section Start

variable {b : UInt8}

theorem start_one (h : b.toNat ≤ 0x7f) : start b = ([some (Char.ofNat b.toNat)], .between) := by
  simp only [start, if_pos (show b.toNat < 0x80 by omega)]

theorem start_two (h : 0xc2 ≤ b.toNat) (h' : b.toNat ≤ 0xdf) :
    start b = ([], .inside 1 (b.toNat - 0xc0) 0x80 0xbf) := by
  simp only [start, if_neg (show ¬b.toNat < 0x80 by omega), if_pos (And.intro h h')]

/-- The next byte is limited after 0xe0, where two bytes would do, and after 0xed, where no
character is meant. -/
theorem start_three (h : 0xe0 ≤ b.toNat) (h' : b.toNat ≤ 0xef) :
    ∃ low high, start b = ([], .inside 2 (b.toNat - 0xe0) low high) ∧
      (low = 0x80 ∧ b.toNat ≠ 0xe0 ∨ low = 0xa0 ∧ b.toNat = 0xe0) ∧
      (high = 0xbf ∧ b.toNat ≠ 0xed ∨ high = 0x9f ∧ b.toNat = 0xed) := by
  simp only [start, if_neg (show ¬b.toNat < 0x80 by omega),
    if_neg (show ¬(0xc2 ≤ b.toNat ∧ b.toNat ≤ 0xdf) by omega)]
  by_cases he0 : b.toNat = 0xe0
  · exact ⟨0xa0, 0xbf, by simp [he0], by omega, by omega⟩
  by_cases hed : b.toNat = 0xed
  · exact ⟨0x80, 0x9f, by simp [hed], by omega, by omega⟩
  simp only [if_neg he0, if_neg hed, if_pos (show 0xe1 ≤ b.toNat ∧ b.toNat ≤ 0xef by omega)]
  exact ⟨0x80, 0xbf, rfl, by omega, by omega⟩

/-- The next byte is limited after 0xf0, where three bytes would do, and after 0xf4, where the last
characters are. -/
theorem start_four (h : 0xf0 ≤ b.toNat) (h' : b.toNat ≤ 0xf4) :
    ∃ low high, start b = ([], .inside 3 (b.toNat - 0xf0) low high) ∧
      (low = 0x80 ∧ b.toNat ≠ 0xf0 ∨ low = 0x90 ∧ b.toNat = 0xf0) ∧
      (high = 0xbf ∧ b.toNat ≠ 0xf4 ∨ high = 0x8f ∧ b.toNat = 0xf4) := by
  simp only [start, if_neg (show ¬b.toNat < 0x80 by omega),
    if_neg (show ¬(0xc2 ≤ b.toNat ∧ b.toNat ≤ 0xdf) by omega),
    if_neg (show ¬b.toNat = 0xe0 by omega), if_neg (show ¬b.toNat = 0xed by omega),
    if_neg (show ¬(0xe1 ≤ b.toNat ∧ b.toNat ≤ 0xef) by omega)]
  by_cases hf0 : b.toNat = 0xf0
  · exact ⟨0x90, 0xbf, by simp [hf0], by omega, by omega⟩
  by_cases hf4 : b.toNat = 0xf4
  · exact ⟨0x80, 0x8f, by simp [hf4], by omega, by omega⟩
  simp only [if_neg hf0, if_neg hf4, if_pos (show 0xf1 ≤ b.toNat ∧ b.toNat ≤ 0xf3 by omega)]
  exact ⟨0x80, 0xbf, rfl, by omega, by omega⟩

theorem start_none (h : 0x80 ≤ b.toNat) (h' : b.toNat < 0xc2 ∨ 0xf4 < b.toNat) :
    start b = ([none], .between) := by
  simp only [start, if_neg (show ¬b.toNat < 0x80 by omega),
    if_neg (show ¬(0xc2 ≤ b.toNat ∧ b.toNat ≤ 0xdf) by omega),
    if_neg (show ¬b.toNat = 0xe0 by omega), if_neg (show ¬b.toNat = 0xed by omega),
    if_neg (show ¬(0xe1 ≤ b.toNat ∧ b.toNat ≤ 0xef) by omega),
    if_neg (show ¬b.toNat = 0xf0 by omega), if_neg (show ¬b.toNat = 0xf4 by omega),
    if_neg (show ¬(0xf1 ≤ b.toNat ∧ b.toNat ≤ 0xf3) by omega)]

end Start

/-- The reader has just read `seen`, which belongs to no character yet. -/
def State.After : State → Bytes → Prop
  | .between, seen => seen = []
  | .inside missing code low high, seen => 0x80 ≤ low ∧ Completes missing seen code low high

/-! ## Pieces -/

/-- The bytes fall into pieces, one for each item; the piece of a character is its encoding. -/
def Divides (items : List (Option Char)) (bytes : Bytes) : Prop :=
  ∃ pieces : List (Option Char × Bytes), pieces.map Prod.fst = items ∧
    pieces.flatMap Prod.snd = bytes ∧
    ∀ p ∈ pieces, ∀ c, p.1 = some c → p.2 = String.utf8EncodeChar c

namespace Divides

theorem nil : Divides [] [] := ⟨[], rfl, rfl, nofun⟩

theorem none (bytes : Bytes) : Divides [.none] bytes := by
  refine ⟨[(.none, bytes)], rfl, List.append_nil _, ?_⟩
  intro p hp c hc
  cases List.mem_singleton.mp hp
  cases hc

theorem some {c : Char} {bytes : Bytes} (h : String.utf8EncodeChar c = bytes) :
    Divides [.some c] bytes := by
  refine ⟨[(.some c, bytes)], rfl, List.append_nil _, ?_⟩
  intro p hp c' hc
  cases List.mem_singleton.mp hp
  cases hc
  exact h.symm

theorem append {items items' : List (Option Char)} {bytes bytes' : Bytes}
    (h : Divides items bytes) (h' : Divides items' bytes') :
    Divides (items ++ items') (bytes ++ bytes') := by
  obtain ⟨pieces, hitems, hbytes, hfaithful⟩ := h
  obtain ⟨pieces', hitems', hbytes', hfaithful'⟩ := h'
  refine ⟨pieces ++ pieces', ?_, ?_, ?_⟩
  · rw [List.map_append, hitems, hitems']
  · rw [List.flatMap_append, hbytes, hbytes']
  · intro p hp
    rcases List.mem_append.mp hp with hp | hp
    · exact hfaithful p hp
    · exact hfaithful' p hp

end Divides

/-- A first byte is a piece of its own, or the start of one. -/
theorem start_after (b : UInt8) :
    (∃ item, start b = ([item], .between) ∧ Divides [item] [b]) ∨
      ∃ state, start b = ([], state) ∧ state.After [b] := by
  by_cases hone : b.toNat ≤ 0x7f
  · refine .inl ⟨_, start_one hone, .some ?_⟩
    rw [encode_one hone, UInt8.ofNat_toNat]
  by_cases hnone : b.toNat < 0xc2 ∨ 0xf4 < b.toNat
  · exact .inl ⟨_, start_none (by omega) hnone, .none _⟩
  right
  by_cases htwo : b.toNat ≤ 0xdf
  · refine ⟨_, start_two (by omega) htwo, by omega, ?_⟩
    apply completes_two <;> omega
  by_cases hthree : b.toNat ≤ 0xef
  · obtain ⟨low, high, hstart, hlow, hhigh⟩ := start_three (by omega) hthree
    refine ⟨_, hstart, by omega, ?_⟩
    apply completes_three <;> omega
  · obtain ⟨low, high, hstart, hlow, hhigh⟩ := start_four (b := b) (by omega) (by omega)
    refine ⟨_, hstart, by omega, ?_⟩
    apply completes_four <;> omega

/-- One more byte: what is read with it, and what is left over. -/
theorem feed_after {state : State} {seen : Bytes} (h : state.After seen) (b : UInt8) :
    ∃ used rest, used ++ rest = seen ++ [b] ∧ Divides (feed state b).1 used ∧
      (feed state b).2.After rest := by
  have hstart : ∃ used rest, used ++ rest = [b] ∧ Divides (start b).1 used ∧
      (start b).2.After rest := by
    rcases start_after b with ⟨item, hb, hitem⟩ | ⟨state, hb, hstate⟩
    · rw [hb]
      exact ⟨[b], [], rfl, hitem, rfl⟩
    · rw [hb]
      exact ⟨[], [b], rfl, .nil, hstate⟩
  cases state with
  | between =>
    rw [show seen = [] from h]
    exact hstart
  | inside missing code low high =>
    obtain ⟨hlow, hcompletes⟩ := h
    unfold feed
    dsimp only
    split
    · rename_i hb
      match missing with
      | 0 => exact hcompletes.elim
      | 1 => exact ⟨seen ++ [b], [], List.append_nil _, .some (hcompletes b hb.1 hb.2), rfl⟩
      | missing + 2 => exact ⟨[], seen ++ [b], rfl, .nil, by omega, hcompletes b hb.1 hb.2⟩
    · -- the byte does not go on: what was read is no character, and the byte starts anew
      obtain ⟨used, rest, hused, hdivides, hafter⟩ := hstart
      refine ⟨seen ++ used, rest, ?_, (Divides.none seen).append hdivides, hafter⟩
      rw [List.append_assoc, hused]

theorem readFrom_cons (state : State) (b : UInt8) (bytes : Bytes) :
    readFrom state (b :: bytes) = (feed state b).1 ++ readFrom (feed state b).2 bytes := by
  cases state <;> rfl

theorem divides_readFrom {state : State} {seen : Bytes} (h : state.After seen) (bytes : Bytes) :
    Divides (readFrom state bytes) (seen ++ bytes) := by
  induction bytes generalizing state seen with
  | nil =>
    rw [List.append_nil]
    cases state with
    | between =>
      rw [show seen = [] from h]
      exact .nil
    | inside missing code low high => exact .none seen
  | cons b bytes ih =>
    obtain ⟨used, rest, hused, hdivides, hafter⟩ := feed_after h b
    rw [readFrom_cons, List.append_cons, ← hused, List.append_assoc]
    exact hdivides.append (ih hafter)

theorem divides_read (bytes : Bytes) : Divides (read bytes) bytes := by
  have hstart : State.After .between [] := rfl
  exact divides_readFrom hstart bytes

/-! ## Texts -/

section Encoded

variable {b : UInt8} {code low high : Nat}

theorem readFrom_lead {state : State} (h : start b = ([], state)) (bytes : Bytes) :
    readFrom .between (b :: bytes) = readFrom state bytes := by
  rw [readFrom, feed, h]
  rfl

theorem readFrom_inside (missing : Nat) (h : low ≤ b.toNat) (h' : b.toNat ≤ high)
    (bytes : Bytes) :
    readFrom (.inside (missing + 2) code low high) (b :: bytes) =
      readFrom (.inside (missing + 1) (64 * code + (b.toNat - 0x80)) 0x80 0xbf) bytes := by
  rw [readFrom, feed]
  simp only [if_pos (And.intro h h')]
  rfl

theorem readFrom_last (h : low ≤ b.toNat) (h' : b.toNat ≤ high) (bytes : Bytes) :
    readFrom (.inside 1 code low high) (b :: bytes) =
      some (Char.ofNat (64 * code + (b.toNat - 0x80))) :: readFrom .between bytes := by
  rw [readFrom, feed]
  simp only [if_pos (And.intro h h')]
  rfl

theorem toNat_byte {n : Nat} (h : n < 256) : (UInt8.ofNat n).toNat = n := by
  rw [UInt8.toNat_ofNat', Nat.mod_eq_of_lt h]

section Sizes

variable {n : Nat}

theorem readFrom_encode_one (h : n ≤ 0x7f) (bytes : Bytes) :
    readFrom .between (String.utf8EncodeChar (Char.ofNat n) ++ bytes) =
      some (Char.ofNat n) :: readFrom .between bytes := by
  rw [encode_one h]
  have h0 := toNat_byte (n := n) (by omega)
  generalize UInt8.ofNat n = b at h0
  rw [List.singleton_append, readFrom, feed, start_one (by omega), h0]
  rfl

theorem readFrom_encode_two (h : 0x80 ≤ n) (h' : n ≤ 0x7ff) (bytes : Bytes) :
    readFrom .between (String.utf8EncodeChar (Char.ofNat n) ++ bytes) =
      some (Char.ofNat n) :: readFrom .between bytes := by
  rw [encode_two h h']
  have h0 := toNat_byte (n := n / 64 + 0xc0) (by omega)
  have h1 := toNat_byte (n := n % 64 + 0x80) (by omega)
  -- the reader goes by the numbers of the bytes alone
  generalize UInt8.ofNat (n / 64 + 0xc0) = b at h0
  generalize UInt8.ofNat (n % 64 + 0x80) = b1 at h1
  have hn : 64 * (b.toNat - 0xc0) + (b1.toNat - 0x80) = n := by omega
  simp only [List.cons_append, List.nil_append]
  rw [readFrom_lead (start_two (by omega) (by omega)), readFrom_last (by omega) (by omega), hn]

theorem readFrom_encode_three (hvalid : n.isValidChar) (h : 0x800 ≤ n) (h' : n ≤ 0xffff)
    (bytes : Bytes) :
    readFrom .between (String.utf8EncodeChar (Char.ofNat n) ++ bytes) =
      some (Char.ofNat n) :: readFrom .between bytes := by
  rw [encode_three hvalid h h']
  unfold Nat.isValidChar at hvalid
  have h0 := toNat_byte (n := n / 4096 + 0xe0) (by omega)
  have h1 := toNat_byte (n := n / 64 % 64 + 0x80) (by omega)
  have h2 := toNat_byte (n := n % 64 + 0x80) (by omega)
  generalize UInt8.ofNat (n / 4096 + 0xe0) = b at h0
  generalize UInt8.ofNat (n / 64 % 64 + 0x80) = b1 at h1
  generalize UInt8.ofNat (n % 64 + 0x80) = b2 at h2
  have hn : 64 * (64 * (b.toNat - 0xe0) + (b1.toNat - 0x80)) + (b2.toNat - 0x80) = n := by omega
  obtain ⟨low, high, hstart, hlow, hhigh⟩ := start_three (b := b) (by omega) (by omega)
  simp only [List.cons_append, List.nil_append]
  rw [readFrom_lead hstart, readFrom_inside 0 (by omega) (by omega),
    readFrom_last (by omega) (by omega), hn]

theorem readFrom_encode_four (hvalid : n.isValidChar) (h : 0x10000 ≤ n) (bytes : Bytes) :
    readFrom .between (String.utf8EncodeChar (Char.ofNat n) ++ bytes) =
      some (Char.ofNat n) :: readFrom .between bytes := by
  rw [encode_four hvalid h]
  unfold Nat.isValidChar at hvalid
  have h0 := toNat_byte (n := n / 262144 + 0xf0) (by omega)
  have h1 := toNat_byte (n := n / 4096 % 64 + 0x80) (by omega)
  have h2 := toNat_byte (n := n / 64 % 64 + 0x80) (by omega)
  have h3 := toNat_byte (n := n % 64 + 0x80) (by omega)
  generalize UInt8.ofNat (n / 262144 + 0xf0) = b at h0
  generalize UInt8.ofNat (n / 4096 % 64 + 0x80) = b1 at h1
  generalize UInt8.ofNat (n / 64 % 64 + 0x80) = b2 at h2
  generalize UInt8.ofNat (n % 64 + 0x80) = b3 at h3
  have hn : 64 * (64 * (64 * (b.toNat - 0xf0) + (b1.toNat - 0x80)) + (b2.toNat - 0x80))
      + (b3.toNat - 0x80) = n := by omega
  obtain ⟨low, high, hstart, hlow, hhigh⟩ := start_four (b := b) (by omega) (by omega)
  simp only [List.cons_append, List.nil_append]
  rw [readFrom_lead hstart, readFrom_inside 1 (by omega) (by omega),
    readFrom_inside 0 (by omega) (by omega), readFrom_last (by omega) (by omega), hn]

end Sizes

/-- The encoding of a character is read as that character. -/
theorem readFrom_encode (c : Char) (bytes : Bytes) :
    readFrom .between (String.utf8EncodeChar c ++ bytes) = some c :: readFrom .between bytes := by
  have hvalid : c.toNat.isValidChar := c.valid
  rw [← Char.ofNat_toNat c]
  by_cases hone : c.toNat ≤ 0x7f
  · exact readFrom_encode_one hone bytes
  by_cases htwo : c.toNat ≤ 0x7ff
  · exact readFrom_encode_two (by omega) htwo bytes
  by_cases hthree : c.toNat ≤ 0xffff
  · exact readFrom_encode_three hvalid (by omega) hthree bytes
  · exact readFrom_encode_four hvalid (by omega) bytes

theorem read_encoded (cs : List Char) : read (cs.flatMap String.utf8EncodeChar) = cs.map some := by
  induction cs with
  | nil => rfl
  | cons c cs ih =>
    rw [List.flatMap_cons, read, readFrom_encode, List.map_cons]
    exact congrArg _ ih

end Encoded

theorem mapM_id_eq_some {items : List (Option Char)} {cs : List Char} :
    items.mapM id = some cs ↔ items = cs.map some := by
  induction items generalizing cs with
  | nil => cases cs <;> simp
  | cons item items ih =>
    rw [List.mapM_cons]
    constructor
    · intro h
      obtain ⟨c, hitem, h⟩ := Option.bind_eq_some_iff.mp h
      obtain ⟨rest, hrest, h⟩ := Option.bind_eq_some_iff.mp h
      cases h
      rw [ih.mp hrest, show item = some c from hitem, List.map_cons]
    · intro h
      cases cs with
      | nil => cases h
      | cons c cs =>
        obtain ⟨rfl, hrest⟩ := List.cons.inj h
        rw [ih.mpr hrest]
        rfl

theorem Divides.eq_encoded {cs : List Char} {bytes : Bytes} (h : Divides (cs.map .some) bytes) :
    bytes = cs.flatMap String.utf8EncodeChar := by
  obtain ⟨pieces, hitems, rfl, hfaithful⟩ := h
  induction pieces generalizing cs with
  | nil =>
    rw [List.map_eq_nil_iff.mp hitems.symm]
    rfl
  | cons p pieces ih =>
    obtain ⟨hp, hpieces⟩ := List.forall_mem_cons.mp hfaithful
    cases cs with
    | nil => cases hitems
    | cons c cs =>
      obtain ⟨hitem, hitems⟩ := List.cons.inj hitems
      rw [List.flatMap_cons, List.flatMap_cons, hp c hitem, ih hitems hpieces]

/-- **Reading is the inverse of writing.** Bytes are read as a text exactly when they are what is
written of it. -/
theorem decode?_eq_some_iff {bytes : Bytes} {cs : List Char} :
    decode? bytes = some cs ↔ bytes = toBytes (String.ofList cs) := by
  rw [decode?, mapM_id_eq_some, toBytes_ofList]
  constructor
  · intro h
    have hdivides := divides_read bytes
    rw [h] at hdivides
    exact hdivides.eq_encoded
  · intro h
    rw [h, read_encoded]

/-! ## Lines -/

/-- A line break ends whatever came before it. -/
theorem readFrom_break {state : State} {seen : Bytes} (h : state.After seen) (a b : Bytes) :
    readFrom state (a ++ 10 :: b) = readFrom state a ++ some '\n' :: readFrom .between b := by
  induction a generalizing state seen with
  | nil =>
    cases state with
    | between => rfl
    | inside missing code low high =>
      have hlow : ¬(low ≤ 10 ∧ 10 ≤ high) := by
        have := h.1
        omega
      have hfeed : feed (.inside missing code low high) 10 =
          ([none, some '\n'], .between) := if_neg hlow
      rw [List.nil_append, readFrom_cons, hfeed]
      rfl
  | cons c a ih =>
    obtain ⟨-, rest, -, -, hafter⟩ := feed_after h c
    rw [List.cons_append, readFrom_cons, readFrom_cons, ih hafter, List.append_assoc]

theorem decodeLossy_break (a b : Bytes) :
    decodeLossy (a ++ 10 :: b) = decodeLossy a ++ '\n' :: decodeLossy b := by
  have hstart : State.After .between [] := rfl
  unfold decodeLossy read
  rw [readFrom_break hstart, List.map_append]
  rfl

/-- Only a line break is read as one. -/
theorem mem_of_break_mem {bytes : Bytes} (h : '\n' ∈ decodeLossy bytes) : 10 ∈ bytes := by
  obtain ⟨item, hitem, hc⟩ := List.mem_map.mp h
  cases item with
  | none => cases hc
  | some c =>
    cases show c = '\n' from hc
    obtain ⟨pieces, hitems, hbytes, hfaithful⟩ := divides_read bytes
    rw [← hitems] at hitem
    obtain ⟨p, hp, hc⟩ := List.mem_map.mp hitem
    rw [← hbytes]
    refine List.mem_flatMap.mpr ⟨p, hp, ?_⟩
    rw [hfaithful p hp _ hc]
    exact List.mem_cons_self

end Utf8

/-- The lines of a text as bytes, without their ends. -/
def byteLines (bytes : Bytes) : List Bytes := splitWhere (· == 10) bytes

/-- The lines of a text are those of its bytes, each read on its own. -/
theorem lines_decodeLossy (bytes : Bytes) :
    lines (Utf8.decodeLossy bytes) = (byteLines bytes).map Utf8.decodeLossy := by
  by_cases h : 10 ∈ bytes
  · obtain ⟨a, b, rfl⟩ := List.append_of_mem h
    have hbytes : byteLines (a ++ 10 :: b) = byteLines a ++ byteLines b := splitWhere_append rfl a b
    have htext : lines (Utf8.decodeLossy a ++ '\n' :: Utf8.decodeLossy b) =
        lines (Utf8.decodeLossy a) ++ lines (Utf8.decodeLossy b) := splitWhere_append rfl _ _
    rw [Utf8.decodeLossy_break, htext, hbytes, lines_decodeLossy a, lines_decodeLossy b,
      List.map_append]
  · have hbytes : byteLines bytes = [bytes] :=
      splitWhere_eq_self fun c hc => beq_eq_false_iff_ne.mpr fun e => h (e ▸ hc)
    have htext : lines (Utf8.decodeLossy bytes) = [Utf8.decodeLossy bytes] :=
      splitWhere_eq_self fun c hc =>
        beq_eq_false_iff_ne.mpr fun e => h (Utf8.mem_of_break_mem (e ▸ hc))
    rw [hbytes, htext]
    rfl
termination_by bytes.length

end OrderedAtomics.Text
