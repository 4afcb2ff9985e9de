/-
  Reading bytes as UTF-8.  The reader takes one byte at a time; a sequence that cannot be continued
  is given up at the byte that does not fit, which is then read afresh.
-/
namespace OrderedAtomics.Text

/-- Bytes of a file or of a program's output. -/
abbrev Bytes := List UInt8

namespace Utf8

/-- Where the reader is in a sequence. -/
inductive State where
  /-- Between characters. -/
  | between
  /-- Inside a character: `missing` bytes are still to come, the next of them from `low` to `high`,
  and `code` is what the bytes so far say. -/
  | inside (missing : Nat) (code : Nat) (low high : Nat)

/-- Reads the first byte of a character; `none` stands for bytes that form no character. -/
def start (b : UInt8) : List (Option Char) × State :=
  let n := b.toNat
  if n < 0x80 then ([some (Char.ofNat n)], .between)
  else if 0xc2 ≤ n ∧ n ≤ 0xdf then ([], .inside 1 (n - 0xc0) 0x80 0xbf)
  else if n = 0xe0 then ([], .inside 2 0 0xa0 0xbf)
  else if n = 0xed then ([], .inside 2 0xd 0x80 0x9f)
  else if 0xe1 ≤ n ∧ n ≤ 0xef then ([], .inside 2 (n - 0xe0) 0x80 0xbf)
  else if n = 0xf0 then ([], .inside 3 0 0x90 0xbf)
  else if 0xf1 ≤ n ∧ n ≤ 0xf3 then ([], .inside 3 (n - 0xf0) 0x80 0xbf)
  else if n = 0xf4 then ([], .inside 3 4 0x80 0x8f)
  else ([none], .between)

/-- Reads one byte. -/
def feed (state : State) (b : UInt8) : List (Option Char) × State :=
  match state with
  | .between => start b
  | .inside missing code low high =>
    let n := b.toNat
    if low ≤ n ∧ n ≤ high then
      let code := 64 * code + (n - 0x80)
      if missing = 1 then ([some (Char.ofNat code)], .between)
      else ([], .inside (missing - 1) code 0x80 0xbf)
    else
      let (read, next) := start b
      (none :: read, next)

/-- The characters of the bytes, from a state; `none` stands for bytes that form no character. -/
def readFrom : State → Bytes → List (Option Char)
  | .between, [] => []
  | .inside _ _ _ _, [] => [none]
  | state, b :: bytes =>
    let (read, next) := feed state b
    read ++ readFrom next bytes

/-- The characters of the bytes; `none` stands for bytes that form no character. -/
def read (bytes : Bytes) : List (Option Char) := readFrom .between bytes

/-- The text the bytes stand for, unless some form no character. -/
def decode? (bytes : Bytes) : Option (List Char) := (read bytes).mapM id

/-- The text the bytes stand for, with U+FFFD for bytes that form no character. -/
def decodeLossy (bytes : Bytes) : List Char := (read bytes).map fun c? => c?.getD '\ufffd'

end Utf8

/-- The text as bytes. -/
def toBytes (s : String) : Bytes := s.toUTF8.toList

end OrderedAtomics.Text
