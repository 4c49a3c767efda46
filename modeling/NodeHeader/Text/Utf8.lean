/-
  UTF-8.

  File contents, path names and command-line arguments are bytes. `encode` and
  `decode?` pass between them and text, and `decodeLossy` is for showing bytes
  that may be no text at all: it puts U+FFFD for each maximal sequence that no
  well-formed encoding begins with.

  The main fact is `decode?_encode`: decoding an encoded text gives it back.
-/

namespace NodeHeader.Text

/-- Bytes of a file, of a path name or of an argument. -/
abbrev Bytes := List UInt8

/-! ### Exact encoding and decoding -/

/-- The UTF-8 bytes of a text. -/
def encode (s : String) : Bytes :=
  s.toUTF8.data.toList

/-- The text that the bytes encode, if they are well-formed UTF-8. -/
def decode? (bytes : Bytes) : Option String :=
  String.fromUTF8? ⟨bytes.toArray⟩

theorem decode?_encode (s : String) : decode? (encode s) = some s := by
  have h : (⟨(encode s).toArray⟩ : ByteArray) = s.toByteArray := by simp [encode]
  rw [decode?, h, String.fromUTF8?, dif_pos s.isValidUTF8]
  rfl

/-- Bytes decode to a text only if they are its encoding. -/
theorem decode?_eq_some_iff {bytes : Bytes} {s : String} :
    decode? bytes = some s ↔ bytes = encode s := by
  constructor
  · intro h
    rw [decode?, String.fromUTF8?] at h
    split at h
    · obtain rfl := Option.some.inj h
      rfl
    · cases h
  · rintro rfl
    exact decode?_encode s

/-- The number of bytes is the length of the encoding. -/
theorem length_encode (s : String) : (encode s).length = s.utf8ByteSize := by
  simp [encode]

/-! ### Decoding for display -/

/-- What a lead byte announces: how many bytes follow it, and the range of the first of
them. The ranges keep out the encodings that are too long for their value, the surrogates,
and the values above U+10FFFF. -/
def announced (lead : UInt8) : Option (Nat × UInt8 × UInt8) :=
  if lead < 0x80 then some (0, 0x80, 0xBF)
  else if lead < 0xC2 then none
  else if lead < 0xE0 then some (1, 0x80, 0xBF)
  else if lead = 0xE0 then some (2, 0xA0, 0xBF)
  else if lead = 0xED then some (2, 0x80, 0x9F)
  else if lead < 0xF0 then some (2, 0x80, 0xBF)
  else if lead = 0xF0 then some (3, 0x90, 0xBF)
  else if lead < 0xF4 then some (3, 0x80, 0xBF)
  else if lead = 0xF4 then some (3, 0x80, 0x8F)
  else none

/-- The part of a lead byte's value that enters the code point, for a number of bytes that
follow it. -/
def leadBits (lead : UInt8) : Nat → Nat
  | 0 => lead.toNat
  | 1 => lead.toNat % 0x20
  | 2 => lead.toNat % 0x10
  | _ => lead.toNat % 0x08

/-- Reads the bytes that follow a lead byte, the first of them in a range of its own. Gives
the code point, or nothing if a byte that fits is missing, and the number of bytes read. -/
def readFollowing (value count : Nat) (low high : UInt8) : Bytes → Option Nat × Nat
  | [] => (if count = 0 then some value else none, 0)
  | b :: rest =>
    match count with
    | 0 => (some value, 0)
    | more + 1 =>
      if low ≤ b && b ≤ high then
        let (found, used) := readFollowing (value * 0x40 + b.toNat % 0x40) more 0x80 0xBF rest
        (found, used + 1)
      else (none, 0)

/-- The character put where bytes are no encoding. -/
def replacement : Char := '\uFFFD'

/-- Decodes with a number of bytes still to be skipped, since they belong to a character
that is already written. -/
def decodeSkipping : Nat → Bytes → List Char
  | _, [] => []
  | skip + 1, _ :: rest => decodeSkipping skip rest
  | 0, lead :: rest =>
    match announced lead with
    | none => replacement :: decodeSkipping 0 rest
    | some (count, low, high) =>
      let (found, used) := readFollowing (leadBits lead count) count low high rest
      (found.elim replacement Char.ofNat) :: decodeSkipping used rest

/-- The text of the bytes, with U+FFFD for each maximal sequence that is no encoding. -/
def decodeLossy (bytes : Bytes) : String :=
  String.ofList (decodeSkipping 0 bytes)

end NodeHeader.Text
