import ContentMounts.Text.Basic

/-!
# UTF-8

Reading of byte strings as UTF-8 text. The reader goes through the bytes once and keeps what it
still expects of the character it is in. Bytes that belong to no character are reported at the
place where they occur: `decodeLossy` writes U+FFFD for each maximal ill-formed piece, `decode?`
refuses the whole string.
-/

namespace ContentMounts

/-- A string of bytes. -/
abbrev Bytes := List UInt8

namespace Utf8

/-- What is still expected of a character whose first bytes have been read: the bits collected so
far, how many bytes are missing and the range in which the next one must lie. -/
structure Pending where
  bits : Nat
  missing : Nat
  low : UInt8
  high : UInt8

/-- The state behind a first byte: a complete character, the start of a longer one, or nothing
that a character can start with. -/
inductive Lead where
  | complete (c : Char)
  | opens (p : Pending)
  | invalid

/-- How a byte can start a character. The tighter ranges for the second byte exclude overlong
forms, surrogates and code points above U+10FFFF. -/
def lead (b : UInt8) : Lead :=
  let n := b.toNat
  if n < 0x80 then .complete (Char.ofNat n)
  else if n < 0xC2 then .invalid
  else if n < 0xE0 then .opens ⟨n - 0xC0, 1, 0x80, 0xBF⟩
  else if n = 0xE0 then .opens ⟨0, 2, 0xA0, 0xBF⟩
  else if n = 0xED then .opens ⟨0xD, 2, 0x80, 0x9F⟩
  else if n < 0xF0 then .opens ⟨n - 0xE0, 2, 0x80, 0xBF⟩
  else if n = 0xF0 then .opens ⟨0, 3, 0x90, 0xBF⟩
  else if n < 0xF4 then .opens ⟨n - 0xF0, 3, 0x80, 0xBF⟩
  else if n = 0xF4 then .opens ⟨4, 3, 0x80, 0x8F⟩
  else .invalid

/-- The characters of a byte string from a given state on; `none` stands for an ill-formed piece.
A byte that does not continue the open character ends it as ill-formed and is read again as a
first byte. -/
def scan : Option Pending → Bytes → List (Option Char)
  | none, [] => []
  | some _, [] => [none]
  | none, b :: r =>
    match lead b with
    | .complete c => some c :: scan none r
    | .opens p => scan (some p) r
    | .invalid => none :: scan none r
  | some p, b :: r =>
    if p.low ≤ b ∧ b ≤ p.high then
      let bits := p.bits * 64 + b.toNat % 64
      if p.missing = 1 then some (Char.ofNat bits) :: scan none r
      else scan (some ⟨bits, p.missing - 1, 0x80, 0xBF⟩) r
    else
      none :: match lead b with
        | .complete c => some c :: scan none r
        | .opens q => scan (some q) r
        | .invalid => none :: scan none r

/-- The text of a byte string, with U+FFFD for every ill-formed piece. -/
def decodeLossy (bs : Bytes) : Text := (scan none bs).map fun c => c.getD (Char.ofNat 0xFFFD)

/-- The text of a byte string that is well formed throughout. -/
def decode? (bs : Bytes) : Option Text := (scan none bs).mapM id

/-- The bytes of a text. -/
def encode (t : Text) : Bytes := t.flatMap String.utf8EncodeChar

end Utf8

end ContentMounts
