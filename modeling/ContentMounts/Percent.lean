import ContentMounts.Text.Utf8

/-!
# Percent-encoding

A byte may be written `%XX` with two hexadecimal digits. Which bytes have to be written so depends
on the place in the address and is given by a set of bytes; bytes outside ASCII are always in it.
Reading accepts digits of either case and leaves a `%` alone that two digits do not follow.
-/

namespace ContentMounts

namespace Percent

/-- A set of bytes that are to be written as `%XX`. -/
abbrev ByteSet := UInt8 → Bool

/-- The control characters and every byte outside ASCII. -/
def controls : ByteSet := fun b => b < 0x20 || b ≥ 0x7F

/-- A set enlarged by the given ASCII characters. -/
def adding (set : ByteSet) (cs : Text) : ByteSet := fun b => set b || cs.any (·.toNat == b.toNat)

/-- An upper-case hexadecimal digit. -/
def hexDigit (n : Nat) : Char :=
  if n < 10 then Char.ofNat ('0'.toNat + n) else Char.ofNat ('A'.toNat + (n - 10))

/-- The written form of a byte that may not stand for itself. -/
def escape (b : UInt8) : Text := ['%', hexDigit (b.toNat / 16), hexDigit (b.toNat % 16)]

/-- A byte string in which the bytes of `set` are escaped. -/
def encodeBytes (set : ByteSet) (bs : Bytes) : Text :=
  bs.flatMap fun b => if set b then escape b else [Char.ofNat b.toNat]

/-- A text in which the bytes of `set` are escaped. -/
def encode (set : ByteSet) (t : Text) : Text := encodeBytes set (Utf8.encode t)

/-- Value of a byte that is an ASCII hexadecimal digit. -/
def hexByte? (b : UInt8) : Option Nat := Text.hexValue? (Char.ofNat b.toNat)

/-- The byte string with every well-formed `%XX` replaced by the byte it stands for. -/
def decodeBytes : Bytes → Bytes
  | [] => []
  | b :: r =>
    match r with
    | [] => [b]
    | h :: s =>
      match s with
      | [] => [b, h]
      | l :: t =>
        if b = 0x25 then
          match hexByte? h, hexByte? l with
          | some x, some y => UInt8.ofNat (x * 16 + y) :: decodeBytes t
          | _, _ => b :: decodeBytes (h :: l :: t)
        else b :: decodeBytes (h :: l :: t)

/-- The bytes a text stands for once its `%XX` are read. -/
def decode (t : Text) : Bytes := decodeBytes (Utf8.encode t)

/-- The set for one segment of a path: what would end the segment's place in the address or be
read differently there. -/
def segmentSet : ByteSet := adding controls [' ', '"', '#', '%', '<', '>', '?', '`', '\x7b', '\x7d']

/-- One path segment in its written form. The separator `/` is not a special character here: a
segment does not hold it. -/
def encodeSegment (segment : Text) : Text := encode segmentSet segment

end Percent

end ContentMounts
