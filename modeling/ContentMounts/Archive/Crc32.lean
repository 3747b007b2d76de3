import ContentMounts.Text.Utf8

/-!
# Checksums of entries

The cyclic redundancy check of 32 bits with the reflected polynomial `0xEDB88320`. A checksum is a
fold over the bytes, so the checksum of a string of bytes continues that of a part in front of it.
-/

namespace ContentMounts

namespace Crc32

/-- The state after one bit. -/
def shift (state : UInt32) : UInt32 :=
  if state &&& 1 = 1 then (state >>> 1) ^^^ 0xEDB88320 else state >>> 1

/-- The state after one byte. -/
def update (state : UInt32) (b : UInt8) : UInt32 := Nat.repeat shift 8 (state ^^^ b.toUInt32)

/-- The checksum of a string of bytes. -/
def checksum (bs : Bytes) : Nat := (bs.foldl update 0xFFFFFFFF ^^^ 0xFFFFFFFF).toNat

/-- The value by which implementations are checked: the checksum of the digits `1` to `9`. -/
example : checksum (Utf8.encode "123456789".toList) = 0xCBF43926 := by decide +kernel

end Crc32

end ContentMounts
