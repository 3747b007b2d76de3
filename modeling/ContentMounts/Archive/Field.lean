import ContentMounts.Text.Utf8

/-!
# Fields of records

The records of an archive are blocks of bytes of a known length that start with a mark. Their fields
are numbers, the lowest byte first.
-/

namespace ContentMounts

namespace Directory

/-- The given number of bytes at a position. -/
def slice? (bs : Bytes) (start count : Nat) : Option Bytes :=
  let s := (bs.drop start).take count
  if s.length = count then some s else none

/-- A number in a block of bytes. -/
def field (block : Bytes) (start width : Nat) : Nat :=
  ((block.drop start).take width).foldr (fun b n => b.toNat + 256 * n) 0

/-- A block of the given length that starts with a mark. -/
def block? (mark : Bytes) (length : Nat) (bs : Bytes) (start : Nat) : Option Bytes :=
  (slice? bs start length).filter mark.isPrefixOf

/-- The positions of a mark, counted from a number on. -/
def positionsOf (mark : Bytes) : Nat → Bytes → List Nat
  | _, [] => []
  | i, b :: r =>
    if mark.isPrefixOf (b :: r) then i :: positionsOf mark (i + 1) r else positionsOf mark (i + 1) r

/-- The positions from a first one on at which a mark stands in front of a last one. -/
def positionsBetween (mark : Bytes) (bs : Bytes) (first last : Nat) : List Nat :=
  positionsOf mark first ((bs.take last).drop first)

end Directory

end ContentMounts
