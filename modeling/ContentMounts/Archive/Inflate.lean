import ContentMounts.Archive.PrefixCode
import ContentMounts.Text.Utf8

/-!
# Compressed data

Compressed data are a sequence of bits, the lowest bit of each byte first, that is divided into
blocks. A block holds bytes as they are, or symbols of two prefix codes: a symbol of the first code
is a byte, the end of the block, or the length of a repetition, whose distance a symbol of the
second code gives. The codes are fixed ones or stand in front of the block, compressed in turn by a
third code.

Data that break a rule are corrupt; data that end before the last block does are truncated. Of two
faults the one met first counts. What stands behind the last block is not looked at.
-/

namespace ContentMounts

namespace Inflate

/-- Why compressed data cannot be read. -/
inductive Failure where
  | corrupt
  | truncated
deriving DecidableEq, Repr

/-- The bits not yet read. -/
abbrev Bits := List Bool

/-- A part of the data: it takes its bits from those not yet read. -/
abbrev Reader := StateT Bits (Except Failure)

/-- The bits of a string of bytes. -/
def bitsOf (bs : Bytes) : Bits := bs.flatMap fun b => (List.range 8).map b.toNat.testBit

/-- One bit. -/
def bit : Reader Bool
  | [] => .error .truncated
  | b :: rest => .ok (b, rest)

/-- A number of the given width, its lowest bit first. -/
def number : Nat → Reader Nat
  | 0 => pure 0
  | width + 1 => do
    let b ← bit
    let n ← number width
    pure (b.toNat + 2 * n)

/-- The symbol of a code word. -/
def symbol : PrefixCode → Reader Nat
  | .empty => throw .corrupt
  | .leaf s => pure s
  | .branch zero one => do
    if ← bit then symbol one else symbol zero

/-- The code with the given lengths. -/
def code (lone : Bool) (lengths : List Nat) : Reader PrefixCode :=
  match PrefixCode.ofLengths? lone lengths with
  | some c => pure c
  | none => throw .corrupt

/-! ### Repetitions -/

/-- The smallest value a symbol stands for, and the number of bits behind it that are added. -/
abbrev Ranges := List (Nat × Nat)

/-- The lengths of repetitions, from symbol 257 on. -/
def lengthRanges : Ranges :=
  [(3, 0), (4, 0), (5, 0), (6, 0), (7, 0), (8, 0), (9, 0), (10, 0), (11, 1), (13, 1), (15, 1),
    (17, 1), (19, 2), (23, 2), (27, 2), (31, 2), (35, 3), (43, 3), (51, 3), (59, 3), (67, 4),
    (83, 4), (99, 4), (115, 4), (131, 5), (163, 5), (195, 5), (227, 5), (258, 0)]

/-- The distances of repetitions. -/
def distanceRanges : Ranges :=
  [(1, 0), (2, 0), (3, 0), (4, 0), (5, 1), (7, 1), (9, 2), (13, 2), (17, 3), (25, 3), (33, 4),
    (49, 4), (65, 5), (97, 5), (129, 6), (193, 6), (257, 7), (385, 7), (513, 8), (769, 8),
    (1025, 9), (1537, 9), (2049, 10), (3073, 10), (4097, 11), (6145, 11), (8193, 12), (12289, 12),
    (16385, 13), (24577, 13)]

/-- The value of a symbol and the bits behind it. -/
def inRange (ranges : Ranges) (s : Nat) : Reader Nat :=
  match ranges[s]? with
  | some (least, width) => do pure (least + (← number width))
  | none => throw .corrupt

/-- The byte at a distance from the end of those read. What lies before the first byte reads as
zero. -/
def byteBack (distance : Nat) (out : Array UInt8) : UInt8 :=
  if distance ≤ out.size then out.getD (out.size - distance) 0 else 0

/-- The bytes read, with as many more as the length of a repetition says. -/
def copyBack (distance : Nat) : Nat → Array UInt8 → Array UInt8
  | 0, out => out
  | n + 1, out => copyBack distance n (out.push (byteBack distance out))

/-! ### Blocks -/

/-- The rest of a block of symbols behind the given bytes. Every symbol takes a bit at least, so the
number of bits bounds the steps. -/
def symbols (literals distances : PrefixCode) : Nat → Array UInt8 → Reader (Array UInt8)
  | 0, _ => throw .truncated
  | fuel + 1, out => do
    let s ← symbol literals
    if s < 256 then symbols literals distances fuel (out.push (UInt8.ofNat s))
    else if s = 256 then pure out
    else
      let length ← inRange lengthRanges (s - 257)
      let distance ← inRange distanceRanges (← symbol distances)
      symbols literals distances fuel (copyBack distance length out)

/-- Some bytes as they are, behind the given ones. -/
def plainBytes : Nat → Array UInt8 → Reader (Array UInt8)
  | 0, out => pure out
  | n + 1, out => do
    let b ← number 8
    plainBytes n (out.push (UInt8.ofNat b))

/-- A block of bytes as they are. It starts at the next whole byte with its length, given twice. -/
def plainBlock (out : Array UInt8) : Reader (Array UInt8) := do
  modify fun bits => bits.drop (bits.length % 8)
  let length ← number 16
  let check ← number 16
  if length + check ≠ 0xFFFF then throw .corrupt
  plainBytes length out

/-- The lengths of the words of the fixed code for bytes and repetitions. -/
def fixedLiterals : List Nat :=
  List.replicate 144 8 ++ List.replicate 112 9 ++ List.replicate 24 7 ++ List.replicate 8 8

/-- The lengths of the words of the fixed code for distances. -/
def fixedDistances : List Nat := List.replicate 32 5

/-- The order in which the lengths of the third code are given. -/
def lengthOrder : List Nat := [16, 17, 18, 0, 8, 7, 9, 6, 10, 5, 11, 4, 12, 3, 13, 2, 14, 1, 15]

/-- The given number of code lengths, behind those read so far, the last one first. A symbol is a
length or a number of equal lengths. -/
def codeLengths (c : PrefixCode) (total : Nat) : Nat → List Nat → Reader (List Nat)
  | 0, _ => throw .corrupt
  | fuel + 1, known =>
    if known.length = total then pure known.reverse
    else if known.length > total then throw .corrupt
    else do
      let s ← symbol c
      if s < 16 then codeLengths c total fuel (s :: known)
      else if s = 16 then
        match known with
        | [] => throw .corrupt
        | last :: _ =>
          codeLengths c total fuel (List.replicate (3 + (← number 2)) last ++ known)
      else if s = 17 then
        codeLengths c total fuel (List.replicate (3 + (← number 3)) 0 ++ known)
      else
        codeLengths c total fuel (List.replicate (11 + (← number 7)) 0 ++ known)

/-- The two codes that stand in front of a block. -/
def ownCodes : Reader (PrefixCode × PrefixCode) := do
  let literals := 257 + (← number 5)
  let distances := 1 + (← number 5)
  let given := 4 + (← number 4)
  if literals > 286 ∨ distances > 30 then throw .corrupt
  let lengths ← (List.range given).mapM fun _ => number 3
  let third := (List.range 19).map fun s => ((lengthOrder.zip lengths).lookup s).getD 0
  let c ← code false third
  let all ← codeLengths c (literals + distances) (literals + distances + 1) []
  let distanceCode ← code true (all.drop literals)
  let literalCode ← code true (all.take literals)
  pure (literalCode, distanceCode)

/-- The blocks behind the given bytes, up to the last block. -/
def blocks : Nat → Array UInt8 → Reader (Array UInt8)
  | 0, _ => throw .truncated
  | fuel + 1, out => do
    let isLast ← bit
    let kind ← number 2
    let steps := (← get).length + 1
    let out ← match kind with
      | 0 => plainBlock out
      | 1 => do
        symbols (← code false fixedLiterals) (← code false fixedDistances) steps out
      | 2 => do
        let (literals, distances) ← ownCodes
        symbols literals distances steps out
      | _ => throw .corrupt
    if isLast then pure out else blocks fuel out

/-- The bytes that compressed data stand for. -/
def decompress (bs : Bytes) : Except Failure Bytes :=
  let bits := bitsOf bs
  match (blocks (bits.length + 1) #[]).run bits with
  | .ok (out, _) => .ok out.toList
  | .error e => .error e

end Inflate

end ContentMounts
