/-!
# Text

A text is the list of its Unicode scalar values. Everything the library reads or writes as text
(addresses, entry names, configuration, messages) is handled in this form, so that its functions
recurse on the characters themselves. Letters are compared up to case in ASCII only: schemes and
host names are the only texts for which case is ignored, and both are ASCII.
-/

namespace ContentMounts

/-- A text, as the list of its characters. -/
abbrev Text := List Char

namespace Text

/-- The text with `A` to `Z` replaced by `a` to `z`; every other character stays. -/
def lower (t : Text) : Text := t.map Char.toLower

/-- Equality of two texts up to the case of ASCII letters. -/
def sameIgnoringCase (a b : Text) : Bool := lower a == lower b

/-- The text without the longest run of characters satisfying `p` at its end. -/
def dropEndWhile (p : Char → Bool) (t : Text) : Text := (t.reverse.dropWhile p).reverse

/-- The text without the longest runs of characters satisfying `p` at both ends. -/
def trimWhile (p : Char → Bool) (t : Text) : Text := dropEndWhile p (t.dropWhile p)

/-- The text before the first occurrence of `mark` and the text behind it, if `mark` occurs. -/
def cut? (mark : Text) : Text → Option (Text × Text)
  | [] => if mark.isEmpty then some ([], []) else none
  | c :: r =>
    if mark.isPrefixOf (c :: r) then some ([], (c :: r).drop mark.length)
    else (cut? mark r).map fun (before, behind) => (c :: before, behind)

/-- The text up to the last occurrence of `c`, and the text behind it, if `c` occurs. -/
def cutLast? (c : Char) : Text → Option (Text × Text)
  | [] => none
  | d :: r =>
    match cutLast? c r with
    | some (before, behind) => some (d :: before, behind)
    | none => if d = c then some ([], r) else none

/-- Alphabetical order of texts by code point. -/
def le : Text → Text → Bool
  | [], _ => true
  | _ :: _, [] => false
  | a :: r, b :: s => a.toNat < b.toNat || (a == b && le r s)

/-- The texts in ascending order; equal texts are all kept. -/
def sort (ts : List Text) : List Text := ts.mergeSort le

/-- Value of an ASCII hexadecimal digit of either case. -/
def hexValue? (c : Char) : Option Nat :=
  if '0' ≤ c ∧ c ≤ '9' then some (c.toNat - '0'.toNat)
  else if 'a' ≤ c ∧ c ≤ 'f' then some (c.toNat - 'a'.toNat + 10)
  else if 'A' ≤ c ∧ c ≤ 'F' then some (c.toNat - 'A'.toNat + 10)
  else none

/-- Value of a text of digits in the given base, or `none` if a character is not one of its
digits. The empty text has value zero. -/
def digitsValue? (base : Nat) (t : Text) : Option Nat :=
  t.foldl (fun acc c => do
    let n ← acc
    let d ← hexValue? c
    if d < base then some (n * base + d) else none) (some 0)

/-- The decimal digits of a natural number. -/
def ofNat (n : Nat) : Text := Nat.toDigits 10 n

end Text

end ContentMounts
