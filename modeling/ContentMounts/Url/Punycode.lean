import ContentMounts.Text.Basic

/-!
# Encoded labels

A label of a domain name is written in ASCII even if it holds other characters. Its ASCII characters
come first, and behind the last hyphen stands where the others are put between them: for each, in
ascending order, a number that counts how many places, of all the places for all the smaller
characters, lie between it and the one before.

These numbers are written in digits of base 36, the least one first. A digit below a threshold ends
the number, and the thresholds follow a bias, which adapts to the size of the numbers read so far.
-/

namespace ContentMounts

namespace Punycode

/-- The number of digits. -/
def base : Nat := 36

/-- Numbers stay below this limit, and so do the weights of their digits. -/
def limit : Nat := Nat.pow 2 32

/-- Value of a digit: `a` to `z`, and behind them `0` to `9`. -/
def digit? (c : Char) : Option Nat :=
  if 'a' ≤ c ∧ c ≤ 'z' then some (c.toNat - 'a'.toNat)
  else if '0' ≤ c ∧ c ≤ '9' then some (c.toNat - '0'.toNat + 26)
  else none

/-- The threshold of a digit: `k` goes up by the base from digit to digit. -/
def threshold (k bias : Nat) : Nat := max 1 (min 26 (k - bias))

/-- Reads a number whose next digit has the given weight, on top of a sum, and gives what follows
it. -/
def number? (bias : Nat) : Nat → Nat → Nat → Text → Option (Nat × Text)
  | _, _, _, [] => none
  | k, weight, sum, c :: r => do
    let d ← digit? c
    let sum := sum + d * weight
    if sum ≥ limit then none
    else if d < threshold k bias then some (sum, r)
    else
      let weight := weight * (base - threshold k bias)
      if weight ≥ limit then none else number? bias (k + base) weight sum r

/-- How often a number is divided until it is small, times the base, and what is left of it. -/
def scaled (n : Nat) : Nat × Nat :=
  if 455 < n then
    let (k, rest) := scaled (n / 35)
    (k + base, rest)
  else (0, n)
termination_by n
decreasing_by omega

/-- The bias behind a number, which put a character into a label that has the given length now. -/
def adapt (number length : Nat) (isFirst : Bool) : Nat :=
  let n := if isFirst then number / 700 else number / 2
  let (k, rest) := scaled (n + n / length)
  k + base * rest / (rest + 38)

/-- A label while characters are put into it. -/
structure Draft where
  label : Text
  /-- The last character put into it, by its number. -/
  codePoint : Nat
  /-- The place behind that character. -/
  place : Nat
  bias : Nat
deriving DecidableEq, Repr

/-- The label with one more character. The number counts on from the place of the last one. -/
def Draft.insert? (p : Draft) (number : Nat) : Option Draft :=
  let places := p.label.length + 1
  let codePoint := p.codePoint + number / places
  let place := number % places
  if codePoint.isValidChar then
    some {
      label := p.label.take place ++ Char.ofNat codePoint :: p.label.drop place
      codePoint := codePoint
      place := place + 1
      bias := adapt (number - p.place) places (p.place = 0) }
  else none

/-- The label with the characters that a text of digits puts into it. -/
def Draft.insertAll? : Nat → Draft → Text → Option Text
  | _, p, [] => some p.label
  | 0, _, _ => none
  | fuel + 1, p, t => do
    let (number, rest) ← number? p.bias base 1 p.place t
    insertAll? fuel (← p.insert? number) rest

/-- The label that its written form, in lower case, stands for. A hyphen with nothing in front of it
does not count. -/
def decode? (t : Text) : Option Text :=
  let (ascii, digits) :=
    match Text.cutLast? '-' t with
    | some (c :: before, behind) => (c :: before, behind)
    | _ => ([], t)
  Draft.insertAll? digits.length ⟨ascii, 0x80, 0, 72⟩ digits

/-- The German word for a book. -/
example : decode? "bcher-kva".toList = some "bücher".toList := by decide +kernel

/-- A label of ASCII characters alone. -/
example : decode? "abc-".toList = some "abc".toList := by decide +kernel

/-- The number is not complete. -/
example : decode? "0".toList = none := by decide +kernel

end Punycode

end ContentMounts
