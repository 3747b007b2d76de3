import ContentMounts.Toml.Value

/-!
# Numbers and dates

The spellings of integers, floats, dates and times. Each reader takes the longest spelling of its
kind at the start of a text and gives the rest back. Underscores may stand between digits. Integers
have 64 bits; a float may not be so large that it would be infinite.
-/

namespace ContentMounts

namespace Toml

/-- Whether a character is a digit of a base. -/
def isDigit (base : Nat) (c : Char) : Bool := (Text.hexValue? c).any (· < base)

/-- The digits behind a first digit, each of them with at most one underscore before it, and the
rest. The underscores are left out of the result. -/
def moreDigits (base : Nat) : Text → Text × Text
  | [] => ([], [])
  | '_' :: d :: r =>
    if isDigit base d then
      let (ds, rest) := moreDigits base r
      (d :: ds, rest)
    else ([], '_' :: d :: r)
  | d :: r =>
    if isDigit base d then
      let (ds, rest) := moreDigits base r
      (d :: ds, rest)
    else ([], d :: r)

/-- Digits of a base with single underscores between them, and the rest. -/
def digits (base : Nat) : Text → Text × Text
  | [] => ([], [])
  | d :: r =>
    if isDigit base d then
      let (ds, rest) := moreDigits base r
      (d :: ds, rest)
    else ([], d :: r)

/-- A sign, if there is one: whether it is negative, and the rest. -/
def sign : Text → Bool × Text
  | '-' :: r => (true, r)
  | '+' :: r => (false, r)
  | t => (false, t)

/-- The digits of a decimal integer, without leading zeros. -/
def decimal? (t : Text) : Option (Text × Text) :=
  match t with
  | '0' :: r => some (['0'], r)
  | _ =>
    match digits 10 t with
    | ([], _) => none
    | found => some found

/-- An integer. -/
def integer? (t : Text) : Option (Value × Text) :=
  let based (base : Nat) (r : Text) : Option (Value × Text) :=
    match digits base r with
    | ([], _) => none
    | (ds, rest) => do
      let n ← Text.digitsValue? base ds
      if n < Nat.pow 2 63 then some (.integer n, rest) else none
  match t with
  | '0' :: 'x' :: r => based 16 r
  | '0' :: 'o' :: r => based 8 r
  | '0' :: 'b' :: r => based 2 r
  | _ => do
    let (negative, r) := sign t
    let (ds, rest) ← decimal? r
    let n ← Text.digitsValue? 10 ds
    let v : Int := if negative then -n else n
    if -(Nat.pow 2 63 : Int) ≤ v ∧ v < Nat.pow 2 63 then some (.integer v, rest) else none

/-- Whether the decimal `m · 10 ^ e` is too large for a float of 64 bits: it is at least halfway
between the largest of them and the next power of two. -/
def overflows (m : Nat) (e : Int) : Bool :=
  let places : Int := (Nat.toDigits 10 m).length + e
  if m = 0 ∨ places < 300 then false
  else if places > 320 then true
  else
    let bound := Nat.pow 2 1024 - Nat.pow 2 970
    if e ≥ 0 then m * Nat.pow 10 e.toNat ≥ bound else m ≥ bound * Nat.pow 10 (-e).toNat

/-- A float. -/
def float? (t : Text) : Option (Value × Text) :=
  let (negative, r) := sign t
  match r with
  | 'i' :: 'n' :: 'f' :: rest => some (.float, rest)
  | 'n' :: 'a' :: 'n' :: rest => some (.float, rest)
  | _ => do
    let (whole, r) ← decimal? r
    let (fraction, r) ← match r with
      | '.' :: s =>
        match digits 10 s with
        | ([], _) => none
        | (ds, rest) => some (some ds, rest)
      | _ => some (none, r)
    let (exponent, rest) ← match r with
      | c :: s =>
        if c = 'e' ∨ c = 'E' then
          let (down, s) := sign s
          match digits 10 s with
          | ([], _) => none
          | (ds, rest) => do
            let n ← Text.digitsValue? 10 ds
            some (some (if down then -(n : Int) else n), rest)
        else some (none, r)
      | [] => some (none, r)
    if fraction.isNone && exponent.isNone then none
    else
      let ds := fraction.getD []
      let m ← Text.digitsValue? 10 (whole ++ ds)
      if !negative && overflows m (exponent.getD 0 - ds.length) then none else some (.float, rest)

/-- A number of exactly `n` decimal digits within bounds. -/
def fixed? (n low high : Nat) (t : Text) : Option (Nat × Text) := do
  let ds := t.take n
  if ds.length = n ∧ ds.all Char.isDigit then
    let v ← Text.digitsValue? 10 ds
    if low ≤ v ∧ v ≤ high then some (v, t.drop n) else none
  else none

/-- The given character at the start of a text is dropped. -/
def expect? (c : Char) : Text → Option Text
  | d :: r => if c = d then some r else none
  | [] => none

/-- The number of days of a month. -/
def daysIn (year month : Nat) : Nat :=
  if month = 2 then (if year % 4 = 0 ∧ (year % 100 ≠ 0 ∨ year % 400 = 0) then 29 else 28)
  else if month ∈ [4, 6, 9, 11] then 30 else 31

/-- What follows a date. -/
def date? (t : Text) : Option Text := do
  let (year, r) ← fixed? 4 0 9999 t
  let (month, r) ← fixed? 2 1 12 (← expect? '-' r)
  let (_, r) ← fixed? 2 1 (daysIn year month) (← expect? '-' r)
  some r

/-- What follows a time of day. -/
def time? (t : Text) : Option Text := do
  let (_, r) ← fixed? 2 0 23 t
  let (_, r) ← fixed? 2 0 59 (← expect? ':' r)
  let (_, r) ← fixed? 2 0 60 (← expect? ':' r)
  match r with
  | '.' :: s => if s.head?.any Char.isDigit then some (s.dropWhile Char.isDigit) else some r
  | _ => some r

/-- What follows the distance of a time zone, if there is one. -/
def zone? (t : Text) : Option Text :=
  match t with
  | 'Z' :: r => some r
  | 'z' :: r => some r
  | c :: r =>
    if c = '+' ∨ c = '-' then do
      let (_, r) ← fixed? 2 0 23 r
      let (_, r) ← fixed? 2 0 59 (← expect? ':' r)
      some r
    else some t
  | [] => some t

/-- A date, a time or both. -/
def datetime? (t : Text) : Option (Value × Text) :=
  match date? t with
  | some r =>
    match r with
    | c :: s =>
      if c = 'T' ∨ c = 't' ∨ c = ' ' then
        match time? s with
        | some s => (zone? s).map fun rest => (.datetime, rest)
        | none => some (.datetime, r)
      else some (.datetime, r)
    | [] => some (.datetime, r)
  | none => (time? t).map fun rest => (.datetime, rest)

end Toml

end ContentMounts
