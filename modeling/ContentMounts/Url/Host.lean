import ContentMounts.Url.Basic
import ContentMounts.Url.Punycode

/-!
# Hosts

The host of an address is a domain name, an IPv4 address or an IPv6 address in brackets. Under a
scheme with naming rules a name is unescaped, put into lower case and checked for forbidden
characters, and a name whose last label is a number is an IPv4 address, whose parts may be written
in base 8, 10 or 16. Names outside ASCII would need the tables of the international domain names
and are refused, but a label may be the written form of one. Under any other scheme the name is
taken as it stands.
-/

namespace ContentMounts

namespace Url

namespace Host

/-! ### IPv4 -/

/-- Value of one part of an IPv4 address: hexadecimal behind `0x`, octal behind a leading zero,
else decimal. -/
def ipv4Part? (part : Text) : Option Nat :=
  match part with
  | [] => none
  | '0' :: 'x' :: digits => Text.digitsValue? 16 digits
  | '0' :: 'X' :: digits => Text.digitsValue? 16 digits
  | '0' :: d :: digits => Text.digitsValue? 8 (d :: digits)
  | digits => Text.digitsValue? 10 digits

/-- The labels of a name; one empty label at the end is dropped. -/
def labels (name : Text) : List Text :=
  let parts := name.splitOn '.'
  if parts.getLast? = some [] ∧ parts.length > 1 then parts.dropLast else parts

/-- Whether the last label of a name is a number, so that the name has to be an IPv4 address. -/
def endsInNumber (name : Text) : Bool :=
  match (labels name).getLast? with
  | none => false
  | some label => (!label.isEmpty && label.all Char.isDigit) || (ipv4Part? label).isSome

/-- The address in the 32 bits given by the parts: the last part fills all bytes that the parts
before it leave. -/
def ipv4Value? (parts : List Nat) : Option Nat :=
  match parts.reverse with
  | [] => none
  | last :: before =>
    let bytes := before.reverse
    if parts.length > 4 ∨ last ≥ Nat.pow 256 (4 - bytes.length) ∨ bytes.any (· > 255) then none
    else some (bytes.foldl (fun n b => n * 256 + b) 0 * Nat.pow 256 (4 - bytes.length) + last)

/-- Four decimal numbers with points between them. -/
def ipv4Text (n : Nat) : Text :=
  List.intercalate ['.']
    ([n / Nat.pow 2 24, n / Nat.pow 2 16 % 256, n / Nat.pow 2 8 % 256, n % 256].map Text.ofNat)

/-- The host for a name that ends in a number. -/
def ipv4 (name : Text) : Except Malformed Text :=
  match ((labels name).mapM ipv4Part?).bind ipv4Value? with
  | some n => .ok (ipv4Text n)
  | none => .error .ipv4

/-! ### IPv6

The groups are read from left to right. A `::` counts as one zero group while reading, and all
groups that are missing at the end are filled in behind it. -/

/-- The groups read so far, and how many of them stand up to and with the `::`. -/
structure Groups where
  pieces : List Nat
  compress : Option Nat

/-- Up to four hexadecimal digits at the start of a text, with the rest. -/
def hexGroup (t : Text) : Text × Text :=
  let digits := (t.take 4).takeWhile fun c => (Text.hexValue? c).isSome
  (digits, t.drop digits.length)

/-- A decimal number below 256 without a leading zero. -/
def byteText? (t : Text) : Option Nat :=
  match t with
  | [] => none
  | '0' :: _ :: _ => none
  | _ =>
    if t.all Char.isDigit ∧ t.length ≤ 3 then (Text.digitsValue? 10 t).filter (· < 256) else none

/-- The two groups that an IPv4 address at the end of an IPv6 address stands for. -/
def embeddedIpv4? (t : Text) : Option (List Nat) :=
  match (t.splitOn '.').mapM byteText? with
  | some [a, b, c, d] => some [a * 256 + b, c * 256 + d]
  | _ => none

/-- Reads groups up to the end of the text. A colon must follow each group that is not the last,
and a second colon behind it is the `::`, allowed once. -/
def readGroups? : Nat → Groups → Text → Option Groups
  | 0, _, _ => none
  | _ + 1, g, [] => some g
  | fuel + 1, g, ':' :: r =>
    if g.pieces.length = 8 ∨ g.compress.isSome then none
    else readGroups? fuel ⟨g.pieces ++ [0], some (g.pieces.length + 1)⟩ r
  | fuel + 1, g, t =>
    if g.pieces.length = 8 then none
    else
      let (digits, rest) := hexGroup t
      match rest with
      | '.' :: _ =>
        if digits.isEmpty ∨ g.pieces.length > 6 then none
        else (embeddedIpv4? t).map fun two => { g with pieces := g.pieces ++ two }
      | ':' :: r =>
        if digits.isEmpty ∨ r.isEmpty then none
        else do
          let n ← Text.digitsValue? 16 digits
          readGroups? fuel { g with pieces := g.pieces ++ [n] } r
      | [] => (Text.digitsValue? 16 digits).map fun n => { g with pieces := g.pieces ++ [n] }
      | _ => none

/-- The eight groups of an IPv6 address: `::` stands for as many zero groups as are missing. -/
def ipv6Groups? (t : Text) : Option (List Nat) := do
  let start ← match t with
    | ':' :: ':' :: r => some (⟨[0], some 1⟩, r)
    | ':' :: _ => none
    | _ => some (⟨[], none⟩, t)
  let g ← readGroups? (t.length + 1) start.1 start.2
  match g.compress with
  | none => if g.pieces.length = 8 then some g.pieces else none
  | some k => some (g.pieces.take k ++ List.replicate (8 - g.pieces.length) 0 ++ g.pieces.drop k)

/-- Start and length of the longest run of zero groups, the first of several; `none` if no run is
longer than one group. -/
def longestZeros (groups : List Nat) : Option (Nat × Nat) :=
  (List.range groups.length).foldl (fun best i =>
    let run := ((groups.drop i).takeWhile (· == 0)).length
    match best with
    | some (_, n) => if run > n then some (i, run) else best
    | none => if run > 1 then some (i, run) else none) none

/-- Lower-case hexadecimal digits without leading zeros. -/
def hexText (n : Nat) : Text := Nat.toDigits 16 n

/-- The written form of an IPv6 address in brackets. -/
def ipv6Text (groups : List Nat) : Text :=
  let join (gs : List Nat) : Text := List.intercalate [':'] (gs.map hexText)
  let inner := match longestZeros groups with
    | none => join groups
    | some (i, n) => join (groups.take i) ++ [':', ':'] ++ join (groups.drop (i + n))
  '[' :: inner ++ [']']

/-- The host written in brackets. -/
def bracketed (host : Text) : Except Malformed Text :=
  if host.getLast? ≠ some ']' then .error .ipv6
  else match ipv6Groups? (host.drop 1).dropLast with
    | some groups => .ok (ipv6Text groups)
    | none => .error .ipv6

/-! ### Names -/

/-- The characters no host may hold, control characters apart. -/
def forbidden : Text := [' ', '#', '/', ':', '<', '>', '?', '@', '[', '\\', ']', '^', '|']

/-- Whether a character may not occur in a domain name. -/
def isForbiddenInName (c : Char) : Bool :=
  c.toNat ≤ 0x1F || c.toNat ≥ 0x7F || c == '%' || forbidden.contains c

/-- What stands in front of the written form of a label outside ASCII. -/
def encodedMark : Text := "xn--".toList

/-- First and last of the characters outside ASCII that no label holds: controls, characters for
private use, those that are none, and the planes without letters. -/
def unfitRanges : List (Nat × Nat) :=
  [(0x80, 0x9F), (0xE000, 0xF8FF), (0xFDD0, 0xFDEF), (0xFFF0, 0xFFFF), (0x1FFFE, 0x1FFFF),
    (0x2FFFE, 0x2FFFF), (0x3FFFE, 0x10FFFF)]

/-- Whether a character may stand in a label outside ASCII. -/
def isFit (c : Char) : Bool := !unfitRanges.any fun (lo, hi) => lo ≤ c.toNat && c.toNat ≤ hi

/-- Whether a label may stand in a name. A written form has to stand for a label outside ASCII that
is not a written form itself. -/
def isLabel (label : Text) : Bool :=
  if encodedMark.isPrefixOf label then
    match Punycode.decode? (label.drop encodedMark.length) with
    | none => false
    | some t => t.any (·.toNat ≥ 0x80) && t.all isFit && !encodedMark.isPrefixOf t
  else true

/-- Whether a character may not occur in a host of a scheme without naming rules. -/
def isForbidden (c : Char) : Bool := ['\x00', '\t', '\n', '\r'].contains c || forbidden.contains c

/-- The host of a scheme with naming rules. -/
def parse (host : Text) : Except Malformed Text :=
  if host.head? = some '[' then bracketed host
  else
    let name := Text.lower (Utf8.decodeLossy (Percent.decode host))
    if name.any isForbiddenInName ∨ !(name.splitOn '.').all isLabel then .error .domainName
    else if name.isEmpty then .error .emptyHost
    else if endsInNumber name then ipv4 name
    else .ok name

/-- The host of a scheme without naming rules. -/
def parseOpaque (host : Text) : Except Malformed Text :=
  if host.head? = some '[' then bracketed host
  else if host.any isForbidden then .error .hostCharacter
  else .ok (Percent.encode Percent.controls host)

end Host

end Url

end ContentMounts
