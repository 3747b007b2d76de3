import ContentMounts.Toml.Number

/-!
# Configuration documents

Reading a document, line by line: a line is empty, binds a key, or is the header of a table. Values
may be nested to a limited depth. A document that breaks a rule is refused as a whole.

A reader takes its part from the start of a text and gives back what follows. Readers that go
through a text of unknown length are given a number of steps, which the length of the text bounds.
-/

namespace ContentMounts

namespace Toml

/-! ### Lines and strings -/

/-- Whether a character is a control character that may not be written as such. -/
def isControl (c : Char) : Bool := (c.toNat < 0x20 && c != '\t') || c.toNat = 0x7F

/-- The text without the spaces and tabs at its start. -/
def skipSpace (t : Text) : Text := t.dropWhile fun c => c == ' ' || c == '\t'

/-- What follows a line end. -/
def newline? : Text → Option Text
  | '\n' :: r => some r
  | '\r' :: '\n' :: r => some r
  | _ => none

/-- What follows the end of a line, spaces and a comment included. -/
def endLine? (t : Text) : Option Text :=
  let t := skipSpace t
  let t := if t.head? = some '#' then t.dropWhile (!isControl ·) else t
  if t.isEmpty then some [] else newline? t

/-- What follows spaces, line ends and comments. -/
def skipLines : Nat → Text → Option Text
  | 0, t => some t
  | fuel + 1, t =>
    let t := skipSpace t
    match t with
    | [] => some []
    | '#' :: _ => (endLine? t).bind (skipLines fuel)
    | _ =>
      match newline? t with
      | some r => skipLines fuel r
      | none => some t

/-- The character with a number given by hexadecimal digits. -/
def codePoint? (n : Nat) (t : Text) : Option (Char × Text) := do
  let ds := t.take n
  if ds.length ≠ n then none
  let v ← Text.digitsValue? 16 ds
  if v < 0xD800 ∨ (0xE000 ≤ v ∧ v < 0x110000) then some (Char.ofNat v, t.drop n) else none

/-- The character written behind a backslash. -/
def escape? : Text → Option (Char × Text)
  | 'b' :: r => some ('\x08', r)
  | 't' :: r => some ('\t', r)
  | 'n' :: r => some ('\n', r)
  | 'f' :: r => some ('\x0c', r)
  | 'r' :: r => some ('\r', r)
  | '"' :: r => some ('"', r)
  | '\\' :: r => some ('\\', r)
  | 'u' :: r => codePoint? 4 r
  | 'U' :: r => codePoint? 8 r
  | _ => none

/-- The rest of a string on one line that ends in the given quote. -/
def stringBody (quote : Char) : Nat → Text → Option (Text × Text)
  | 0, _ => none
  | _, [] => none
  | fuel + 1, c :: r =>
    if c = quote then some ([], r)
    else if isControl c then none
    else do
      let (d, r) ← if c = '\\' ∧ quote = '"' then escape? r else some (c, r)
      let (t, rest) ← stringBody quote fuel r
      some (d :: t, rest)

/-- The text without the spaces, tabs and line ends at its start. -/
def skipBlanks : Text → Text
  | ' ' :: r | '\t' :: r | '\n' :: r | '\r' :: '\n' :: r => skipBlanks r
  | t => t

/-- What follows a backslash at the end of a line: the line end and all blanks and line ends behind
it. -/
def skipEscapedLine? (t : Text) : Option Text := (newline? (skipSpace t)).map skipBlanks

/-- The rest of a string over several lines that ends in three of the given quote. Up to two quotes
directly before the end belong to the string. -/
def linesBody (quote : Char) : Nat → Text → Option (Text × Text)
  | 0, _ => none
  | _, [] => none
  | fuel + 1, c :: r =>
    if c = quote then
      let run := ((c :: r).takeWhile (· == quote)).length
      if run ≥ 3 then
        let kept := min (run - 3) 2
        some (List.replicate kept quote, (c :: r).drop (kept + 3))
      else do
        let (t, rest) ← linesBody quote fuel ((c :: r).drop run)
        some (List.replicate run quote ++ t, rest)
    else
      match newline? (c :: r) with
      | some r => do
        let (t, rest) ← linesBody quote fuel r
        some ('\n' :: t, rest)
      | none =>
        if isControl c then none
        else if c = '\\' ∧ quote = '"' then
          match skipEscapedLine? r with
          | some r => linesBody quote fuel r
          | none => do
            let (d, r) ← escape? r
            let (t, rest) ← linesBody quote fuel r
            some (d :: t, rest)
        else do
          let (t, rest) ← linesBody quote fuel r
          some (c :: t, rest)

/-- A string in quotes of the given kind, on one line. -/
def shortString? (t : Text) : Option (Text × Text) :=
  match t with
  | c :: r => if c = '"' ∨ c = '\'' then stringBody c t.length r else none
  | [] => none

/-- A string. -/
def string? (t : Text) : Option (Text × Text) :=
  match t with
  | a :: b :: c :: r =>
    if (a = '"' ∨ a = '\'') ∧ b = a ∧ c = a then linesBody a t.length ((newline? r).getD r)
    else shortString? t
  | _ => shortString? t

/-! ### Keys and values -/

/-- Whether a character may stand in a key without quotes. -/
def isBareKeyChar (c : Char) : Bool := c.isAlphanum || c == '_' || c == '-'

/-- Neither the parts of a key nor the values around a value, with itself, may reach this number. -/
def depthLimit : Nat := 80

/-- One part of a key. -/
def keyPart? (t : Text) : Option (Text × Text) :=
  match shortString? t with
  | some found => some found
  | none =>
    match t.takeWhile isBareKeyChar with
    | [] => none
    | key => some (key, t.drop key.length)

/-- A key of at most the given number of parts, which are joined by dots. -/
def keyParts? : Nat → Text → Option (List Text × Text)
  | 0, _ => none
  | limit + 1, t => do
    let (part, r) ← keyPart? (skipSpace t)
    match skipSpace r with
    | '.' :: s => do
      let (parts, rest) ← keyParts? limit s
      some (part :: parts, rest)
    | rest => some ([part], rest)

/-- A key. -/
def key? (t : Text) : Option (List Text × Text) := keyParts? (depthLimit - 1) t

/-- The leading parts of a key and its last one. -/
def splitKey (key : List Text) : List Text × Text := (key.dropLast, key.getLast?.getD [])

/-- A value that does not hold others. -/
def scalar? (t : Text) : Option (Value × Text) :=
  match t with
  | 't' :: 'r' :: 'u' :: 'e' :: r => some (.boolean true, r)
  | 'f' :: 'a' :: 'l' :: 's' :: 'e' :: r => some (.boolean false, r)
  | _ =>
    match string? t with
    | some (s, r) => some (.string s, r)
    | none => datetime? t <|> float? t <|> integer? t

/-- The items of an array up to its closing bracket, given the reader of an item. -/
def items (value : Text → Option (Value × Text)) : Nat → Text → Option (List Value × Text)
  | 0, _ => none
  | fuel + 1, t => do
    let t ← skipLines t.length t
    match t with
    | ']' :: r => some ([], r)
    | _ => do
      let (v, r) ← value t
      let r ← skipLines r.length r
      match r with
      | ',' :: s => do
        let (vs, rest) ← items value fuel s
        some (v :: vs, rest)
      | ']' :: rest => some ([v], rest)
      | _ => none

/-- The entries of a table in braces up to its closing brace, given the reader of a value. -/
def bracedEntries (value : Text → Option (Value × Text)) :
    Nat → Entries → Text → Option (Entries × Text)
  | 0, _, _ => none
  | fuel + 1, es, t => do
    let (key, r) ← key? t
    let r ← expect? '=' r
    let (v, r) ← value (skipSpace r)
    let (path, last) := splitKey key
    let es ← addValue path last v .braced es
    match skipSpace r with
    | ',' :: s => bracedEntries value fuel es s
    | '\x7d' :: rest => some (es, rest)
    | _ => none

/-- A value, inside at most the given number of others. -/
def value? : Nat → Text → Option (Value × Text)
  | 0, _ => none
  | depth + 1, t =>
    match t with
    | '[' :: r =>
      if depth = 0 then none
      else (items (value? depth) t.length r).map fun (vs, rest) => (.array vs, rest)
    | '\x7b' :: r =>
      if depth = 0 then none
      else match skipSpace r with
        | '\x7d' :: rest => some (.table .braced [], rest)
        | r => (bracedEntries (value? depth) t.length [] r).map fun (es, rest) =>
          (.table .braced es, rest)
    | _ => scalar? t

/-! ### Documents -/

/-- A document in the course of reading: its entries, and the key of the open table. -/
structure Draft where
  entries : Entries
  header : List Text

/-- Binds a key in the open table. -/
def Draft.bind (d : Draft) (key : List Text) (v : Value) : Option Draft := do
  let (path, last) := splitKey key
  let es ← extend false (addValue path last v) d.header .defined d.entries
  some { d with entries := es }

/-- Opens the table of a header. -/
def Draft.openHeader (d : Draft) (double : Bool) (key : List Text) : Option Draft := do
  let (path, last) := splitKey key
  let es ← if double then openTables path last d.entries else openTable path last d.entries
  some ⟨es, key⟩

/-- One line: the document with it and what follows. -/
def line? (d : Draft) (t : Text) : Option (Draft × Text) := do
  match skipSpace t with
  | [] => some (d, [])
  | '[' :: '[' :: r => do
    let (key, r) ← key? r
    let r ← expect? ']' (← expect? ']' r)
    some (← d.openHeader true key, ← endLine? r)
  | '[' :: r => do
    let (key, r) ← key? r
    let r ← expect? ']' r
    some (← d.openHeader false key, ← endLine? r)
  | t =>
    match endLine? t with
    | some rest => some (d, rest)
    | none => do
      let (key, r) ← key? t
      let (v, r) ← value? depthLimit (skipSpace (← expect? '=' r))
      some (← d.bind key v, ← endLine? r)

/-- All lines. -/
def lines? : Nat → Draft → Text → Option Draft
  | _, d, [] => some d
  | 0, _, _ => none
  | fuel + 1, d, t => do
    let (d, rest) ← line? d t
    lines? fuel d rest

/-- The entries of a document. A byte order mark at its start does not count. -/
def parse? (t : Text) : Option Entries :=
  let t := if t.head? = some (Char.ofNat 0xFEFF) then t.drop 1 else t
  (lines? (t.length + 1) ⟨[], []⟩ t).map (·.entries)

end Toml

end ContentMounts
