import ContentMounts.Url.Host
import ContentMounts.Url.Segments

/-!
# Reading addresses

Spaces and control characters around an address and tabs and line ends inside it do not belong to
it; only behind the letter of a drive are the latter seen. The scheme ends at the first colon.
Behind it, the first `?` or `#` ends the path, and what stands before them is read according to the
kind of the scheme: a file address has an optional host and a path made of segments, the address of
a network scheme has a host and such a path, and any other address has an authority if it starts
with `//`, a path made of segments if it starts with `/`, and else an opaque path.
-/

namespace ContentMounts

namespace Url

/-- What is escaped in the name and the password before a host. -/
def userSet : Percent.ByteSet :=
  Percent.adding pathSet ['/', ':', ';', '=', '@', '[', '\\', ']', '^', '|']

/-- What is escaped in a query. -/
def querySet (k : SchemeKind) : Percent.ByteSet :=
  Percent.adding Percent.controls
    ([' ', '"', '#', '<', '>'] ++ if k.isSpecial then ['\''] else [])

/-- What is escaped in a fragment. -/
def fragmentSet : Percent.ByteSet := Percent.adding Percent.controls [' ', '"', '<', '>', '`']

/-- Whether a character may stand in a scheme. -/
def isSchemeChar (c : Char) : Bool := c.isAlphanum || c == '+' || c == '-' || c == '.'

/-- The scheme of an address, in lower case, and what stands behind its colon. -/
def splitScheme? (t : Text) : Option (Text × Text) :=
  let written := withoutBreaks (t.takeWhile (· != ':'))
  match t.dropWhile (· != ':') with
  | [] => none
  | _ :: rest =>
    if written.head?.any Char.isAlpha && written.all isSchemeChar then
      some (Text.lower written, rest)
    else none

/-- Whether a character ends the path. -/
def endsPath (c : Char) : Bool := c == '?' || c == '#'

/-- The query and the fragment written from the end of the path on. -/
def readTail (k : SchemeKind) : Text → Option Text × Option Text
  | '?' :: r =>
    let fragment := match r.dropWhile (· != '#') with
      | _ :: f => some (Percent.encode fragmentSet f)
      | [] => none
    (some (Percent.encode (querySet k) (r.takeWhile (· != '#'))), fragment)
  | _ :: f => (none, some (Percent.encode fragmentSet f))
  | [] => (none, none)

/-! ### Authorities -/

/-- The written form of the name and the password in front of a host, with the `@`. A password
without characters is not written, and without either nothing is. -/
def readUser (t : Text) : Text :=
  let name := Percent.encode userSet (t.takeWhile (· != ':'))
  let password := Percent.encode userSet ((t.dropWhile (· != ':')).drop 1)
  let shown := if password.isEmpty then name else name ++ ':' :: password
  if shown.isEmpty then [] else shown ++ ['@']

/-- The host and what stands behind it: a colon ends a host outside of brackets. -/
def splitHost (bracket : Bool) : Text → Text × Text
  | [] => ([], [])
  | c :: r =>
    if c == ':' && !bracket then ([], c :: r)
    else
      let bracket := if c == '[' then true else if c == ']' then false else bracket
      let (host, rest) := splitHost bracket r
      (c :: host, rest)

/-- The number written behind a host, with its colon, and what stands behind the digits. The usual
number of the scheme is not written. Only a backslash may follow the digits. -/
def readPort (k : SchemeKind) (t : Text) : Except Malformed (Text × Text) :=
  match t with
  | ':' :: r =>
    let digits := r.takeWhile Char.isDigit
    let rest := r.dropWhile Char.isDigit
    let n := (Text.digitsValue? 10 digits).getD 0
    if n > 65535 then .error .portNumber
    else if rest.head?.any (· != '\\') then .error .portNumber
    else if digits.isEmpty ∨ k = .network n then .ok ([], rest)
    else .ok (':' :: Text.ofNat n, rest)
  | _ => .ok ([], t)

/-- Name and password in front of a host, as they are written, and the host with its number. `more`
tells whether the address goes on behind them. -/
def readLogin (whole : Text) (more : Bool) : Except Malformed (Text × Text) :=
  match Text.cutLast? '@' whole with
  | none => .ok ([], whole)
  | some (user, place) =>
    if user.isEmpty && place.isEmpty && more then .error .emptyHost else .ok (readUser user, place)

/-- The written form of a host with its number behind a name and a password, and what stands behind
the digits. -/
def readHost (k : SchemeKind) (user place : Text) : Except Malformed (Text × Text) := do
  let (hostText, portText) := splitHost false place
  if k.isSpecial && hostText.isEmpty then throw .emptyHost
  let host ← if k.isSpecial then Host.parse hostText else Host.parseOpaque hostText
  if host.isEmpty && (!portText.isEmpty || !user.isEmpty) then throw .emptyHost
  let (number, rest) ← readPort k portText
  pure (user ++ host ++ number, rest)

/-- The authority at the start of a text and what stands behind it. `more` tells whether the
address goes on behind the text. -/
def readAuthority (k : SchemeKind) (t : Text) (more : Bool) : Except Malformed (Text × Text) := do
  let whole := t.takeWhile fun c => !k.isSlash c
  let behind := t.drop whole.length
  let (user, place) ← readLogin whole (!behind.isEmpty || more)
  let (authority, rest) ← readHost k user place
  pure (authority, rest ++ behind)

/-- The host of a file address. `localhost` is this host, like no name at all. -/
def readFileHost (host : Text) : Except Malformed Text := do
  if host.isEmpty then pure []
  else
    let name ← Host.parse host
    pure (if name = "localhost".toList then [] else name)

/-! ### Whole addresses -/

/-- What stands behind the slash that a text starts with. -/
def behindSlash? (t : Text) : Option Text :=
  match t.dropWhile isBreak with
  | c :: rest => if SchemeKind.file.isSlash c then some rest else none
  | [] => none

/-- Authority and path of a file address, from all that is written of it. A drive letter is never a
host. Behind a host that is this one the path keeps its first slash, as an empty segment. -/
def readFile (t : Text) : Except Malformed (Text × Text) :=
  match behindSlash? t with
  | none => pure (readFilePath [] t)
  | some r =>
    match behindSlash? r with
    | none => pure (readFilePath [] r)
    | some place => do
      let written := place.takeWhile (!SchemeKind.file.isSlash ·)
      let hostText := withoutBreaks written
      if isDriveLetter hostText then pure (readFilePath [] place)
      else
        let host ← readFileHost hostText
        let behind := place.drop written.length
        pure (readFilePath host (if host.isEmpty then behind else behind.drop 1))

/-- Authority and path of an address whose scheme is not `file`. -/
def readGeneric (k : SchemeKind) (t : Text) (more : Bool) :
    Except Malformed (Option Text × Text) := do
  if k.isSpecial then
    let (authority, rest) ← readAuthority k (t.dropWhile k.isSlash) more
    pure (some authority, readPath k (rest.drop 1))
  else
    match t with
    | '/' :: '/' :: r =>
      let (authority, rest) ← readAuthority k r more
      pure (some authority, match rest with
        | [] => []
        | '/' :: segments => readPath k segments
        | segments => readPath k segments)
    | '/' :: r => pure (none, readPath k r)
    | _ => pure (none, Percent.encode Percent.controls t)

/-- What stands before the first `?` or `#`. -/
def placeOf (rest : Text) : Text := rest.takeWhile (!endsPath ·)

/-- What stands from the first `?` or `#` on. -/
def tailOf (rest : Text) : Text := withoutBreaks (rest.drop (placeOf rest).length)

/-- Authority and path of an address, from all that is written of them. `more` tells whether the
address goes on behind them. -/
def readPlace (k : SchemeKind) (place : Text) (more : Bool) :
    Except Malformed (Option Text × Text) :=
  if k = .file then (readFile place).map fun (authority, path) => (some authority, path)
  else readGeneric k (withoutBreaks place) more

/-- The address of a scheme for what stands behind its colon. -/
def readRest (scheme rest : Text) : Except Malformed Url :=
  let k := schemeKind scheme
  (readPlace k (placeOf rest) (!(tailOf rest).isEmpty)).map fun (authority, path) =>
    ⟨scheme, authority, path, (readTail k (tailOf rest)).1, (readTail k (tailOf rest)).2⟩

/-- The address a text stands for. -/
def parse (input : Text) : Except Malformed Url :=
  match splitScheme? (Text.trimWhile (· ≤ ' ') input) with
  | none => .error .relative
  | some (scheme, rest) => readRest scheme rest

end Url

end ContentMounts
