import ContentMounts.Text.Utf8

/-!
# Paths

A path of the host is a byte string in which `/` separates segments. Nothing else about the bytes
is special, so a path need not be text. There are three readings of a path, and the library keeps
them apart:

* `Path.bytes` is the spelling;
* `Path.segments` are the non-empty pieces between separators, `.` and `..` among them;
* `Path.components` are the segments without those `.` that say nothing.

`Path.collapse` brings a path into the spelling that its segments determine, and `Path.fold` also
folds `.` and `..`, without looking at any file.
-/

namespace ContentMounts

/-- One segment of a path, or the name of a directory entry. -/
abbrev Name := Bytes

namespace Name

/-- The segment `.`. -/
def dot : Name := [0x2E]

/-- The segment `..`. -/
def dotDot : Name := [0x2E, 0x2E]

end Name

/-- A path in its spelling. -/
structure Path where
  bytes : Bytes
deriving DecidableEq, Repr

namespace Path

/-- The separator of segments. -/
def slash : UInt8 := 0x2F

/-- The path spelled by a text. -/
def ofText (t : Text) : Path := ⟨Utf8.encode t⟩

/-- The path as text, for display. -/
def display (p : Path) : Text := Utf8.decodeLossy p.bytes

/-- Whether a path starts at the root. -/
def isAbsolute (p : Path) : Bool := p.bytes.head? == some slash

/-- Whether the spelling of a path ends in a separator. -/
def endsInSlash (p : Path) : Bool := p.bytes.getLast? == some slash

/-- The non-empty pieces between separators. -/
def segments (p : Path) : List Name := (p.bytes.splitOn slash).filter (!·.isEmpty)

/-- The spelling with single separators of the given segments. -/
def ofSegments (rooted : Bool) (segments : List Name) : Path :=
  ⟨(if rooted then [slash] else []) ++ List.intercalate [slash] segments⟩

/-- The spelling of a path with single separators, none of them at the end. -/
def collapse (p : Path) : Path := ofSegments p.isAbsolute p.segments

/-- The parts of a path once `.` is left out; only a `.` at the start of a relative path counts. -/
def components (p : Path) : List Name :=
  if p.isAbsolute then p.segments.filter (· != Name.dot)
  else match p.segments with
    | [] => []
    | s :: rest => s :: rest.filter (· != Name.dot)

/-- Whether two paths have the same parts. -/
def sameComponents (p q : Path) : Bool :=
  p.isAbsolute == q.isAbsolute && p.components == q.components

/-- Whether the parts of `q` are the first parts of `p`. -/
def startsWith (p q : Path) : Bool :=
  p.isAbsolute == q.isAbsolute && q.components.isPrefixOf p.components

/-- Whether two paths have the same segments, compared byte for byte; here `.` counts. -/
def sameSegments (p q : Path) : Bool := p.segments == q.segments

/-- The path `q` taken from `p` on. -/
def join (p q : Path) : Path :=
  if q.isAbsolute then q
  else if p.bytes.isEmpty || p.endsInSlash then ⟨p.bytes ++ q.bytes⟩
  else ⟨p.bytes ++ slash :: q.bytes⟩

/-- The path of the directory that holds the last part of an absolute path in its collapsed
spelling; the root has none. -/
def parent (p : Path) : Option Path :=
  let trailingDots (rs : List Name) := rs.dropWhile (· == Name.dot)
  match trailingDots p.segments.reverse with
  | [] => none
  | _ :: rest => some (ofSegments p.isAbsolute (trailingDots rest).reverse)

/-- A path and those of the directories above it, up to the root or to the working directory, which
is left out. -/
def ancestors (p : Path) : List Path := climb p.segments.length p
where
  climb : Nat → Path → List Path
    | 0, p => if p.bytes.isEmpty then [] else [p]
    | n + 1, p => if p.bytes.isEmpty then [] else p :: p.parent.elim [] (climb n)

/-! ### Folding -/

/-- A folded prefix of a path: the number of leading `..` and the names behind them, the last name
first. -/
structure Folded where
  ups : Nat
  names : List Name

/-- One more segment behind a folded prefix. A `..` takes a name away if there is one; at the root
it stays at the root, and in front of a relative path it is kept. -/
def Folded.push (rooted : Bool) (f : Folded) (s : Name) : Folded :=
  if s = Name.dot then f
  else if s = Name.dotDot then
    match f.names with
    | _ :: rest => { f with names := rest }
    | [] => if rooted then f else { f with ups := f.ups + 1 }
  else { f with names := s :: f.names }

/-- The segments of a folded prefix. -/
def Folded.segments (f : Folded) : List Name :=
  List.replicate f.ups Name.dotDot ++ f.names.reverse

/-- The segments of a path with `.` and `..` folded. -/
def foldSegments (rooted : Bool) (segments : List Name) : List Name :=
  (segments.foldl (Folded.push rooted) ⟨0, []⟩).segments

/-- The path with `.` and `..` folded by spelling alone. -/
def fold (p : Path) : Path := ofSegments p.isAbsolute (foldSegments p.isAbsolute p.segments)

end Path

end ContentMounts
