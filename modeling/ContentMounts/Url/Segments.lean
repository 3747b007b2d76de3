import ContentMounts.Url.Basic

/-!
# Paths made of segments

While an address is read, the segments of its path are taken one after the other onto a stack. A
segment `.` adds nothing and a segment `..` takes the last one away; either may be written with
`%2e` for the dot. At the end of a path both leave a final slash. A segment that could be the
letter of a drive is never taken away, whatever the scheme. Only in the path of a file does such a
letter mean a drive, and only where no segment lies below it.
-/

namespace ContentMounts

namespace Url

/-- What is escaped in a path. -/
def pathSet : Percent.ByteSet :=
  Percent.adding Percent.controls [' ', '"', '#', '<', '>', '?', '`', '\x7b', '\x7d']

/-- Whether a segment is a single dot. -/
def isSingleDot (segment : Text) : Bool :=
  ["." , "%2e"].any fun s => Text.lower segment == s.toList

/-- Whether a segment is a double dot. -/
def isDoubleDot (segment : Text) : Bool :=
  ["..", ".%2e", "%2e.", "%2e%2e"].any fun s => Text.lower segment == s.toList

/-- Whether a text is the letter of a drive: a letter and `:` or `|`. -/
def isDriveLetter : Text → Bool
  | [c, d] => c.isAlpha && (d == ':' || d == '|')
  | _ => false

/-- Whether a segment is kept by a `..` behind it: a drive letter, alone or before a backslash. -/
def isAnchored : Text → Bool
  | [c, d] => isDriveLetter [c, d]
  | c :: d :: '\\' :: _ => isDriveLetter [c, d]
  | _ => false

/-- The stack, its top first, without the segment that a `..` takes away. -/
def ascend : List Text → List Text
  | [] => []
  | s :: rest => if isAnchored s then s :: rest else rest

/-- What has been read of a path. -/
structure Trail where
  /-- The segments, the last one first. -/
  stack : List Text
  /-- Whether the segment read last was made of dots. -/
  endsInDots : Bool
deriving DecidableEq, Repr

namespace Trail

/-- The start of a path. -/
def empty : Trail := ⟨[], false⟩

/-- Takes one more segment. -/
def read (t : Trail) (segment : Text) : Trail :=
  let e := Percent.encode pathSet segment
  if isDoubleDot e then ⟨ascend t.stack, true⟩
  else if isSingleDot e then ⟨t.stack, true⟩
  else ⟨e :: t.stack, false⟩

/-- The segments of the path. The last one is empty where the path ends in a slash. -/
def segments (t : Trail) : List Text :=
  (if t.endsInDots then [] :: t.stack else t.stack).reverse

end Trail

/-- The path with the given segments. -/
def joinSegments (segments : List Text) : Text := '/' :: List.intercalate ['/'] segments

/-- The path for what is written behind the first slash. -/
def readPath (k : SchemeKind) (t : Text) : Text :=
  joinSegments ((t.splitOnP k.isSlash).foldl Trail.read Trail.empty).segments

/-! ### Paths of files -/

/-- Whether a character is a tab or ends a line. Inside an address such characters do not count. -/
def isBreak (c : Char) : Bool := ['\t', '\n', '\r'].contains c

/-- The characters of a text that count. -/
def withoutBreaks (t : Text) : Text := t.filter (!isBreak ·)

/-- The letter of a drive with its colon, and the text behind it, if they stand in one segment with
a tab or a line end between them. -/
def cutDrive? (segment : Text) : Option (Text × Text) :=
  match segment.dropWhile isBreak with
  | [] => none
  | c :: behind =>
    match behind.dropWhile isBreak with
    | ':' :: b :: rest =>
      let rest := withoutBreaks rest
      if c.isAlpha && isBreak b && !rest.isEmpty then some ([c, ':'], rest) else none
    | _ => none

/-- What has been read of the path of a file, and the host that it belongs to. -/
structure FileTrail where
  host : Text
  trail : Trail
deriving DecidableEq, Repr

namespace FileTrail

/-- Takes one more segment, given as it is written. In first place the letter of a drive is written
with a colon, and the path that starts with it belongs to no host. A tab or a line end there
separates the letter from a second segment, which is taken as it is. -/
def read (f : FileTrail) (segment : Text) : FileTrail :=
  let text := withoutBreaks segment
  if f.trail.stack.isEmpty then
    match cutDrive? segment with
    | some (drive, rest) => { f with trail := ⟨[Percent.encode pathSet rest, drive], false⟩ }
    | none =>
      if isDriveLetter text then ⟨[], Trail.empty.read (text.take 1 ++ [':'])⟩
      else { f with trail := f.trail.read text }
  else { f with trail := f.trail.read text }

/-- The path. Slashes at its start count as one. -/
def path (f : FileTrail) : Text :=
  '/' :: (joinSegments f.trail.segments).dropWhile (· == '/')

end FileTrail

/-- Host and path of a file address, from the host and the written segments. -/
def readFilePath (host t : Text) : Text × Text :=
  let f := (t.splitOnP SchemeKind.file.isSlash).foldl FileTrail.read ⟨host, Trail.empty⟩
  (f.host, f.path)

end Url

end ContentMounts
