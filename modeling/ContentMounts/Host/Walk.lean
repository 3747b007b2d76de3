import ContentMounts.Host.Tree

/-!
# Following a path

A path is followed name by name from the root or from the working directory. Each name is looked up
in a directory; `..` leads to the directory above the place that was really reached. A symbolic
link puts the path it holds in front of the rest, and at most forty links are followed. A link that
the whole path ends in is followed only on request, or if a separator stands behind it.

The walk is given link by link: `descend` goes on as long as it meets no link that has to be
followed and hands over to its continuation there, and `walk` ties the two with the number of links
that may still be met.
-/

namespace ContentMounts

namespace Host

/-- A place in the tree with the node found there. -/
structure Located where
  names : List Name
  node : Node

/-- Longest name of a directory entry, in bytes. -/
def nameLimit : Nat := 255

/-- Paths of this length are refused before they are followed. -/
def pathLimit : Nat := 4096

/-- Number of links that one walk may follow. -/
def linkLimit : Nat := 40

/-- The spelling of a place. -/
def pathOf (names : List Name) : Path := Path.ofSegments true names

/-- How a path is followed. -/
structure Manner where
  /-- Whether a link is followed that the whole path ends in. -/
  followsLast : Bool := true
  /-- Whether the places on the way are followed by their own spelling, which must not be too
  long then. -/
  respells : Bool := false
  /-- What is found in place of a last entry that is missing. The path has to name that entry
  without a separator behind it. -/
  fresh : Option Node := none

/-- Whether an entry at a place is spelled too long for the walk. -/
def Manner.isTooLong (manner : Manner) (place : List Name) (s : Name) : Bool :=
  manner.respells && s != Name.dot && s != Name.dotDot &&
    (pathOf (place ++ [s])).bytes.length ≥ pathLimit

/-- What to do with a link: given the place that holds it, its target, the segments behind it and
whether the walk has to end in a directory. -/
abbrev Follow := List Name → Path → List Name → Bool → Except IoError Located

/-- The walk from a place over the given segments up to the first link to be followed. -/
def descend (root : Node) (manner : Manner) (follow : Follow) :
    List Name → List Name → Bool → Except IoError Located
  | place, [], mustBeDir =>
    match root.find? place with
    | none => .error .notFound
    | some n => if mustBeDir && !n.isDir then .error .notADirectory else .ok ⟨place, n⟩
  | place, s :: rest, mustBeDir =>
    match root.find? place with
    | none => .error .notFound
    | some n =>
      if manner.isTooLong place s then .error .invalidFilename
      else if !n.isDir then .error .notADirectory
      else if s = Name.dot then descend root manner follow place rest mustBeDir
      else if s = Name.dotDot then descend root manner follow place.dropLast rest mustBeDir
      else if manner.fresh.isSome && rest.isEmpty && mustBeDir then .error .isADirectory
      else if s.length > nameLimit then .error .invalidFilename
      else match n.child? s with
        | none =>
          match manner.fresh with
          | some new => if rest.isEmpty then .ok ⟨place ++ [s], new⟩ else .error .notFound
          | none => .error .notFound
        | some (.link target) =>
          if rest.isEmpty && !mustBeDir && !manner.followsLast then
            .ok ⟨place ++ [s], .link target⟩
          else follow place target rest mustBeDir
        | some _ => descend root manner follow (place ++ [s]) rest mustBeDir

/-- The walk that may follow the given number of links. -/
def walk (root : Node) (manner : Manner) : Nat → List Name → List Name → Bool →
    Except IoError Located
  | 0 => descend root manner fun _ _ _ _ => .error .filesystemLoop
  | n + 1 => descend root manner fun place target rest mustBeDir =>
    if target.bytes.isEmpty then .error .notFound
    else walk root manner n (if target.isAbsolute then [] else place) (target.segments ++ rest)
      (mustBeDir || (rest.isEmpty && target.endsInSlash))

/-- The place where a path starts. -/
def startOf (h : Host) (p : Path) : List Name := if p.isAbsolute then [] else h.workingDir

/-- A path with a zero byte in it is refused, and an empty one leads nowhere. -/
def guardSpelling (p : Path) : Except IoError Unit :=
  if p.bytes.contains 0 then .error .invalidInput
  else if p.bytes.isEmpty then .error .notFound
  else .ok ()

/-- Besides, a path must not be too long to be followed as it stands. -/
def guardPath (p : Path) : Except IoError Unit := do
  guardSpelling p
  if p.bytes.length ≥ pathLimit then throw .invalidFilename

/-- Where a path leads. -/
def locate (h : Host) (manner : Manner) (p : Path) : Except IoError Located := do
  guardPath p
  walk h.root manner linkLimit (h.startOf p) p.segments p.endsInSlash

/-- The path without links, dots and double separators that leads to the same node. It is found by
respelling, so the path itself may have any length but the places on the way may not. -/
def canonicalize (h : Host) (p : Path) : Except IoError Path := do
  guardSpelling p
  let found ← walk h.root { respells := true } linkLimit (h.startOf p) p.segments p.endsInSlash
  pure (pathOf found.names)

/-- The node a path leads to, with links followed to the end. -/
def stat (h : Host) (p : Path) : Except IoError Node := (h.locate {} p).map (·.node)

/-- The node a path leads to; a link at its end is not followed. -/
def lstat (h : Host) (p : Path) : Except IoError Node :=
  (h.locate { followsLast := false } p).map (·.node)

/-- Whether a path leads to anything. -/
def pathExists (h : Host) (p : Path) : Bool := (h.stat p).toOption.isSome

/-- Whether a path leads to a directory. -/
def isDir (h : Host) (p : Path) : Bool := (h.stat p).toOption.any Node.isDir

/-- What the link at the end of a path holds. -/
def readLink (h : Host) (p : Path) : Except IoError Path := do
  match ← h.lstat p with
  | .link target => pure target
  | _ => throw .invalidInput

/-- Length in bytes and time of last modification of what a path leads to. -/
structure Snapshot where
  length : Nat
  modified : Moment
deriving DecidableEq, Repr

/-- Length and time of a node. -/
def snapshotOf (h : Host) : Node → Snapshot
  | .file id =>
    match h.stored? id with
    | some s => ⟨s.content.length, s.modified⟩
    | none => ⟨0, .tick 0⟩
  | .link target => ⟨target.bytes.length, .tick 0⟩
  | .dir modified _ => ⟨0, modified⟩

/-- Length and time of what a path leads to. -/
def snapshot (h : Host) (p : Path) : Except IoError Snapshot := (h.stat p).map h.snapshotOf

/-- The content of the file a path leads to. -/
def read (h : Host) (p : Path) : Except IoError Bytes := do
  match ← h.stat p with
  | .file id => pure (((h.stored? id).map (·.content)).getD [])
  | _ => throw .isADirectory

end Host

end ContentMounts
