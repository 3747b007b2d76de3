import ContentMounts.Host.Walk

/-!
# Platforms

What the detection of aliases may ask about paths. A platform is the record of its answers, so that
the host's tree, a table of answers and any other way to answer are values of one type. The two
lexical questions have answers that every platform may take over: dots are folded by spelling, and
two paths have the same name if their segments agree byte for byte.
-/

namespace ContentMounts

/-- The answers to questions about paths. -/
structure Platform where
  /-- The path of the same object as it really is: without links and in its true spelling. -/
  realPath : Path → Except IoError Path
  /-- Whether a path is itself a symbolic link. -/
  isSymlink : Path → Except IoError Bool
  /-- What a symbolic link holds. -/
  readLink : Path → Except IoError Path
  /-- Whether a path leads to anything, links followed. -/
  pathExists : Path → Bool
  /-- Whether a path leads to a directory, links followed. -/
  isDir : Path → Bool
  /-- The path with its dots folded. -/
  normalize : Path → Path := Path.fold
  /-- Whether two paths count as the same name. -/
  sameName : Path → Path → Bool := Path.sameSegments

/-- The answers the host's tree gives. -/
def Host.platform (h : Host) : Platform where
  realPath := h.canonicalize
  isSymlink p := (h.lstat p).map Node.isLink
  readLink := h.readLink
  pathExists := h.pathExists
  isDir := h.isDir

end ContentMounts
