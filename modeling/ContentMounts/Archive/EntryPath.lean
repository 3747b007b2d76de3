import ContentMounts.Text.Blank

/-!
# Entry paths

The path of an entry inside an archive is text. Its normal form starts with `/` and has no empty
segments and no dots; blanks around the whole path do not count, and `..` does not lead above the
root of the archive.
-/

namespace ContentMounts

namespace EntryPath

/-- The root of an archive. -/
def root : Text := ['/']

/-- The segments that remain of a path, the last one first, when one more is read. -/
def push (stack : List Text) (segment : Text) : List Text :=
  if segment = [] ∨ segment = ['.'] then stack
  else if segment = ['.', '.'] then stack.tail
  else segment :: stack

/-- The segments of the normal form. -/
def segments (path : Text) : List Text :=
  (((Text.trim path).splitOn '/').foldl push []).reverse

/-- The normal form of a path. -/
def normalize (path : Text) : Text := '/' :: List.intercalate ['/'] (segments path)

/-- The path above the normal form of a path; the root is above itself. -/
def parent (path : Text) : Text :=
  match Text.cutLast? '/' (normalize path) with
  | some (c :: rest, _) => c :: rest
  | _ => root

/-- The last segment of a path, blanks around the path and slashes at its end left out. -/
def filename (path : Text) : Text :=
  let t := Text.dropEndWhile (· == '/') (Text.trim path)
  match Text.cutLast? '/' t with
  | some (_, name) => name
  | none => t

/-- The path of a name in a directory. -/
def join (dir name : Text) : Text := if dir = root then '/' :: name else dir ++ '/' :: name

end EntryPath

end ContentMounts
