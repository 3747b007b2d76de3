import ContentMounts.Alias.Resolve

/-!
# Files of the host

A resource for a file or directory of the host is made from a literal address or from a path. Path
and alias are determined once, when the resource is made; what the resource is asked later goes to
the host as it is then.
-/

namespace ContentMounts

/-- A resource of the host. -/
structure FileResource where
  uri : Url
  /-- The address as it was given. -/
  literal : Text
  path : Path
  aliasPath : Option Path
deriving DecidableEq, Repr

/-- The mark behind the names of directories in a listing. -/
def directoryMark : Text := ['/']

namespace FileResource

/-- The resource for a literal address. -/
def ofUri (plat : Platform) (input : Text) : Except ResourceError FileResource := do
  let u ← Uri.parseAbsolute input
  if !Uri.isDirectScheme u.scheme then throw (.invalidArgument (.schemeNotAllowed input))
  let r ← plat.resolveUri input
  pure ⟨u, input, r.path, r.aliasPath⟩

/-- The resource for a path. -/
def ofPath (plat : Platform) (workingDir path : Path) : Except ResourceError FileResource :=
  let r := plat.resolvePath workingDir path
  match Url.ofPath? r.path with
  | some u => .ok ⟨u, u.text, r.path, r.aliasPath⟩
  | none => .error (.invalidArgument (.noUri r.path))

/-- The literal address of what a path names below a literal address. The segments of the path are
written one by one; nothing in them is folded. -/
def below (literal sub : Text) : Text :=
  let segments := (sub.splitOn '/').filter (!·.isEmpty)
  Text.dropEndWhile (· == '/') literal
    ++ segments.flatMap (fun s => '/' :: Percent.encodeSegment s)
    ++ if sub.getLast? = some '/' then ['/'] else []

/-- The resource that a path names below a resource. -/
def resolve (plat : Platform) (r : FileResource) (sub : Text) : Except ResourceError FileResource :=
  ofUri plat (below r.literal sub)

/-- The path that a resource reaches, with its dots folded, if it starts at the root. -/
def target? (plat : Platform) (r : FileResource) : Option Path :=
  let normal := plat.normalize (r.aliasPath.getD r.path)
  if normal.isAbsolute then some normal else none

/-- Whether a resource lies under another one, judged by the paths they reach. -/
def isContainedIn (plat : Platform) (inner outer : FileResource) : Bool :=
  match inner.target? plat, outer.target? plat with
  | some p, some q => p.startsWith q
  | _, _ => false

/-- Equality of resources: the parts of their paths agree. -/
def same (r s : FileResource) : Bool := r.path.sameComponents s.path

/-- The path of a resource, for display. -/
def name (r : FileResource) : Text := r.path.display

/-- Whether an alias was found. -/
def isAlias (r : FileResource) : Bool := r.aliasPath.isSome

/-- A failure of the host while a resource is used. -/
def failure (r : FileResource) : IoError → ResourceError
  | .notFound => .notFound r.name
  | e => .io e

/-- Whether there is something at the path; a link need not lead anywhere. -/
def pathExists (h : Host) (r : FileResource) : Except ResourceError Bool :=
  match h.lstat r.path with
  | .ok _ => .ok true
  | .error .notFound => .ok false
  | .error e => .error (.io e)

/-- Whether the path leads to a directory. -/
def isDirectory (h : Host) (r : FileResource) : Except ResourceError Bool :=
  match h.stat r.path with
  | .ok n => .ok n.isDir
  | .error .notFound => .ok false
  | .error e => .error (.io e)

/-- What the path leads to. -/
def node (h : Host) (r : FileResource) : Except ResourceError Node :=
  (h.stat r.path).mapError r.failure

/-- Length in bytes, zero for a directory. -/
def length (h : Host) (r : FileResource) : Except ResourceError Nat :=
  (r.node h).map fun n => if n.isDir then 0 else (h.snapshotOf n).length

/-- Time of last modification. -/
def lastModified (h : Host) (r : FileResource) : Except ResourceError Moment :=
  (r.node h).map fun n => (h.snapshotOf n).modified

/-- The content. -/
def read (h : Host) (r : FileResource) : Except ResourceError Bytes := do
  if (← r.node h).isDir then throw (.isADirectory r.name)
  (h.read r.path).mapError r.failure

/-- The names in a directory in ascending order, with a mark behind those that lead to a
directory. -/
def list (h : Host) (r : FileResource) : Except ResourceError (List Text) := do
  let n ← r.node h
  if !n.isDir then throw (.notADirectory r.name)
  pure (Text.sort (n.entries.map fun (name, _) =>
    Utf8.decodeLossy name ++ if h.isDir (r.path.join ⟨name⟩) then directoryMark else []))

end FileResource

end ContentMounts
