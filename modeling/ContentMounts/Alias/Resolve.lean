import ContentMounts.Alias.Platform
import ContentMounts.Resource.Uri

/-!
# Resolution and alias detection

Rules about access compare paths, so a file must not be reachable through a spelling that the rules
have not seen. Every resolved path is therefore checked for another path to the same object, its
alias. There are four checks, and the first one that finds something decides:

1. the literal path of the address is not the one that the resolved path's own address would have;
2. the path has dots to fold;
3. the path is a symbolic link;
4. the path exists and really is another one.

A question that the platform cannot answer leaves the decision to the next check.
-/

namespace ContentMounts

/-- An absolute path and its alias, if one was found. -/
structure Resolved where
  path : Path
  aliasPath : Option Path
deriving DecidableEq, Repr

namespace Resolved

/-- Whether an alias was found. -/
def isAlias (r : Resolved) : Bool := r.aliasPath.isSome

end Resolved

namespace Platform

/-- The path that the address of a resolved path holds: a directory's ends in a separator. -/
def ownUriPath (plat : Platform) (absolute : Path) : Path :=
  if !absolute.endsInSlash && plat.isDir absolute then ⟨absolute.bytes ++ [Path.slash]⟩
  else absolute

/-- The alias found by the spelling of an address: where the object really is, or the resolved path
itself if the address asks for a directory that is none. -/
def encodingAlias? (plat : Platform) (raw absolute : Path) : Option Path :=
  if raw = plat.ownUriPath absolute then none
  else match plat.realPath raw, plat.realPath absolute with
    | .ok real, _ => some real
    | .error _, .ok real => some real
    | .error _, .error _ =>
      if raw.endsInSlash && !plat.isDir absolute then some absolute else none

/-- The alias found by folding dots. -/
def dotAlias? (plat : Platform) (raw absolute : Path) : Option Path :=
  if plat.sameName absolute (plat.normalize absolute) then none else some (plat.normalize raw)

/-- The alias found in a symbolic link: its target, taken from the directory that holds it. -/
def linkAlias? (plat : Platform) (absolute : Path) : Option Path :=
  match plat.isSymlink absolute, plat.readLink absolute with
  | .ok true, .ok target => some (absolute.parent.elim target (·.join target))
  | _, _ => none

/-- The alias found by asking where an existing object really is. -/
def realAlias? (plat : Platform) (absolute : Path) : Option Path :=
  if plat.pathExists absolute then
    match plat.realPath absolute with
    | .ok real => if plat.sameName absolute real then none else some real
    | .error _ => none
  else none

/-- The alias of a resolved path, with the path as it was given. -/
def detect (plat : Platform) (fromUri : Bool) (raw absolute : Path) : Option Path :=
  (if fromUri then plat.encodingAlias? raw absolute else none)
    <|> plat.dotAlias? raw absolute
    <|> plat.linkAlias? absolute
    <|> plat.realAlias? absolute

/-- Resolves a literal file address. -/
def resolveUri (plat : Platform) (input : Text) : Except ResourceError Resolved := do
  let u ← Uri.parseAbsolute input
  if u.scheme ≠ "file".toList then throw (.invalidArgument (.notFileUri input))
  match Uri.literalPath? input with
  | none => throw (.invalidArgument (.noPath input))
  | some raw => pure ⟨raw.collapse, plat.detect true raw raw.collapse⟩

/-- The absolute path, in its collapsed spelling, that a path given in a directory means. -/
def anchor (workingDir : Path) (raw : Path) : Path :=
  if raw.isAbsolute then raw.collapse else (workingDir.join raw).collapse

/-- Resolves a path; a relative one is taken from the working directory. The alias of a relative
path found by folding stays relative. -/
def resolvePath (plat : Platform) (workingDir : Path) (raw : Path) : Resolved :=
  ⟨anchor workingDir raw, plat.detect false raw (anchor workingDir raw)⟩

end Platform

end ContentMounts
