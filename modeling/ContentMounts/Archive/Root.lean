import ContentMounts.Host.Walk
import ContentMounts.Resource.Uri

/-!
# The address of an archive

All addresses that lead into one archive, however they spell the way to it, share one root address:
their scheme in front of the address of the archive's file, whose path is the one without links, and
the separator behind it.
-/

namespace ContentMounts

namespace Archive

/-- The root address for a scheme and the path of a file, or why there is none. -/
def rootOf (scheme : Text) (path : Path) : Except Unsupported Url :=
  match Url.ofPath? path with
  | none => .error .notAbsolute
  | some container =>
    match Url.parse (scheme ++ ':' :: container.text ++ Uri.separator) with
    | .ok root => .ok root
    | .error cause => .error (.malformedRoot cause)

/-- The root address of the archive that an address leads into, and the path of the archive. -/
def root (h : Host) (uri : Url) : Except ProviderError (Url × Path) := do
  let unsupported (reason : Unsupported) : ProviderError := .unsupported uri.text reason
  let container ← match Uri.container? uri with
    | some c => if c.scheme = "file".toList then pure c else throw (unsupported .notFile)
    | none => throw (unsupported .notFile)
  let path ← match container.toPath? with
    | some p => pure p
    | none => throw (unsupported .notLocal)
  let path ← (h.canonicalize path).mapError .io
  let root ← (rootOf uri.scheme path).mapError unsupported
  pure (root, path)

end Archive

end ContentMounts
