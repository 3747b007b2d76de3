import ContentMounts.Error

/-!
# Addresses of resources

What the library reads off an address beyond its parts: whether it addresses the host directly,
which container it wraps, and which entry of the container it means. An address into an archive has
the address of the archive behind its own scheme, then `!/`, then the entry.

Reading an address folds the dots of its path. Where the spelling of a path must be seen as it was
given, the path is therefore taken from the literal text instead (`literalPath?`).
-/

namespace ContentMounts

namespace Uri

/-- What stands between the address of a container and an entry in it. -/
def separator : Text := ['!', '/']

/-- The schemes that address the host directly and are never mounted. -/
def directSchemes : List Text := ["file".toList, "jrt".toList]

/-- Whether a scheme addresses the host directly. -/
def isDirectScheme (scheme : Text) : Bool := directSchemes.any (Text.sameIgnoringCase · scheme)

/-- The address given by a text. -/
def parseAbsolute (input : Text) : Except ResourceError Url :=
  match Url.parse input with
  | .ok u => .ok u
  | .error .relative => .error (.invalidArgument (.notAbsolute input))
  | .error e => .error (.invalidArgument (.malformed input e))

/-- The text up to the first separator, all of it if there is none. -/
def beforeSeparator (t : Text) : Text :=
  match Text.cut? separator t with
  | some (before, _) => before
  | none => t

/-- The address of the container that an address wraps. -/
def container? (u : Url) : Option Url := (Url.parse (beforeSeparator u.body)).toOption

/-- The path of the wrapped container, if it is a file of this host. -/
def backingFile? (u : Url) : Option Path := do
  let c ← container? u
  if c.scheme = "file".toList then c.toPath? else none

/-- The path of the entry meant by an address, without a slash in front. -/
def containerEntry (u : Url) : Text :=
  match Text.cut? separator u.text with
  | none => []
  | some (_, entry) =>
    Utf8.decodeLossy (Percent.decode (entry.takeWhile fun c => !Url.endsPath c))

/-- The path written in a literal file address, with its dots and separators as they stand. Only
this host, unnamed or as `localhost`, has paths. -/
def literalPath? (input : Text) : Option Path := do
  let (scheme, rest) ← Text.cut? [':'] input
  if !Text.sameIgnoringCase scheme "file".toList then none
  else
    let rest := rest.takeWhile fun c => !Url.endsPath c
    let path ← match rest with
      | '/' :: '/' :: authority =>
        let host := authority.takeWhile (· != '/')
        if host.isEmpty || Text.sameIgnoringCase host "localhost".toList
        then some (authority.drop host.length) else none
      | _ => some rest
    if path.head? = some '/' then some ⟨Percent.decode path⟩ else none

end Uri

end ContentMounts
