import ContentMounts.Archive.FileSystem
import ContentMounts.Provider.Basic

/-!
# The provider for archives

The provider remembers the archives it has opened by their roots, without keeping them alive: an
archive that was closed, or that nobody refers to any more, does not count. For each root at most
one archive that counts is open.
-/

namespace ContentMounts

/-- The provider for archives: its schemes, the sizing of the caches of the archives it opens, and
the archive it opened last for each root. -/
structure ArchiveProvider where
  schemes : List Text
  cache : CacheConfig
  held : List (Url × FileSystemId)
deriving DecidableEq, Repr

namespace ArchiveProvider

/-- A provider for the given schemes. -/
def ofSchemes (schemes : List Text) (cache : CacheConfig) : ArchiveProvider :=
  ⟨schemes.map Text.lower, cache, []⟩

/-- The provider without the archives that do not count any more. -/
def prune (serves : FileSystemId → Bool) (p : ArchiveProvider) : ArchiveProvider :=
  { p with held := p.held.filter fun (_, id) => serves id }

/-- Opens the archive that an address leads into, unless it is open already, and remembers it under
the number given for it. Only an attempt that finds the archive's root forgets those that do not
count any more. -/
def openNew (p : ArchiveProvider) (serves : FileSystemId → Bool) (h : Host) (fresh : FileSystemId)
    (uri : Url) : Except ProviderError ArchiveFs × ArchiveProvider :=
  match Archive.root h uri with
  | .error e => (.error e, p)
  | .ok (root, path) =>
    let p := p.prune serves
    if (p.held.lookup root).isSome then (.error .alreadyExists, p)
    else
      match ArchiveFs.openAt h root path p.cache with
      | .ok fs => (.ok fs, { p with held := (root, fresh) :: p.held })
      | .error e => (.error e, p)

/-- The open archive that an address leads into. -/
def findOpen (p : ArchiveProvider) (serves : FileSystemId → Bool) (h : Host) (uri : Url) :
    Except ProviderError FileSystemId := do
  let (root, _) ← Archive.root h uri
  match p.held.lookup root with
  | some id => if serves id then pure id else throw .notFound
  | none => throw .notFound

end ArchiveProvider

end ContentMounts
