import ContentMounts.Archive.EntryPath
import ContentMounts.Assoc
import ContentMounts.Text.Utf8

/-!
# The cache of an archive

Content that was decompressed once is kept for the next reader, under the normal form of its path.
A cache of no size, or whose entries live for no time, keeps nothing.
-/

namespace ContentMounts

/-- Sizing of the cache of decompressed entries. -/
structure CacheConfig where
  /-- Largest cached content in megabytes. -/
  maxSizeMb : Nat := 64
  /-- Time to live of a cached entry in seconds. -/
  ttlSecs : Nat := 300
deriving DecidableEq, Repr

/-- Whether a cache keeps anything at all. -/
def CacheConfig.keepsEntries (c : CacheConfig) : Bool := c.maxSizeMb != 0 && c.ttlSecs != 0

/-- A cache: its sizing and the content it holds. -/
structure EntryCache where
  config : CacheConfig
  contents : List (Text × Bytes)
deriving DecidableEq, Repr

namespace EntryCache

/-- A cache without content. -/
def empty (config : CacheConfig) : EntryCache := ⟨config, []⟩

/-- The content kept for a path in any spelling. -/
def get? (c : EntryCache) (path : Text) : Option Bytes :=
  c.contents.lookup (EntryPath.normalize path)

/-- The cache with the content of a path. -/
def put (c : EntryCache) (path : Text) (content : Bytes) : EntryCache :=
  if c.config.keepsEntries then
    { c with contents := Assoc.put (EntryPath.normalize path) content c.contents }
  else c

/-- The cache without its content. -/
def clear (c : EntryCache) : EntryCache := empty c.config

end EntryCache

end ContentMounts
