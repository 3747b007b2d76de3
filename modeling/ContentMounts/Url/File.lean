import ContentMounts.Path
import ContentMounts.Url.Parse

/-!
# Addresses of files

The address of an absolute path escapes in each part of the path whatever an address could read
differently, so that the bytes of the part come back. The `..` of a path stay in its address, since
they are not read by anyone on the way.
-/

namespace ContentMounts

namespace Url

/-- What is escaped in a part of a path. -/
def componentSet : Percent.ByteSet := Percent.adding pathSet ['/', '%', '\\']

/-- The address of an absolute path. -/
def ofPath? (p : Path) : Option Url :=
  if p.isAbsolute then
    some {
      scheme := "file".toList
      authority := some []
      path := joinSegments (p.components.map (Percent.encodeBytes componentSet))
      query := none
      fragment := none }
  else none

/-- Whether bytes end in a letter and `:` or `|`, as the root of a drive would. -/
def endsInDrive (bs : Bytes) : Bool :=
  match bs.reverse with
  | d :: c :: _ :: _ =>
    (d == 0x3A || d == 0x7C) && (Char.ofNat c.toNat).isAlpha
  | _ => false

/-- The path of a file address, if it names no other host. The root of a drive gets a final
separator. -/
def toPath? (u : Url) : Option Path :=
  if (u.authority.getD []).isEmpty then
    match u.path with
    | '/' :: rest =>
      let bytes := ((rest.splitOn '/').map fun s => Path.slash :: Percent.decode s).flatten
      some ⟨if endsInDrive bytes then bytes ++ [Path.slash] else bytes⟩
    | _ => none
  else none

end Url

end ContentMounts
