import ContentMounts.Percent

/-!
# Addresses

An absolute address in its parsed form, and the text it is written as. The parts hold what is
written between the delimiters: already escaped, in lower case where case does not matter, and
without the delimiters themselves. An address without an authority whose path starts with `//` is
written with `/.` in front of the path, because two slashes would announce an authority.
-/

namespace ContentMounts

/-- A parsed absolute address. -/
structure Url where
  scheme : Text
  /-- What stands between `//` and the path, if there is a `//`. -/
  authority : Option Text
  /-- The path. It is opaque, that is, not made of segments, if it does not start with `/`. -/
  path : Text
  query : Option Text
  fragment : Option Text
deriving DecidableEq, Repr

namespace Url

/-- What is written between the scheme and the path. -/
def front (u : Url) : Text :=
  match u.authority with
  | some a => '/' :: '/' :: a
  | none => if ['/', '/'].isPrefixOf u.path then ['/', '.'] else []

/-- What is written behind the path. -/
def back (u : Url) : Text :=
  (u.query.elim [] ('?' :: ·)) ++ (u.fragment.elim [] ('#' :: ·))

/-- The written form of an address without its scheme and colon. -/
def body (u : Url) : Text := u.front ++ u.path ++ u.back

/-- The written form of an address. -/
def text (u : Url) : Text := u.scheme ++ ':' :: u.body

/-- Why a text is not an absolute address. -/
inductive Malformed where
  /-- There is no scheme. -/
  | relative
  | emptyHost
  /-- The host is not a name that the domain name system could hold. -/
  | domainName
  /-- The host of a scheme without naming rules holds a character no host may hold. -/
  | hostCharacter
  | portNumber
  | ipv4
  | ipv6
deriving DecidableEq, Repr

/-- The description of a fault. -/
def Malformed.message : Malformed → String
  | .relative => "relative URL without a base"
  | .emptyHost => "empty host"
  | .domainName => "invalid international domain name"
  | .hostCharacter => "invalid domain character"
  | .portNumber => "invalid port number"
  | .ipv4 => "invalid IPv4 address"
  | .ipv6 => "invalid IPv6 address"

/-- How much the generic rules of addresses know about a scheme. -/
inductive SchemeKind where
  /-- Addresses of files on this host. -/
  | file
  /-- Schemes with a mandatory host, and with a usual number behind it that is not written. -/
  | network (usualPort : Nat)
  /-- Every other scheme. -/
  | other
deriving DecidableEq, Repr

/-- The kind of a scheme, given in lower case. -/
def schemeKind (scheme : Text) : SchemeKind :=
  if scheme = "file".toList then .file
  else if scheme = "http".toList ∨ scheme = "ws".toList then .network 80
  else if scheme = "https".toList ∨ scheme = "wss".toList then .network 443
  else if scheme = "ftp".toList then .network 21
  else .other

/-- Whether the scheme is one the generic rules know. -/
def SchemeKind.isSpecial : SchemeKind → Bool
  | .other => false
  | _ => true

/-- Whether a character separates path segments: `/` always, `\` under a known scheme. -/
def SchemeKind.isSlash (k : SchemeKind) (c : Char) : Bool := c == '/' || (k.isSpecial && c == '\\')

end Url

end ContentMounts
