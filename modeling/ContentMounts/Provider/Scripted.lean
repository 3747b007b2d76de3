import ContentMounts.Provider.Archive

/-!
# A provider that follows a script

A provider without any files, for trying out how a pool deals with providers: what each request for
a new filesystem leads to is written down in a script. It holds one filesystem for each root; a new
one takes the place of the one held before.
-/

namespace ContentMounts

/-- What a request for a new filesystem leads to. -/
inductive ScriptedMove where
  /-- A new filesystem, unless the one held for the root is open. -/
  | auto
  /-- A new filesystem in any case. -/
  | fresh
  /-- A new filesystem that is closed already. -/
  | closed
  /-- A failure. -/
  | fails (cause : ProviderError)
  /-- The failure to read a container as a filesystem. -/
  | unsupported
deriving DecidableEq, Repr

/-- A provider that follows a script. -/
structure ScriptedProvider where
  schemes : List Text
  /-- The root of all its filesystems, if they share one. -/
  root : Option Url
  /-- Whether it gives out the filesystem it holds even when that is closed. -/
  givesClosed : Bool
  script : List ScriptedMove
  held : List (Url × FileSystemId)
deriving DecidableEq, Repr

/-- Whether a filesystem is open; one that was made closed never was. -/
inductive ScriptedState where
  | serving
  | closed
  | madeClosed
deriving DecidableEq, Repr

/-- A filesystem in which every name is a small file. -/
structure ScriptedFs where
  root : Url
  state : ScriptedState
deriving DecidableEq, Repr

/-- A file of such a filesystem. -/
structure ScriptedResource where
  uri : Url
deriving DecidableEq, Repr

namespace ScriptedProvider

/-- The root of the filesystem for an address: the address up to the separator. -/
def rootFor (p : ScriptedProvider) (uri : Url) : Url :=
  p.root.getD ((Url.parse (Uri.beforeSeparator uri.text ++ Uri.separator)).toOption.getD uri)

/-- Opens a filesystem as the script has it, under the number given for it. -/
def openNew (p : ScriptedProvider) (isOpen : FileSystemId → Bool) (fresh : FileSystemId)
    (uri : Url) : Except ProviderError ScriptedFs × ScriptedProvider :=
  let move := p.script.head?.getD .auto
  let p := { p with script := p.script.tail }
  let root := p.rootFor uri
  let made (state : ScriptedState) : Except ProviderError ScriptedFs × ScriptedProvider :=
    (.ok ⟨root, state⟩, { p with held := Assoc.put root fresh p.held })
  match move with
  | .auto =>
    if (p.held.lookup root).any isOpen then (.error .alreadyExists, p) else made .serving
  | .fresh => made .serving
  | .closed => made .madeClosed
  | .fails cause => (.error cause, p)
  | .unsupported => (.error (.unsupported uri.text (.stated "corrupt bundle".toList)), p)

/-- The filesystem held for an address. -/
def findOpen (p : ScriptedProvider) (isOpen : FileSystemId → Bool) (uri : Url) :
    Except ProviderError FileSystemId :=
  match p.held.lookup (p.rootFor uri) with
  | some id => if isOpen id || p.givesClosed then .ok id else .error .notFound
  | none => .error .notFound

end ScriptedProvider

namespace ScriptedFs

/-- Whether the filesystem is open. -/
def isOpen (fs : ScriptedFs) : Bool := fs.state == .serving

/-- The filesystem once it is closed. -/
def close (fs : ScriptedFs) : ScriptedFs :=
  if fs.state = .serving then { fs with state := .closed } else fs

/-- The resource for an address. Addresses that hold `deny` are refused and those that hold `absent`
lead nowhere. -/
def resource (fs : ScriptedFs) (uri : Url) : Except ResourceError ScriptedResource := do
  if !fs.isOpen then throw (.staleMount fs.root.text)
  if (Text.cut? "deny".toList uri.text).isSome then
    throw (.invalidArgument (.stated ("denied ".toList ++ uri.text)))
  if (Text.cut? "absent".toList uri.text).isSome then throw (.notFound uri.text)
  pure ⟨uri⟩

end ScriptedFs

namespace ScriptedResource

/-- The content of every file. -/
def content : Bytes := Utf8.encode "hello".toList

end ScriptedResource

end ContentMounts
