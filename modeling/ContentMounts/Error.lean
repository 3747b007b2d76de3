import ContentMounts.Host.Error
import ContentMounts.Url.File

/-!
# Errors

Errors are given by their causes. The wording of each is made by one function, `message`, which
takes the descriptions that other systems give of their own failures as a parameter: the host
describes its failures, the archive format and the configuration format theirs.
-/

namespace ContentMounts

/-- The descriptions other systems give of their failures. -/
structure Wording where
  io : IoError → String
  archive : String
  config : String

/-- Why a container cannot be read as a filesystem. -/
inductive Unsupported where
  /-- The container is not addressed as a file. -/
  | notFile
  /-- The container is a file of another host. -/
  | notLocal
  /-- The path of the container does not start at the root. -/
  | notAbsolute
  /-- The address of the root cannot be read. -/
  | malformedRoot (cause : Url.Malformed)
  /-- The container does not hold an archive. -/
  | notArchive
  /-- A reason in the provider's own words. -/
  | stated (reason : Text)
deriving DecidableEq, Repr

/-- The description of a reason. -/
def Unsupported.message (w : Wording) : Unsupported → String
  | .notFile => "container is not a file uri"
  | .notLocal => "container is not a local path"
  | .notAbsolute => "container path is not absolute"
  | .malformedRoot cause => cause.message
  | .notArchive => w.archive
  | .stated reason => String.ofList reason

/-- A failure reported by a provider of filesystems. -/
inductive ProviderError where
  /-- A filesystem of that root is open already and can be asked for. -/
  | alreadyExists
  | notFound
  | unsupported (uri : Text) (reason : Unsupported)
  | io (cause : IoError)
deriving DecidableEq, Repr

/-- The wording of a provider's failure. -/
def ProviderError.message (w : Wording) : ProviderError → String
  | .alreadyExists => "filesystem already exists"
  | .notFound => "filesystem not found"
  | .unsupported uri reason =>
    "unsupported filesystem " ++ String.ofList uri ++ ": " ++ reason.message w
  | .io cause => "io error: " ++ w.io cause

/-- Why an argument is refused. -/
inductive Refusal where
  | notAbsolute (input : Text)
  | malformed (input : Text) (cause : Url.Malformed)
  | notFileUri (input : Text)
  | noPath (input : Text)
  | schemeNotAllowed (input : Text)
  | noUri (path : Path)
  | unresolvable (uri : Text) (cause : ProviderError)
  | outside (uri root : Text)
  | noProvider (input : Text)
  | directScheme (scheme : Text)
  /-- A reason in the provider's own words. -/
  | stated (reason : Text)
deriving DecidableEq, Repr

/-- The wording of a refusal. -/
def Refusal.message (w : Wording) : Refusal → String
  | .notAbsolute input => "not an absolute uri: " ++ String.ofList input
  | .malformed input cause => "malformed uri " ++ String.ofList input ++ ": " ++ cause.message
  | .notFileUri input => "not a file uri: " ++ String.ofList input
  | .noPath input => "unable to build path from: " ++ String.ofList input
  | .schemeNotAllowed input => "not an allowed scheme: " ++ String.ofList input
  | .noUri path => "unable to build uri from: " ++ String.ofList path.display
  | .unresolvable uri cause => "unable to resolve " ++ String.ofList uri ++ ": " ++ cause.message w
  | .outside uri root => String.ofList uri ++ " is outside of " ++ String.ofList root
  | .noProvider input =>
    "unable to mount filesystem from unsupported uri: " ++ String.ofList input
  | .directScheme scheme =>
    "scheme " ++ String.ofList scheme ++ " addresses the host filesystem directly"
  | .stated reason => String.ofList reason

/-- A failure of a resource. -/
inductive ResourceError where
  | invalidArgument (refusal : Refusal)
  | notFound (name : Text)
  | notADirectory (name : Text)
  | isADirectory (name : Text)
  /-- The mount behind the resource is gone. -/
  | staleMount (key : Text)
  | io (cause : IoError)
  /-- The content is announced to be larger than any memory. -/
  | capacity (bytes : Nat)
deriving DecidableEq, Repr

namespace ResourceError

/-- Whether the failure means that the mount behind the resource is gone. -/
def isStale : ResourceError → Bool
  | .staleMount _ => true
  | _ => false

/-- The wording of a resource's failure. -/
def message (w : Wording) : ResourceError → String
  | .invalidArgument refusal => "invalid argument: " ++ refusal.message w
  | .notFound name => "resource not found: " ++ String.ofList name
  | .notADirectory name => "not a directory: " ++ String.ofList name
  | .isADirectory name => "is a directory: " ++ String.ofList name
  | .staleMount key => "mount backing " ++ String.ofList key ++ " is no longer valid"
  | .io cause => "io error: " ++ w.io cause
  | .capacity _ => "capacity overflow"

end ResourceError

/-- A failure of the pool. -/
inductive MountError where
  | invalidArgument (refusal : Refusal)
  /-- The provider could not open a filesystem. -/
  | unopened (uri : Text) (source : ProviderError)
  /-- The mount was evicted or released. -/
  | stale (key : Text)
  | resource (source : ResourceError)
  | duplicateProvider (scheme : Text)
deriving DecidableEq, Repr

namespace MountError

/-- A resource's failure as a failure of the pool; a refused argument stays one. -/
def ofResource : ResourceError → MountError
  | .invalidArgument refusal => .invalidArgument refusal
  | e => .resource e

/-- The wording of a pool's failure. -/
def message (w : Wording) : MountError → String
  | .invalidArgument refusal => "invalid argument: " ++ refusal.message w
  | .unopened uri source =>
    "unable to mount " ++ String.ofList uri ++ ": " ++ source.message w
  | .stale key => "mount " ++ String.ofList key ++ " is no longer valid"
  | .resource source => source.message w
  | .duplicateProvider scheme =>
    "a provider is already registered for scheme " ++ String.ofList scheme

end MountError

/-- A failure to obtain a configuration. -/
inductive ConfigError where
  | io (cause : IoError)
  | malformed
deriving DecidableEq, Repr

/-- The wording of a failure to obtain a configuration. -/
def ConfigError.message (w : Wording) : ConfigError → String
  | .io cause => "unable to read config: " ++ w.io cause
  | .malformed => "invalid config: " ++ w.config

end ContentMounts
