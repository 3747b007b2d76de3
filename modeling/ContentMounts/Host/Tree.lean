import ContentMounts.Path
import ContentMounts.Host.Error

/-!
# The tree of files

The filesystem of the host is a tree whose leaves are files and symbolic links. A file in the tree
is a number; its content is kept aside under that number, so that a file taken out of the tree can
still be read by who opened it before, and a file written anew shows its new content there. Places
in the tree are given by the list of names that leads to them from the root.
-/

namespace ContentMounts

/-- A time of last modification: one that was set, or one of the moments at which the tree itself
changed, which have no date but can be told apart. -/
inductive Moment where
  /-- A time since the epoch, with less than a second in nanoseconds. -/
  | date (seconds : Int) (nanoseconds : Nat)
  | tick (n : Nat)
deriving DecidableEq, Repr

namespace Moment

/-- The nanoseconds of a second. -/
def nanosecondsPerSecond : Nat := Nat.pow 10 9

/-- The time that follows the epoch by some seconds and nanoseconds. Whole seconds among these are
carried. -/
def sinceEpoch (seconds : Int) (nanoseconds : Nat) : Moment :=
  .date (seconds + (nanoseconds / nanosecondsPerSecond : Nat)) (nanoseconds % nanosecondsPerSecond)

/-- A second and a half is carried to the next second. -/
example : sinceEpoch 1 1500000000 = .date 2 500000000 := by decide

end Moment

/-- The number under which the content of a file is kept. -/
abbrev FileId := Nat

/-- A file, a symbolic link, or a directory with its named entries. -/
inductive Node where
  | file (id : FileId)
  | link (target : Path)
  | dir (modified : Moment) (entries : List (Name × Node))

namespace Node

/-- Whether a node is a directory. -/
def isDir : Node → Bool
  | .dir _ _ => true
  | _ => false

/-- Whether a node is a symbolic link. -/
def isLink : Node → Bool
  | .link _ => true
  | _ => false

/-- The entries of a directory; other nodes have none. -/
def entries : Node → List (Name × Node)
  | .dir _ es => es
  | _ => []

/-- The entry of a given name. -/
def child? (n : Node) (name : Name) : Option Node := n.entries.lookup name

/-- The node that a list of names leads to; links are not followed. -/
def find? : Node → List Name → Option Node
  | n, [] => some n
  | n, s :: rest => (n.child? s).bind (find? · rest)

@[simp] theorem find?_nil (n : Node) : n.find? [] = some n := rfl

theorem find?_append (n : Node) (xs ys : List Name) :
    n.find? (xs ++ ys) = (n.find? xs).bind (find? · ys) := by
  induction xs generalizing n with
  | nil => rfl
  | cons s rest ih =>
    simp only [List.cons_append, find?]
    cases n.child? s with
    | none => rfl
    | some c => simpa using ih c

/-- The entries with one name bound to a new node, or unbound. -/
def bind (name : Name) (new : Option Node) : List (Name × Node) → List (Name × Node)
  | [] => new.elim [] fun n => [(name, n)]
  | (s, old) :: rest =>
    if s = name then new.elim rest fun n => (name, n) :: rest
    else (s, old) :: bind name new rest

/-- The directory with one entry bound to a new node, or unbound, at a given moment. -/
def withChild (now : Moment) (name : Name) (new : Option Node) : Node → Node
  | .dir _ es => .dir now (bind name new es)
  | n => n

/-- The tree with the node that a list of names leads to replaced by its image. -/
def modify (f : Node → Node) : List Name → Node → Node
  | [], n => f n
  | s :: rest, .dir m es =>
    .dir m (es.map fun (name, c) => (name, if name = s then modify f rest c else c))
  | _ :: _, n => n

end Node

/-- The content of a file and the time of its last modification. -/
structure Stored where
  content : Bytes
  modified : Moment
deriving DecidableEq, Repr

/-- The filesystem of the host: the root directory, the contents of all files ever made, and the
working directory, from which relative paths start. -/
structure Host where
  rootModified : Moment
  rootEntries : List (Name × Node)
  files : List Stored
  /-- The number of changes made so far. -/
  clock : Nat
  workingDir : List Name

namespace Host

/-- The root directory. -/
def root (h : Host) : Node := .dir h.rootModified h.rootEntries

/-- The directory that holds nothing but the given directories, one in the other. -/
def nest : List Name → List (Name × Node)
  | [] => []
  | s :: rest => [(s, .dir (.tick 0) (nest rest))]

/-- A host without any files, whose only directories are those on the way to the working
directory. -/
def ofWorkingDir (names : List Name) : Host := ⟨.tick 0, nest names, [], 1, names⟩

/-- What is kept under the number of a file. -/
def stored? (h : Host) (id : FileId) : Option Stored := h.files[id]?

end Host

end ContentMounts
