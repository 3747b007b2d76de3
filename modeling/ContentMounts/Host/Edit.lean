import ContentMounts.Host.Walk

/-!
# Changing the tree

The changes that go on around the library while it serves files: files are written, moved and
removed. Writing to an existing file keeps the file and replaces its content. A change of a
directory's entries gives that directory a new time of modification.

Some changes take several steps, and what was done before a step fails stays done: of the
directories that a path needs some may have been made, and a directory that cannot be taken out of
the tree has lost what it held.
-/

namespace ContentMounts

namespace Host

/-- The host after one more change to its root directory. -/
def withRoot (h : Host) (f : Moment → Node → Node) : Host :=
  match f (.tick h.clock) h.root with
  | .dir m es => { h with rootModified := m, rootEntries := es, clock := h.clock + 1 }
  | _ => h

/-- Binds or unbinds an entry of the directory at a place. -/
def setEntry (h : Host) (place : List Name) (name : Name) (new : Option Node) : Host :=
  h.withRoot fun now => Node.modify (Node.withChild now name new) place

/-- The host with the content or time under the number of a file replaced. -/
def setStored (h : Host) (id : FileId) (s : Stored) : Host := { h with files := h.files.set id s }

/-! ### Slots -/

/-- The last segment of a path and the directory in which it is looked up. -/
structure Slot where
  place : List Name
  name : Name

namespace Slot

/-- Whether the last segment is the name of an entry. -/
def isNamed (s : Slot) : Bool := s.name != Name.dot && s.name != Name.dotDot

/-- The place of the entry. -/
def names (s : Slot) : List Name := s.place ++ [s.name]

/-- The entry, if there is one. -/
def node? (s : Slot) (h : Host) : Option Node := h.root.find? s.names

/-- Refuses a name that is too long for an entry. -/
def guardName (s : Slot) : Except IoError Unit :=
  if s.name.length > nameLimit then .error .invalidFilename else .ok ()

end Slot

/-- The slot of a path. That of the root directory is named `.`. -/
def slot (h : Host) (p : Path) : Except IoError Slot := do
  guardPath p
  let above ← walk h.root {} linkLimit (h.startOf p) p.segments.dropLast true
  pure ⟨above.names, p.segments.getLast?.getD Name.dot⟩

/-! ### Changes -/

/-- A change of the host. What it has changed stays when it fails. -/
abbrev Change := ExceptT IoError (StateM Host)

/-- Puts a node into a slot that has to be empty. -/
def Slot.fill (s : Slot) (new : Node) : Change Unit := do
  if (s.node? (← get)).isSome then throw .alreadyExists
  modify (·.setEntry s.place s.name (some new))

/-- Writes a file: an existing one is written anew, and where there is none one is made, at the end
of a link if the path leads there. -/
def write (p : Path) (content : Stored) : Change Unit := do
  let h ← get
  let new := h.files.length
  match ← h.locate { fresh := some (.file new) } p with
  | ⟨names, .file id⟩ =>
    if id < new then set (h.setStored id content)
    else
      let grown := { h with files := h.files ++ [content] }
      set (grown.setEntry names.dropLast (names.getLast?.getD []) (some (.file id)))
  | _ => throw .isADirectory

/-- Makes a directory. -/
def makeDir (p : Path) : Change Unit := do
  let h ← get
  let s ← h.slot p
  if !s.isNamed then throw .alreadyExists
  s.guardName
  s.fill (.dir (.tick h.clock) [])

/-- Makes the directory at the first path, if it is not there, after those at the paths behind it
if it cannot be made without them. -/
def makeDirsAlong : List Path → Change Unit
  | [] => pure ()
  | p :: above => do
    let settle (e : IoError) : Change Unit := do
      if !(← get).isDir p then throw e
    tryCatch (makeDir p) fun e =>
      if e = .notFound then do
        makeDirsAlong above
        tryCatch (makeDir p) settle
      else settle e

/-- Makes a directory and the directories above it that are missing. -/
def makeDirs (p : Path) : Change Unit := makeDirsAlong p.ancestors

/-- Makes a symbolic link. -/
def makeLink (p target : Path) : Change Unit := do
  if p.bytes.contains 0 then throw .invalidInput
  guardPath target
  let s ← (← get).slot p
  if !s.isNamed then throw .alreadyExists
  s.guardName
  if p.endsInSlash && (s.node? (← get)).isNone then throw .notFound
  s.fill (.link target)

/-- Takes an empty directory out of the tree. -/
def removeDir (p : Path) : Change Unit := do
  let s ← (← get).slot p
  if s.name = Name.dot then throw .invalidInput
  if s.name = Name.dotDot then throw .directoryNotEmpty
  match s.node? (← get) with
  | none => throw .notFound
  | some (.dir _ []) => modify (·.setEntry s.place s.name none)
  | some (.dir _ _) => throw .directoryNotEmpty
  | some _ => throw .notADirectory

/-- Takes a file, a link or a directory with all it holds out of the tree. What a directory holds
goes first, so that the directory may be out of reach then. -/
def remove (p : Path) : Change Unit := do
  let found ← (← get).locate { followsLast := false } p
  match found.node with
  | .dir _ _ =>
    modify (·.withRoot fun now => Node.modify (fun _ => .dir now []) found.names)
    tryCatch (removeDir p) fun e => if e = .notFound then pure () else throw e
  | _ => modify (·.setEntry found.names.dropLast (found.names.getLast?.getD []) none)

/-- Moves an entry to another slot, over a file or an empty directory if one is there. -/
def rename (source target : Path) : Change Unit := do
  if source.bytes.contains 0 || target.bytes.contains 0 then throw .invalidInput
  let h ← get
  let old ← h.slot source
  let new ← h.slot target
  if !old.isNamed || !new.isNamed then throw .resourceBusy
  old.guardName
  match old.node? h with
  | none => throw .notFound
  | some moved =>
    new.guardName
    if !moved.isDir && (source.endsInSlash || target.endsInSlash) then throw .notADirectory
    if old.names.isPrefixOf new.place then throw .invalidInput
    if new.names.isPrefixOf old.place then throw .directoryNotEmpty
    if old.names ≠ new.names then
      match new.node? h, moved.isDir with
      | some (.dir _ []), true => pure ()
      | some (.dir _ _), true => throw .directoryNotEmpty
      | some (.dir _ _), false => throw .isADirectory
      | some _, true => throw .notADirectory
      | _, _ => pure ()
      set ((h.setEntry old.place old.name none).setEntry new.place new.name (some moved))

/-- Gives the file a path leads to a time of last modification. -/
def touch (p : Path) (modified : Moment) : Change Unit := do
  let h ← get
  match ← h.stat p with
  | .file id =>
    match h.stored? id with
    | some s => set (h.setStored id { s with modified := modified })
    | none => throw .notFound
  | _ => throw .isADirectory

end Host

end ContentMounts
