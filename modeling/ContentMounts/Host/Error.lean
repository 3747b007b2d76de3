/-!
# Failures of the host

The ways in which a request to the host's filesystem, or the reading of stored data, can fail. The
host's own wording is not kept: a failure is known by its kind.
-/

namespace ContentMounts

/-- The kind of a failed input or output operation. -/
inductive IoError where
  | notFound
  | notADirectory
  | isADirectory
  /-- Too many symbolic links were followed. -/
  | filesystemLoop
  /-- A name or a whole path is too long. -/
  | invalidFilename
  | permissionDenied
  /-- The request itself makes no sense, such as a path with a zero byte, or data that no
  decompressor accepts. -/
  | invalidInput
  /-- The data contradict themselves. -/
  | invalidData
  | unexpectedEof
  | unsupported
  | alreadyExists
  | directoryNotEmpty
  /-- A directory that other paths lead through, such as `.`, cannot be moved. -/
  | resourceBusy
deriving DecidableEq, Repr

/-- What has a result has succeeded with it. -/
theorem eq_ok_of_toOption {ε α : Type} {x : Except ε α} {a : α} (h : x.toOption = some a) :
    x = .ok a := by
  cases x with
  | error e => cases h
  | ok b => exact congrArg Except.ok (Option.some.inj h)

/-- The result of a changed answer is that of the answer. -/
theorem exists_of_map_eq_ok {ε α β : Type} {f : α → β} {x : Except ε α} {b : β}
    (h : x.map f = .ok b) : ∃ a, x = .ok a ∧ f a = b := by
  cases x with
  | error e => cases h
  | ok a => exact ⟨a, rfl, Except.ok.inj h⟩

/-- Two steps give a result if both do. -/
theorem exists_of_bind_eq_ok {ε α β : Type} {f : α → Except ε β} {x : Except ε α} {b : β}
    (h : x >>= f = .ok b) : ∃ a, x = .ok a ∧ f a = .ok b := by
  cases x with
  | error e => cases h
  | ok a => exact ⟨a, rfl, h⟩

end ContentMounts
