import ContentMounts.Assoc
import ContentMounts.Text.Basic

/-!
# Configuration values

The values of the configuration format, and the rules by which a document's tables grow. A table
can come about in four ways, and which of them decides whether it may be extended later: by a
header of its own, on the way to another header, on the way of a dotted key, or in braces.
-/

namespace ContentMounts

namespace Toml

/-- How a table came about. -/
inductive TableKind where
  /-- By its own header. -/
  | defined
  /-- On the way to the header of a table in it. -/
  | implied
  /-- On the way of a dotted key. -/
  | dotted
  /-- In braces. -/
  | braced
deriving DecidableEq, Repr

/-- A value. Of a float and of a date only is kept that they are one. -/
inductive Value where
  | string (t : Text)
  | integer (n : Int)
  | float
  | boolean (b : Bool)
  | datetime
  | array (items : List Value)
  | table (kind : TableKind) (entries : List (Text × Value))
  /-- The tables with one header in double brackets. -/
  | tables (items : List Value)

/-- The entries of a table. -/
abbrev Entries := List (Text × Value)

/-- Changes the table that a list of keys leads to, making tables that are missing on the way.
With `dotted` the keys stand in a dotted key: they do not lead into tables with a header. A list
of tables stands for its last one. -/
def extend (dotted : Bool) (f : TableKind → Entries → Option Entries) :
    List Text → TableKind → Entries → Option Entries
  | [], kind, es => f kind es
  | key :: rest, _, es =>
    let made : TableKind := if dotted then .dotted else .implied
    match es.lookup key with
    | none => (extend dotted f rest made []).map fun sub => Assoc.put key (.table made sub) es
    | some (.table kind sub) =>
      if kind = .braced ∨ (dotted ∧ kind = .defined) then none
      else (extend dotted f rest kind sub).map fun sub => Assoc.put key (.table kind sub) es
    | some (.tables items) =>
      match items.reverse with
      | .table kind sub :: before =>
        (extend dotted f rest kind sub).map fun sub =>
          Assoc.put key (.tables ((Value.table kind sub :: before).reverse)) es
      | _ => none
    | some _ => none

/-- Adds a value under a key whose leading parts are given. A key is bound once, a dotted key adds
to tables made by dotted keys only, and a plain key to any other table. -/
def addValue (path : List Text) (key : Text) (v : Value) (kind : TableKind) (es : Entries) :
    Option Entries :=
  extend true (fun kind es =>
    if (kind = .dotted) = (path = []) then none
    else if (es.lookup key).isSome then none
    else some (es ++ [(key, v)])) path kind es

/-- Opens the table of a header: a new one, or one so far only implied. -/
def openTable (path : List Text) (key : Text) (es : Entries) : Option Entries :=
  extend false (fun _ es =>
    match es.lookup key with
    | none => some (es ++ [(key, .table .defined [])])
    | some (.table .implied sub) => some (Assoc.put key (.table .defined sub) es)
    | some _ => none) path .defined es

/-- Opens one more table of a header in double brackets. -/
def openTables (path : List Text) (key : Text) (es : Entries) : Option Entries :=
  extend false (fun _ es =>
    match es.lookup key with
    | none => some (es ++ [(key, .tables [.table .defined []])])
    | some (.tables items) => some (Assoc.put key (.tables (items ++ [.table .defined []])) es)
    | some _ => none) path .defined es

end Toml

end ContentMounts
