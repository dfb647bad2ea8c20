/-! TOML documents as trees of tables. A table remembers how it came about, because that decides
what may still be added to it: a table written in place is complete, a table opened by a header
is added to under its header only, and a table that a dotted key brought about only by dotted
keys beside that key. -/
namespace Constructicon

inductive Toml.Origin where
  | inline | header | path | dotted
  deriving DecidableEq

/-- Of numbers with a fraction and of dates only the kind is kept. -/
inductive Toml where
  | text (text : String)
  | integer (value : Int)
  | float
  | boolean (value : Bool)
  | moment
  | list (items : List Toml)
  | table (origin : Toml.Origin) (fields : List (String × Toml))
  /-- An array of tables, each opened by a header of its own; never empty. -/
  | tables (items : List (List (String × Toml)))

namespace Toml

abbrev Fields := List (String × Toml)

structure Section where
  origin : Origin
  fields : Fields

def Section.empty (origin : Origin) : Section := ⟨origin, []⟩

def Section.get? (here : Section) (key : String) : Option Toml :=
  here.fields.lookup key

def Section.set (here : Section) (key : String) (value : Toml) : Section :=
  if here.fields.any (·.1 = key) then
    { here with
      fields := here.fields.map fun field => if field.1 = key then (key, value) else field }
  else { here with fields := here.fields ++ [(key, value)] }

def Section.value (here : Section) : Toml := .table here.origin here.fields

/-- Applies `act` to the table at the end of a path of keys, making the tables on the way that
are missing. In an array of tables the way leads through the last; a table opened by a header
is closed to dotted keys. -/
def descend (dotted : Bool) (act : Section → Option Section) :
    List String → Section → Option Section
  | [], here => act here
  | key :: path, here =>
    match here.get? key with
    | none => do
      let made := Section.empty (if dotted then .dotted else .path)
      return here.set key (← descend dotted act path made).value
    | some (.table origin fields) =>
      if origin = .inline ∨ (dotted ∧ origin = .header) then none
      else do return here.set key (← descend dotted act path ⟨origin, fields⟩).value
    | some (.tables items) =>
      match items.getLast? with
      | none => none
      | some last => do
        let changed ← descend dotted act path ⟨.header, last⟩
        return here.set key (.tables (items.dropLast ++ [changed.fields]))
    | some _ => none

/-- Writes a value under a key, which must be new. The table at the end of a path of dotted keys
must be one that dotted keys brought about. -/
def assign (path : List String) (key : String) (value : Toml) : Section → Option Section :=
  descend true (fun here =>
    if (here.origin = .dotted ↔ path = []) ∨ (here.get? key).isSome then none
    else some (here.set key value)) path

/-- Opens a table by its header; only a table known from longer headers alone may exist. -/
def openTable (key : String) (here : Section) : Option Section :=
  match here.get? key with
  | none => some (here.set key (.table .header []))
  | some (.table .path fields) => some (here.set key (.table .header fields))
  | some _ => none

def openNext (key : String) (here : Section) : Option Section :=
  match here.get? key with
  | none => some (here.set key (.tables [[]]))
  | some (.tables items) => some (here.set key (.tables (items ++ [[]])))
  | some _ => none

/-- The lines that make up a document; keys are given with the path that leads to them. -/
inductive Line where
  | table (path : List String) (key : String)
  | next (path : List String) (key : String)
  | pair (path : List String) (key : String) (value : Toml)

structure Draft where
  root : Section := .empty .header
  current : List String := []

def Draft.add (draft : Draft) : Line → Option Draft
  | .table path key => do
    return { root := ← descend false (openTable key) path draft.root, current := path ++ [key] }
  | .next path key => do
    return { root := ← descend false (openNext key) path draft.root, current := path ++ [key] }
  | .pair path key value => do
    return { draft with root := ← descend false (assign path key value) draft.current draft.root }

def ofLines (lines : List Line) : Option Fields := do
  return (← lines.foldlM Draft.add {}).root.fields

def ofPairs (pairs : List (List String × String × Toml)) : Option Toml := do
  let filled ← pairs.foldlM (fun here (path, key, value) => assign path key value here)
    (Section.empty .inline)
  return .table .inline filled.fields

end Toml

end Constructicon
