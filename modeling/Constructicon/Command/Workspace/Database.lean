import Constructicon.Command.Workspace.Basic

/-! Databases in a folder in memory. While a database is in use, what is new in it is kept in a
log beside it, which is brought home at the end. What an earlier use has left beside the database
goes when it is taken into use. -/
namespace Constructicon

namespace Workspace

/-- Whether a file begins with a byte that is not zero, as a journal does that must be undone. -/
def filled (workspace : Workspace) (place : FilePlace) : Bool :=
  match workspace.entry? place with
  | some (.text content) => content.toList.head?.any (· ≠ '\x00')
  | some (.database ..) | some .bytes => true
  | _ => false

/-- The journal goes if it was filled or if it is written anew, as it is to start a database and
where there is no log; without a log, a new database also has no use for an old one. -/
def stale (workspace : Workspace) (place : FilePlace) (fresh logged : Bool) : List FilePlace :=
  let journal := place.extended "-journal"
  let log := place.extended "-wal"
  (if fresh || !logged || workspace.filled journal then [journal] else [])
    ++ if fresh && !logged && workspace.entry? log ≠ some (.text "") then [log] else []

def openStore (workspace : Workspace) (file : DatabaseFile) :
    Except (List String) (Store × Workspace) := do
  let closed := [s!"unable to open database file: {file.path}"]
  let route ← (Route.ofPath file.path).mapError fun _ => closed
  let place ← (workspace.walk route.start route.toEnd).mapError fun _ => closed
  let (store, fresh, begun) ← match workspace.entry? place with
    | none => if file.existing then throw closed else pure (Store.empty, true, true)
    | some (.text "") => pure (Store.empty, true, true)
    | some (.database store begun) => pure (store, false, begun)
    | some (.text _) | some .bytes => throw ["file is not a database"]
    | some _ => throw closed
  let beside := file.beside.map place.extended
  let begun := begun && beside ≠ []
  if (place.extended "-journal" :: beside).any fun other =>
      workspace.entry? other = some .folder then
    throw closed
  let cleared := (workspace.stale place fresh (beside ≠ [])).foldl remove workspace
  let shown := beside.foldl (fun workspace other => workspace.put other .bytes) cleared
  return (store,
    { shown.put place (.database store begun) with inUse := some { place, begun, beside } })

def saveStore (workspace : Workspace) (store : Store) : Workspace :=
  match workspace.inUse with
  | none => workspace
  | some use => workspace.put use.place (.database store use.begun)

/-- What is at the place of a database once its log is brought home. A database that was written
over is whole again if all of it was in the log, and is nothing of use otherwise. -/
def home (use : InUse) : Option Entry → Entry
  | some (.database store _) => .database store false
  | _ => if use.begun then .database .empty false else .bytes

/-- Brings the log home. A log that was written over stays where it is, and what was in it is
lost. -/
def settle (workspace : Workspace) (use : InUse) : Workspace :=
  match use.beside with
  | [] => workspace
  | log :: _ =>
    if workspace.entry? log ≠ some .bytes then workspace
    else
      use.beside.foldl remove
        (workspace.put use.place (home use (workspace.entry? use.place)))

def closeStore (workspace : Workspace) : Workspace :=
  match workspace.inUse with
  | none => workspace
  | some use => { workspace.settle use with inUse := none }

end Workspace

end Constructicon
