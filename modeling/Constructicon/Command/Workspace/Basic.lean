import Constructicon.Command.Route

/-! A folder in memory to run commands in. A path is walked one name after the other, and every
name but the last must lead to a folder. A path from the root or past the folder leads outside,
where there are a few folders and devices and nothing else at first. -/
namespace Constructicon

/-- What stands under a name without being a file: nothing at all, a thing without room, and the
three streams of a command. -/
inductive Device where
  | null | full | input | output | errors
  deriving DecidableEq

inductive Entry where
  | folder
  | text (content : String)
  /-- A database. One that has only begun is all in its log, and its file is a text of no
  meaning. -/
  | database (store : Store) (begun : Bool)
  /-- What is neither a text nor a database. -/
  | bytes
  | device (device : Device)
  deriving DecidableEq

/-- What there is before anything is written. -/
def surroundings : List (FilePlace × Entry) :=
  let devices : List (List String × Device) :=
    [(["dev", "null"], .null), (["dev", "zero"], .null), (["dev", "random"], .null),
      (["dev", "urandom"], .null), (["dev", "full"], .full), (["dev", "stdin"], .input),
      (["dev", "stdout"], .output), (["dev", "stderr"], .errors)]
    ++ [["dev", "fd"], ["proc", "self", "fd"]].flatMap fun folder =>
      [(folder ++ ["0"], .input), (folder ++ ["1"], .output), (folder ++ ["2"], .errors)]
  let folders : List (List String) :=
    [[], ["bin"], ["dev"], ["dev", "fd"], ["dev", "pts"], ["dev", "shm"], ["etc"], ["home"],
      ["proc"], ["proc", "self"], ["proc", "self", "fd"], ["root"], ["tmp"], ["usr"], ["var"]]
  devices.map (fun (names, device) => ("/" :: names, .device device))
    ++ folders.map fun names => ("/" :: names, .folder)

/-- What goes to the stream of errors: a notice, or a text written there by name. -/
inductive Message where
  | notice (text : String)
  | text (content : String)
  deriving DecidableEq

structure InUse where
  place : FilePlace
  /-- Whether the database is all in its log. -/
  begun : Bool
  beside : List FilePlace
  deriving DecidableEq

structure Workspace where
  entries : List (FilePlace × Entry) := []
  input : String := ""
  output : String := ""
  messages : List Message := []
  inUse : Option InUse := none
  deriving DecidableEq

namespace Workspace

def entry? (workspace : Workspace) (place : FilePlace) : Option Entry :=
  if place.all (· = "..") then some .folder
  else (workspace.entries ++ surroundings).lookup place

def remove (workspace : Workspace) (place : FilePlace) : Workspace :=
  { workspace with entries := workspace.entries.filter (·.1 ≠ place) }

def put (workspace : Workspace) (place : FilePlace) (entry : Entry) : Workspace :=
  { workspace with entries := (place, entry) :: (workspace.remove place).entries }

def enter (workspace : Workspace) (place : FilePlace) (name : String) :
    Except FileFault FilePlace :=
  match workspace.entry? place with
  | none => .error .missing
  | some .folder =>
    if Route.nameLimit < name.utf8ByteSize then .error .nameTooLong else .ok (place.step name)
  | some _ => .error .notFolder

/-- Where names lead, whether or not there is anything. -/
def walk (workspace : Workspace) (place : FilePlace) (names : List String) :
    Except FileFault FilePlace :=
  names.foldlM workspace.enter place

def noText : List UInt8 := [0xFF]

/-- The bytes at the end of a path. The stream of input has no more of them once it is read. -/
def readBytes (workspace : Workspace) (path : String) :
    Except FileFault (List UInt8 × Workspace) := do
  let route ← Route.ofPath path
  let place ← workspace.walk route.start route.toEnd
  match workspace.entry? place with
  | none => throw .missing
  | some .folder => throw .isFolder
  | some (.text content) => return (content.toUTF8.toList, workspace)
  | some (.database _ begun) => return (if begun then [0] else noText, workspace)
  | some .bytes => return (noText, workspace)
  | some (.device .input) => return (workspace.input.toUTF8.toList, { workspace with input := "" })
  | some (.device _) => return ([], workspace)

def read? (workspace : Workspace) (path : String) : Option String :=
  match workspace.readBytes path with
  | .error _ => none
  | .ok (bytes, _) => String.fromUTF8? ⟨bytes.toArray⟩

def writeDevice (workspace : Workspace) (content : String) : Device → Except FileFault Workspace
  | .null | .input => .ok workspace
  | .full => .error .full
  | .output => .ok { workspace with output := workspace.output ++ content }
  | .errors => .ok { workspace with messages := workspace.messages ++ [.text content] }

def writeText (workspace : Workspace) (path content : String) : Except FileFault Workspace := do
  let route ← Route.ofPath path
  let place ← workspace.walk route.start route.toFile
  match workspace.entry? place with
  | some .folder => throw .isFolder
  | some (.device device) => workspace.writeDevice content device
  | _ => return workspace.put place (.text content)

def makeOne (workspace : Workspace) (start : FilePlace) (names : List String) :
    Except FileFault Workspace := do
  let place ← workspace.walk start names
  match workspace.entry? place with
  | none => return workspace.put place .folder
  | some _ => throw .occupied

def isFolder (workspace : Workspace) (start : FilePlace) (names : List String) : Bool :=
  match workspace.walk start names with
  | .error _ => false
  | .ok place => workspace.entry? place = some .folder

/-- Makes a folder, its names given from the last to the first, and first the one above it if
that is missing. What has been made stays even if the rest fails. -/
def makeAll (start : FilePlace) : List String → ExceptT FileFault (StateM Workspace) Unit
  | [] => pure ()
  | last :: above => do
    let names := (last :: above).reverse
    if let .error .missing := (← get).makeOne start names then makeAll start above
    match (← get).makeOne start names with
    | .ok after => set after
    | .error fault => unless (← get).isFolder start names do throw fault

def makeFolder (path : String) : ExceptT FileFault (StateM Workspace) Unit := do
  match Route.ofPath path with
  | .error fault => throw fault
  | .ok route => makeAll route.start (route.names.filter (· ≠ ".")).reverse

end Workspace

end Constructicon
