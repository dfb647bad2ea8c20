import Constructicon.Text.Hex

/-! Where a named database is kept. A name is a path, or an address: `file:`, perhaps an
authority, a path with escapes, options after a question mark and anything after a number sign.
The path `:memory:` and the empty one stand for a database that is gone when its command ends. -/
namespace Constructicon

structure DatabaseFile where
  path : String
  /-- Whether only an existing file will do, or a missing one comes into being. -/
  existing : Bool := false
  /-- What is appended to the name of the file for those that stand beside it while it is in
  use: the log of what is new, if there is one, then the index of the log. -/
  beside : List String := ["-wal", "-shm"]
  deriving DecidableEq

inductive Storage where
  | memory
  | file (database : DatabaseFile)
  deriving DecidableEq

namespace Storage

/-- One part more of a path: a part that leads up takes back the part before it. -/
def extend (absolute : Bool) (parts : List String) (part : String) : List String :=
  if part = "" ∨ part = "." then parts
  else if part ≠ ".." then parts ++ [part]
  else if absolute ∨ (parts ≠ [] ∧ parts.getLast? ≠ some "..") then parts.dropLast
  else parts ++ [".."]

/-- A path without detours, found from its text alone. -/
def direct (path : String) : String :=
  let absolute := path.startsWith "/"
  let parts := (path.splitOn "/").foldl (extend absolute) []
  if absolute then "/" ++ "/".intercalate parts
  else if parts = [] then "." else "/".intercalate parts

/-- What may be done with a database. An option may take rights away but give none, except
that memory can always be had. -/
inductive Access where
  | readOnly | existing | create | memory
  deriving DecidableEq

namespace Access

def ofName? : String → Option Access
  | "ro" => some readOnly
  | "rw" => some existing
  | "rwc" => some create
  | "memory" => some memory
  | _ => none

def rights : Access → Nat
  | readOnly => 1
  | existing => 2
  | create => 3
  | memory => 4

end Access

/-- The access that an option leaves; one that is not known leaves it as it was. -/
def restrict (access : Access) (option : String × String) : Except String Access :=
  match option with
  | ("mode", value) =>
    match Access.ofName? value with
    | none => .error s!"no such access mode: {value}"
    | some asked =>
      if asked ≠ .memory ∧ access.rights < asked.rights then
        .error s!"access mode not allowed: {value}"
      else .ok asked
  | ("cache", value) =>
    if value = "shared" ∨ value = "private" then .ok access
    else .error s!"no such cache mode: {value}"
  | _ => .ok access

/-- The file systems that an address may name, with what stands beside a database there; the
last is in memory. -/
def fileSystems : List (String × List String) :=
  [("unix", ["-wal", "-shm"]), ("unix-excl", ["-wal"]), ("unix-dotfile", []), ("unix-none", []),
    ("memdb", [])]

/-- An option and its value; a value without a name is no option. -/
def option? (text : String) : Option (String × String) :=
  let (name, value) := text.toList.span (· ≠ '=')
  let name := Text.unescaped name
  if name.isEmpty then none else some (name, Text.unescaped (value.drop 1))

def ofFile (file : DatabaseFile) : Storage :=
  if file.path = "" ∨ file.path = ":memory:" then .memory
  else .file { file with path := direct file.path }

/-- Reads an address after its authority. -/
def ofLocal (text : List Char) : Except String Storage := do
  let (path, query) := (text.takeWhile (· ≠ '#')).span (· ≠ '?')
  let options := ((String.ofList (query.drop 1)).splitOn "&").filterMap option?
  let access ← options.foldlM restrict .create
  let system := (options.reverse.lookup "vfs").getD "unix"
  match fileSystems.lookup system with
  | none => throw s!"no such vfs: {system}"
  | some beside =>
    if access = .readOnly then throw "attempt to write a readonly database"
    if access = .memory ∨ system = "memdb" then return .memory
    return ofFile { path := Text.unescaped path, existing := access = .existing, beside }

/-- Reads an address after `file:`. The only authority is this machine. -/
def ofAddress (text : List Char) : Except String Storage :=
  match text with
  | '/' :: '/' :: rest =>
    let (authority, text) := rest.span (· ≠ '/')
    if authority = [] ∨ authority = "localhost".toList then ofLocal text
    else .error s!"invalid uri authority: {String.ofList authority}"
  | _ => ofLocal text

/-- Where the database of a name is kept, or why it cannot be kept anywhere. -/
def ofName (name : String) : Except String Storage :=
  if name.startsWith "file:" then ofAddress (name.toList.drop 5) else .ok (ofFile { path := name })

end Storage

end Constructicon
