import Constructicon.Command
import Constructicon.Command.Host
import Constructicon.Document.Results
import Constructicon.Location
import Constructicon.Session.Snapshot
import Constructicon.Settings
import Constructicon.Storage
import Constructicon.Token

/-! Running commands. A command either prints its whole output or fails with a chain of
messages, each of which is caused by the next. -/
namespace Constructicon

structure Outcome where
  code : Nat
  output : String := ""
  errors : String := ""
  deriving DecidableEq

namespace Command

abbrev Failure := List String

/-- A message whose further lines are set in as deep as its first. -/
def setIn (first next message : String) : String :=
  first ++ message.replace "\n" ("\n" ++ next)

/-- A lone cause is set in; several are numbered from zero. -/
def causes : Failure → List String
  | [] => []
  | [only] => [setIn "    " "    " only]
  | several => several.mapIdx fun i message => setIn s!"    {i}: " "       " message

def report : Failure → String
  | [] => "Error: "
  | [message] => s!"Error: {message}\n"
  | message :: rest =>
    s!"Error: {message}\n\nCaused by:\n" ++ "\n".intercalate (causes rest) ++ "\n"

def padded (width : Nat) (text : String) : String :=
  text ++ String.ofList (List.replicate (width - text.length) ' ')

def listLine (name : String) (pattern : Pattern) : String :=
  let references := match pattern.references with
    | [] => "-"
    | names => ",".intercalate names
  padded 16 name ++ " nodes=" ++ padded 3 (toString pattern.nodes.size)
    ++ " edges=" ++ padded 3 (toString pattern.edges.length) ++ s!" refs={references}\n"

def listing (grammar : Grammar) : String :=
  match grammar.entries with
  | [] => "(no patterns)\n"
  | entries => String.join (entries.map fun (name, pattern) => listLine name pattern)

def checkText (summary : Summary) : String :=
  s!"patterns:   {summary.patterns}\nnodes:      {summary.nodes}\n"
    ++ String.join (summary.links.entries.map fun (kind, count) =>
      padded 11 s!"{kind}:" ++ s!" {count}\n")
    ++ String.join (summary.emptyPatterns.map fun name =>
      s!"warning: '{name}' can complete without consuming a token\n")
    ++ "ok\n"

def treesText : List Recognition → String
  | [] => "(no constructions recognised)\n"
  | recognitions => String.join (recognitions.map Recognition.render)

def feedStream (session : Session) : List (Except Token.Unreadable Token) → Except Failure Session
  | [] => .ok session
  | .error error :: _ => .error ["failed to read tokens", error.message]
  | .ok token :: rest =>
    match session.feed token with
    | (.error error, _) =>
      .error [s!"failed at token {Text.quoted token.elementType}", error.message]
    | (.ok _, after) => feedStream after rest

def startSession (grammar : Grammar) (isolated : Bool) (limits : Limits) : Except Error Session :=
  if isolated then do Session.isolated (← grammar.compile) limits
  else Session.ofGrammar grammar limits

/-- The parts of a path from the last to the first, without those at its end that lead
nowhere. -/
def partsBack (parts : List String) : List String :=
  match parts with
  | [] => []
  | [first] => [first]
  | part :: rest => if part = "" ∨ part = "." then partsBack rest else part :: rest

def folderOf (path : String) : Option String :=
  match partsBack ((partsBack (path.splitOn "/").reverse).drop 1) with
  | [] => none
  | [""] => some "/"
  | parts => some ("/".intercalate parts.reverse)

section

variable {m : Type → Type} [Monad m]

def remark (host : Host m) (verbose : Bool) (notice : String) : ExceptT Failure m Unit := do
  if verbose then host.notify notice

def lift {ε α : Type} (wrap : ε → Failure) (result : Except ε α) : ExceptT Failure m α :=
  ExceptT.mk (pure (result.mapError wrap))

def ask {ε α : Type} (wrap : ε → Failure) (action : m (Except ε α)) : ExceptT Failure m α :=
  ExceptT.mk (Except.mapError wrap <$> action)

def readText (host : Host m) (path : String) : m (Except FileFault String) := do
  match ← host.readBytes path with
  | .error fault => return .error fault
  | .ok bytes =>
    match Token.decode bytes with
    | none => return .error .notUtf8
    | some text => return .ok text

def loadSettings (host : Host m) (verbose : Bool) (path : Option String) :
    ExceptT Failure m Settings := do
  match path with
  | none => return {}
  | some path =>
    let text ← ask (fun fault => [s!"failed to read config {path}", fault.message])
      (readText host path)
    match Settings.read? text with
    | none => throw [s!"invalid config {path}", "TOML parse error"]
    | some settings =>
      remark host verbose s!"loaded config path={path}"
      return settings

/-- A store, and the file that keeps it, if it outlives the command. -/
structure Database where
  store : Store
  file : Option DatabaseFile
  deriving DecidableEq

def keep (host : Host m) (database : Database) (store : Store) : ExceptT Failure m Unit := do
  match database.file with
  | none => pure ()
  | some file => host.saveStore file store

def close (host : Host m) (database : Database) : ExceptT Failure m Unit := do
  match database.file with
  | none => pure ()
  | some file => host.closeStore file

/-- Opens the database of a name. The folder that the name itself lies in is made if it is
missing, and so is the database. -/
def openStore (host : Host m) (verbose : Bool) (name : String) :
    ExceptT Failure m Database := do
  match folderOf name with
  | none => pure ()
  | some folder =>
    ask (fun fault => [s!"failed to create {folder}", fault.message]) (host.makeFolder folder)
  let closed := ("failed to open pattern store" :: ·)
  let database ← match ← lift (fun reason => closed [reason]) (Storage.ofName name) with
    | .memory => pure { store := .empty, file := none : Database }
    | .file file => do
      let store ← ask closed (host.openStore file)
      pure { store, file := some file }
  remark host verbose s!"opened pattern store path={name}"
  return database

def chosen (store : Store) (names : List String) : ExceptT Failure m Grammar := do
  let grammar ← lift StoreError.chain
    (if names.isEmpty then store.loadAll else store.loadByNames names)
  if grammar.entries.isEmpty then throw ["no patterns stored; run `cxg import <file>` first"]
  return grammar

/-- Tells which patterns can match nothing at all, if all compile. -/
def notifyEmpty (host : Host m) (grammar : Grammar) : ExceptT Failure m Unit := do
  match grammar.compile with
  | .error _ => pure ()
  | .ok automata =>
    for automaton in automata do
      if automaton.entryClosure.reachesEnd then
        host.notify (s!"pattern '{automaton.name}' can complete without consuming a token; "
          ++ "empty matches are ignored")

def importFrom (host : Host m) (store : Store) (path : String) :
    m (Except StoreError (Nat × Store)) := do
  match ← readText host path with
  | .error fault => return .error (.failedToRead path fault.message)
  | .ok text =>
    match Document.foreignVersion? text with
    | none => pure ()
    | some version =>
      host.notify s!"grammar written by a different format version version={version}"
    return store.importText text

def exportTo (host : Host m) (store : Store) (path : String) : m (Except StoreError Unit) := do
  match store.exportText with
  | .error error => return .error error
  | .ok text =>
    match ← host.writeText path text with
    | .error fault => return .error (.failedToWrite path fault.message)
    | .ok () => return .ok ()

/-- A folder can be opened but not read. -/
def tokenFailure (path : String) : FileFault → Failure
  | .isFolder => ["failed to read tokens", FileFault.isFolder.message]
  | fault => [s!"failed to open tokens {path}", fault.message]

def tokenBytes (host : Host m) (path : Option String) : ExceptT Failure m (List UInt8) := do
  match path with
  | none => host.readInput
  | some path => ask (tokenFailure path) (host.readBytes path)

def parseTokens (host : Host m) (settings : Settings) (store : Store) (options : ParseOptions) :
    ExceptT Failure m String := do
  let grammar ← chosen store options.patterns
  notifyEmpty host grammar
  let session ← lift (fun error => [error.message])
    (startSession grammar options.isolated settings.limits)
  let bytes ← tokenBytes host options.tokens
  let session ← lift id (feedStream session (Token.stream bytes))
  if options.events then return Document.exportEvents session.events ++ "\n"
  let trees := session.results
    { pattern := options.root
      limit := options.limit <|> settings.limit
      maximalOnly := options.maximal || settings.maximal }
  if options.json || settings.json then return Document.exportTrees trees ++ "\n"
  return treesText trees

def execute (host : Host m) (settings : Settings) (database : Database) (command : Command) :
    ExceptT Failure m String := do
  let store := database.store
  match command with
  | .importFile path =>
    let (count, store) ← ask (fun error => s!"failed to import {path}" :: error.chain)
      (importFrom host store path)
    keep host database store
    return s!"imported {count} patterns from {path}\n"
  | .exportFile path =>
    ask (fun error => s!"failed to export to {path}" :: error.chain) (exportTo host store path)
    return s!"exported to {path}\n"
  | .list => return listing (← lift StoreError.chain store.loadAll)
  | .check names =>
    let grammar ← chosen store names
    notifyEmpty host grammar
    let network ← lift (fun error => [error.message]) grammar.network
    return checkText network.summary
  | .parse options => parseTokens host settings store options

/-- The database is closed whether or not the command succeeds. -/
def perform (host : Host m) (env : Environment) (invocation : Invocation) :
    ExceptT Failure m String := do
  let verbose := invocation.verbose
  let settings ← loadSettings host verbose (Location.settings env invocation.settings)
  let database ← openStore host verbose (invocation.database.getD (Location.database env))
  let result ← ExceptT.lift (execute host settings database invocation.command).run
  close host database
  ExceptT.mk (pure result)

def usage : String :=
  "usage: cxg [--db PATH] [--config PATH] [--verbose] COMMAND\n\n"
    ++ "  import PATH     import patterns from a grammar JSON file\n"
    ++ "  export PATH     export all patterns to a grammar JSON file\n"
    ++ "  list            list stored patterns\n"
    ++ "  check [NAMES]   compile and compose patterns, reporting the first error\n"
    ++ "  parse           feed a token stream and print recognised constructions\n"
    ++ "      [--pattern NAME] [--tokens PATH] [--isolated] [--root NAME] [--limit N]\n"
    ++ "      [--maximal] [--json] [--events]\n"

/-- Runs a command line to its exit code and what it prints. -/
def run (host : Host m) (env : Environment) (arguments : List String) : m Outcome := do
  match Request.ofArguments arguments with
  | none => return { code := 2, errors := usage }
  | some .help => return { code := 0, output := usage }
  | some (.run invocation) =>
    match ← (perform host env invocation).run with
    | .ok output => return { code := 0, output }
    | .error failure => return { code := 1, errors := report failure }

end

end Command

end Constructicon
