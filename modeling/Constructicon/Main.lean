import Constructicon.Command.Run

/-! The command line program. A database is a file that holds its patterns as a grammar document;
an empty file is a database without patterns. -/
namespace Constructicon.Program

def faultOf : IO.Error → FileFault
  | .noFileOrDirectory .. => .missing
  | .alreadyExists .. => .occupied
  | .inappropriateType _ code reason | .invalidArgument _ code reason
  | .resourceExhausted _ code reason =>
    match min code (0 - code) with
    | 20 => .notFolder
    | 21 => .isFolder
    | 28 => .full
    | 36 => .nameTooLong
    | _ => .other reason
  | error => .other (toString error)

def attempt {α : Type} (action : IO α) : IO (Except FileFault α) := do
  match ← action.toBaseIO with
  | .ok value => return .ok value
  | .error error => return .error (faultOf error)

def storeOf (bytes : List UInt8) : Except (List String) Store :=
  match Token.decode bytes with
  | none => .error ["file is not a database"]
  | some "" => .ok .empty
  | some text =>
    match Store.empty.importText text with
    | .error error => .error ("file is not a database" :: error.chain)
    | .ok (_, store) => .ok store

def saveStore (file : DatabaseFile) (store : Store) : IO Unit :=
  match store.exportText with
  | .error _ => pure ()
  | .ok text => IO.FS.writeFile file.path text

def readStore (file : DatabaseFile) : IO (Except (List String) Store) := do
  match ← attempt (IO.FS.readBinFile file.path), file.existing with
  | .ok bytes, _ => return storeOf bytes.toList
  | .error .missing, false => return .ok .empty
  | .error fault, _ =>
    return .error [s!"unable to open database file: {file.path}", fault.message]

def openStore (file : DatabaseFile) : IO (Except (List String) Store) := do
  match ← readStore file with
  | .error reasons => return .error reasons
  | .ok store =>
    match ← attempt (saveStore file store) with
    | .error fault =>
      return .error [s!"unable to open database file: {file.path}", fault.message]
    | .ok () => return .ok store

def host : Host IO where
  readBytes path := attempt (ByteArray.toList <$> IO.FS.readBinFile path)
  writeText path text := attempt (IO.FS.writeFile path text)
  makeFolder path := attempt (IO.FS.createDirAll path)
  openStore := openStore
  saveStore := saveStore
  closeStore _ := pure ()
  readInput := do return (← (← IO.getStdin).readBinToEnd).toList
  notify notice := IO.eprintln notice

def environment : IO Environment := do
  return {
    dataDir := ← IO.getEnv "CXG_DATA_DIR"
    home := ← IO.getEnv "HOME"
    userProfile := ← IO.getEnv "USERPROFILE"
    config := ← IO.getEnv "CXG_CONFIG" }

end Constructicon.Program

def main (arguments : List String) : IO UInt32 := do
  let environment ← Constructicon.Program.environment
  let outcome ← Constructicon.Command.run Constructicon.Program.host environment arguments
  IO.print outcome.output
  IO.eprint outcome.errors
  return outcome.code.toUInt32
