import Constructicon.Storage
import Constructicon.Store

/-! What a command needs of the machine that it runs on: text files, folders, pattern databases,
one stream of input and a way to tell what it notices. -/
namespace Constructicon

/-- Why a file or a folder cannot be used. -/
inductive FileFault where
  | missing | notFolder | isFolder | occupied | full | nameTooLong | notUtf8
  | other (reason : String)
  deriving DecidableEq

def FileFault.message : FileFault → String
  | missing => "No such file or directory (os error 2)"
  | notFolder => "Not a directory (os error 20)"
  | isFolder => "Is a directory (os error 21)"
  | occupied => "File exists (os error 17)"
  | full => "No space left on device (os error 28)"
  | nameTooLong => "File name too long (os error 36)"
  | notUtf8 => "stream did not contain valid UTF-8"
  | other reason => reason

structure Host (m : Type → Type) where
  readBytes : String → m (Except FileFault (List UInt8))
  writeText : String → String → m (Except FileFault Unit)
  /-- Makes a folder and those above it, as far as they are missing. -/
  makeFolder : String → m (Except FileFault Unit)
  /-- Takes a database into use, or tells why it cannot, outermost cause first. -/
  openStore : DatabaseFile → m (Except (List String) Store)
  saveStore : DatabaseFile → Store → m Unit
  closeStore : DatabaseFile → m Unit
  readInput : m (List UInt8)
  notify : String → m Unit

end Constructicon
