import Constructicon.Pattern

/-! Looking patterns up by name. A library hands out the patterns it was given, and refuses a
request by the first name that it does not know. -/
namespace Constructicon

structure MissingPattern where
  name : String
  deriving DecidableEq

def MissingPattern.message (missing : MissingPattern) : String :=
  s!"pattern '{missing.name}' not found"

/-- The patterns under exactly these names. -/
def selectNames {ε : Type} (names : List String) (load : String → Except ε Pattern) :
    Except ε Grammar := do
  let found ← names.mapM fun name => (load name).map (name, ·)
  return Table.ofList found

structure Library where
  patterns : Grammar
  deriving DecidableEq

namespace Library

def ofPatterns (patterns : List Pattern) : Library := ⟨Grammar.ofPatterns patterns⟩

def insert (library : Library) (pattern : Pattern) : Library :=
  ⟨library.patterns.insert pattern.name pattern⟩

def load (library : Library) (name : String) : Except MissingPattern Pattern :=
  match library.patterns.get? name with
  | none => .error ⟨name⟩
  | some pattern => .ok pattern

def loadByNames (library : Library) (names : List String) : Except MissingPattern Grammar :=
  selectNames names library.load

def loadAll (library : Library) : Except MissingPattern Grammar :=
  .ok library.patterns

end Library

end Constructicon
