/-! Where the pattern database and the settings are found. Paths are joined as texts: a path
that begins with a slash stands alone, and no slash is put after nothing or after a slash. -/
namespace Constructicon

structure Environment where
  dataDir : Option String := none
  home : Option String := none
  userProfile : Option String := none
  config : Option String := none
  deriving DecidableEq

namespace Location

def join (base path : String) : String :=
  if path.startsWith "/" then path
  else if base.isEmpty || base.endsWith "/" then base ++ path
  else base ++ "/" ++ path

def filled (text : Option String) : Option String :=
  text.filter (!·.isEmpty)

/-- The folder named by the environment, else one below the home, else one right here. -/
def database (env : Environment) : String :=
  let folder := match filled env.dataDir with
    | some folder => folder
    | none => join ((env.home <|> env.userProfile).getD ".") ".cxg"
  join folder "patterns.db"

/-- The settings file that was asked for, else the one named by the environment, if any. -/
def settings (env : Environment) (asked : Option String) : Option String :=
  asked <|> filled env.config

end Location

end Constructicon
