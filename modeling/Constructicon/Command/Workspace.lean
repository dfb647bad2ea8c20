import Constructicon.Command.Workspace.Database

/-! Running commands in a folder in memory. -/
namespace Constructicon

namespace Workspace

/-- Takes the workspace that an action leaves, or leaves it as it was if the action fails. -/
def attempt {ε α : Type} (action : Workspace → Except ε (α × Workspace)) :
    StateM Workspace (Except ε α) := do
  match action (← get) with
  | .error error => return .error error
  | .ok (value, workspace) => set workspace; return .ok value

def host : Host (StateM Workspace) where
  readBytes path := attempt (·.readBytes path)
  writeText path content := attempt fun workspace => ((), ·) <$> workspace.writeText path content
  makeFolder path := (makeFolder path).run
  openStore file := attempt (·.openStore file)
  saveStore _ store := modify (·.saveStore store)
  closeStore _ := modify closeStore
  readInput := modifyGet fun workspace =>
    (workspace.input.toUTF8.toList, { workspace with input := "" })
  notify notice := modify fun workspace =>
    { workspace with messages := workspace.messages ++ [.notice notice] }

end Workspace

end Constructicon
