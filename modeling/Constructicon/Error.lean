/-! Why a pattern, a grammar or a session is refused, and in which words. -/
namespace Constructicon

/-- What keeps a pattern from being compiled. -/
inductive Defect where
  | missingStart
  | duplicateStart (keys : List String)
  | missingEnd
  | duplicateEnd (keys : List String)
  | danglingEdge (source target : String)
  | unreachable (key : String)
  | deadEnd (key : String)
  | missingReference (key : String)
  deriving DecidableEq

/-- A composition cycle is met when a cascade of completions within one tick runs deeper than
allowed: `node` is the element whose firing was one hop too many, in the last pattern of `path`. -/
inductive Error where
  | malformed (pattern : String) (defect : Defect)
  | unknownReference (pattern node reference : String)
  | duplicatePattern (name : String)
  | compositionCycle (time depth : Nat) (node : String) (path : List String)
  | aborted (time : Nat)
  deriving DecidableEq

def Defect.message : Defect → String
  | missingStart => "no START node"
  | duplicateStart keys => "multiple START nodes: " ++ ", ".intercalate keys
  | missingEnd => "no END node"
  | duplicateEnd keys => "multiple END nodes: " ++ ", ".intercalate keys
  | danglingEdge source target => s!"edge {source} -> {target} references a missing node"
  | unreachable key => s!"node '{key}' is unreachable from START"
  | deadEnd key => s!"END is unreachable from node '{key}'"
  | missingReference key => s!"reference node '{key}' does not name a pattern"

def Error.message : Error → String
  | malformed pattern defect => s!"invalid pattern '{pattern}': {defect.message}"
  | unknownReference pattern node reference =>
    s!"pattern '{pattern}' node '{node}' references unknown pattern '{reference}'"
  | duplicatePattern name => s!"pattern '{name}' is already registered"
  | compositionCycle time depth node path =>
    s!"composition cycle at t={time} node '{node}': cascade depth {depth} ("
      ++ " -> ".intercalate path ++ ")"
  | aborted time => s!"parse session aborted at t={time}; start a new session"

end Constructicon
