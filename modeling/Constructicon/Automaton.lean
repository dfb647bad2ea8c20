import Constructicon.Closure
import Constructicon.Error

/-! Compiled patterns. Compilation refuses a pattern by its first defect, in the order: starts,
ends, references without a name, dangling edges, unreachable nodes, dead ends; of several nodes
the smallest key is reported, of several edges the first. -/
namespace Constructicon

/-- A compiled pattern: one start, one end, and elements that all have a type. -/
structure Automaton where
  name : String
  nodes : Table Node
  edges : List (Edge String)
  start : String
  finish : String
  deriving DecidableEq

namespace Automaton

def node? (automaton : Automaton) (key : String) : Option Node :=
  automaton.nodes.get? key

/-- Keys that the pattern lacks count as junctions. -/
def kindOf (automaton : Automaton) (key : String) : NodeKind :=
  ((automaton.node? key).map (·.kind)).getD .routing

def outgoing (automaton : Automaton) (key : String) : List (Edge String) :=
  Edge.leaving automaton.edges key

def successors (automaton : Automaton) (key : String) : List String :=
  Edge.successors automaton.edges key

def closureFrom (automaton : Automaton) (seeds : List String) : Closure String :=
  closure automaton.kindOf automaton.edges seeds

/-- Where listeners wait before the first token. -/
def entryClosure (automaton : Automaton) : Closure String :=
  automaton.closureFrom [automaton.start]

/-- Where listeners wait once the element `key` has consumed its token. -/
def closureAfter (automaton : Automaton) (key : String) : Closure String :=
  automaton.closureFrom (automaton.successors key)

def elements (automaton : Automaton) : List (String × Node) :=
  automaton.nodes.entries.filter (·.2.kind = .element)

def references (automaton : Automaton) : List (String × String) :=
  automaton.nodes.entries.filterMap fun (key, node) => node.reference.map (key, ·)

def arcs (automaton : Automaton) : List (String × String) :=
  automaton.edges.map fun edge => (edge.source, edge.target)

end Automaton

/-- An element without a type is a junction. -/
def Node.compiled (node : Node) : Node :=
  if node.kind = .element ∧ node.elementType = none then { node with kind := .routing } else node

def Node.isUnnamed (node : Node) : Bool :=
  node.kind = .element ∧ node.elementType = some referenceType ∧ node.elementValue = none

def refuse {α ε : Type} (found : Option α) (why : α → ε) : Except ε Unit :=
  match found with
  | none => .ok ()
  | some offender => .error (why offender)

def sole (keys : List String) (missing : Defect) (several : List String → Defect) :
    Except Defect String :=
  match keys with
  | [] => .error missing
  | [key] => .ok key
  | _ => .error (several keys)

namespace Pattern

/-- The automaton of a pattern with one start and one end, whether or not it is sound. -/
def draft (pattern : Pattern) (name start finish : String) : Automaton :=
  { name, start, finish, nodes := pattern.nodes.map Node.compiled, edges := pattern.edges }

def check (pattern : Pattern) (name : String) : Except Defect Automaton := do
  let start ← sole (pattern.keysOf .start) .missingStart .duplicateStart
  let finish ← sole (pattern.keysOf .finish) .missingEnd .duplicateEnd
  let draft := pattern.draft name start finish
  let keys := pattern.nodes.keys
  refuse (pattern.nodes.entries.find? (·.2.isUnnamed)) fun entry => .missingReference entry.1
  refuse (pattern.edges.find? fun edge => edge.source ∉ keys ∨ edge.target ∉ keys)
    fun edge => .danglingEdge edge.source edge.target
  refuse (keys.find? (· ∉ reach draft.arcs [start])) .unreachable
  refuse (keys.find? fun key => finish ∉ reach draft.arcs [key]) .deadEnd
  return draft

def compile (pattern : Pattern) (name : String) : Except Error Automaton :=
  (pattern.check name).mapError (.malformed name)

end Pattern

def Grammar.compile (grammar : Grammar) : Except Error (List Automaton) :=
  grammar.entries.mapM fun (name, pattern) => pattern.compile name

end Constructicon
