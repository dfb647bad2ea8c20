import Constructicon.Table

/-! Patterns as they are declared: a named graph whose elements each consume one token or, as a
reference, one recognition of another pattern. Nothing is checked here; a grammar may name
patterns that it does not hold and a pattern may have no way from its start to its end. -/
namespace Constructicon

inductive NodeKind where
  | start | finish | element | routing
  deriving DecidableEq, Inhabited

structure Node where
  kind : NodeKind
  elementType : Option String := none
  elementValue : Option String := none
  deriving DecidableEq, Inhabited

/-- A bypass edge lets a listener pass over the element it leaves. -/
structure Edge (ν : Type) where
  source : ν
  target : ν
  bypass : Bool := false
  deriving DecidableEq

structure Pattern where
  name : String
  nodes : Table Node
  edges : List (Edge String)
  deriving DecidableEq

/-- The patterns by name; name order settles every tie. -/
abbrev Grammar := Table Pattern

/-- The element type of a reference, whose element value names the pattern it stands for. -/
def referenceType : String := "CONSTRUCTION_REF"

namespace Node

def consuming (elementType : String) : Node := { kind := .element, elementType := some elementType }

def referring (pattern : String) : Node :=
  { kind := .element, elementType := some referenceType, elementValue := some pattern }

/-- The pattern an element stands for, if it is a reference that names one. -/
def reference (node : Node) : Option String :=
  if node.kind = .element ∧ node.elementType = some referenceType then node.elementValue else none

/-- The token type an element consumes; a reference consumes the name of its pattern. -/
def matchType (node : Node) : Option String :=
  if node.kind = .element then node.reference <|> node.elementType else none

/-- An element type, or a pattern's name after an at sign. -/
def ofStep (step : String) : Node :=
  match step.toList with
  | '@' :: name => referring (String.ofList name)
  | _ => consuming step

end Node

namespace Edge

variable {ν : Type} [DecidableEq ν]

def leaving (edges : List (Edge ν)) (node : ν) : List (Edge ν) :=
  edges.filter (·.source = node)

/-- The nodes one edge away, each once, in the order of their first edges. -/
def successors (edges : List (Edge ν)) (node : ν) : List ν :=
  ((leaving edges node).map (·.target)).eraseDups

end Edge

namespace Pattern

def stepKey (position : Nat) : String := s!"e{position}"

/-- One element after another, under the keys `e0`, `e1`, … between `start` and `end`. -/
def sequence (name : String) (steps : List String) : Pattern :=
  let keys := (List.range steps.length).map stepKey
  let route := "start" :: keys ++ ["end"]
  { name
    nodes := Table.ofList <|
      [("start", { kind := .start }), ("end", { kind := .finish })] ++
        keys.zip (steps.map Node.ofStep)
    edges := (route.zip route.tail).map fun (source, target) => { source, target } }

/-- The names of the patterns that elements refer to, each once, in ascending order. -/
def references (pattern : Pattern) : List String :=
  Table.distinct (pattern.nodes.values.filterMap Node.reference)

def keysOf (pattern : Pattern) (kind : NodeKind) : List String :=
  (pattern.nodes.entries.filter (·.2.kind = kind)).map (·.1)

end Pattern

namespace Grammar

/-- Of two patterns with one name the later counts. -/
def ofPatterns (patterns : List Pattern) : Grammar :=
  Table.ofList (patterns.map fun pattern => (pattern.name, pattern))

end Grammar

end Constructicon
