import Constructicon.Pattern
import Constructicon.Reach

/-! Where listeners come to wait without a token being consumed. A start or a junction is
left by every edge, an element by its bypass edges only, and an end by none. -/
namespace Constructicon

/-- The elements found, nearest first, and whether an end was found. -/
structure Closure (ν : Type) where
  elements : List ν
  reachesEnd : Bool
  deriving DecidableEq

variable {ν : Type} [DecidableEq ν]

/-- Whether an edge is passed without consuming a token. -/
def Edge.isSilent (kind : ν → NodeKind) (edge : Edge ν) : Bool :=
  match kind edge.source with
  | .start | .routing => true
  | .element => edge.bypass
  | .finish => false

def silentArcs (kind : ν → NodeKind) (edges : List (Edge ν)) : List (ν × ν) :=
  (edges.filter (·.isSilent kind)).map fun edge => (edge.source, edge.target)

def closure (kind : ν → NodeKind) (edges : List (Edge ν)) (seeds : List ν) : Closure ν :=
  let found := reach (silentArcs kind edges) seeds
  { elements := found.filter (kind · = .element)
    reachesEnd := found.any (kind · = .finish) }

end Constructicon
