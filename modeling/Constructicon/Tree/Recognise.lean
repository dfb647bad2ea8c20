import Constructicon.Tree

/-! Trees read back from a log. Every completion has a tree: its children are the firings on its
chain of causes, oldest first, and the firing of a reference stands for the tree of the
completion that it consumed. A log whose causes run in a circle has no trees. -/
namespace Constructicon

/-- Which trees to return; `limit` counts what the other conditions leave. -/
structure Query where
  pattern : Option String := none
  limit : Option Nat := none
  maximalOnly : Bool := false
  minSpan : Nat := 0
  deriving DecidableEq

namespace Log

/-- Of several events with one id the last counts. -/
def lookup (log : List Event) (id : Nat) : Option Event :=
  (log.filter (·.id = id)).getLast?

/-- The firings on a chain of causes, oldest first. A chain ends where a cause is missing or
unknown; one with more than `bound` firings is given up. -/
def chain (log : List Event) (bound : Nat) (cause : Option Nat) : Option (List Event) :=
  match cause.bind (lookup log), bound with
  | none, _ => some []
  | some _, 0 => none
  | some fire, n + 1 => (chain log n fire.cause).map (· ++ [fire])

end Log

namespace Recognition

def withEvent (recognitions : List Recognition) (id : Nat) : Option Recognition :=
  (recognitions.filter (·.span.event = id)).getLast?

/-- What a firing contributes, given the trees of the completions before it. -/
def child (earlier : List Recognition) (fire : Event) : Tree :=
  match fire.subEvent.bind (withEvent earlier) with
  | some recognition => recognition.tree
  | none =>
    .terminal
      { elementType := fire.elementType.getD ""
        elementValue := fire.elementValue.getD ""
        position := fire.time
        node := fire.node }

def assemble (log : List Event) (earlier : List Recognition) (completion : Event) :
    Option Recognition :=
  (Log.chain log log.length completion.cause).map fun fires =>
    { span :=
        { pattern := completion.pattern
          start := completion.start
          finish := completion.time
          event := completion.id }
      children := fires.map (child earlier) }

def ofLog (log : List Event) : Option (List Recognition) :=
  (log.filter (·.kind = .complete)).foldlM (fun earlier completion =>
    (assemble log earlier completion).map fun tree => earlier ++ [tree]) []

/-- The completions that a tree consumed at its very end. -/
def coveredBy (recognition : Recognition) : List Nat :=
  (recognition.children.filterMap Tree.span?).filterMap fun span =>
    if span.finish = recognition.span.finish then some span.event else none

/-- The trees that no tree has consumed at its very end. -/
def roots (recognitions : List Recognition) : List Recognition :=
  let covered := recognitions.flatMap coveredBy
  recognitions.filter (·.span.event ∉ covered)

/-- The trees that are nested in no other. -/
def maximal (recognitions : List Recognition) : List Recognition :=
  let nested := recognitions.flatMap descendants
  recognitions.filter (·.span.event ∉ nested)

end Recognition

def Query.select (query : Query) (recognitions : List Recognition) : List Recognition :=
  let roots := Recognition.roots recognitions
  let kept := if query.maximalOnly then Recognition.maximal roots else roots
  let long := kept.filter fun recognition =>
    query.pattern.all (recognition.span.pattern = ·) ∧ query.minSpan ≤ recognition.span.length
  match query.limit with
  | none => long
  | some limit => long.take limit

end Constructicon
