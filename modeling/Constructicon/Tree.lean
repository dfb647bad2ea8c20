import Constructicon.Event
import Constructicon.Text.Characters

/-! Parse trees. A construction spans ticks and has one child for each element it consumed: a
terminal for a token, a construction for a completion. -/
namespace Constructicon

/-- `position` is the tick of the token and `node` the element that consumed it. -/
structure Terminal where
  elementType : String
  elementValue : String
  position : Nat
  node : String
  deriving DecidableEq

/-- What is recognised where, and the completion that says so. -/
structure Span where
  pattern : String
  start : Nat
  finish : Nat
  event : Nat
  deriving DecidableEq

/-- The number of ticks covered. Ticks are counted in 64 bits, and so are their differences. -/
def Span.length (span : Span) : Nat :=
  (span.finish + 1 + UInt64.size - span.start) % UInt64.size

theorem Span.length_eq {span : Span} (ordered : span.start ≤ span.finish + 1)
    (bounded : span.finish + 1 - span.start < UInt64.size) :
    span.length = span.finish + 1 - span.start := by
  unfold Span.length
  simp only [UInt64.size] at *
  omega

inductive Tree where
  | terminal (terminal : Terminal)
  | construction (span : Span) (children : List Tree)

structure Recognition where
  span : Span
  children : List Tree

def Recognition.tree (recognition : Recognition) : Tree :=
  .construction recognition.span recognition.children

namespace Tree

def span? : Tree → Option Span
  | .terminal _ => none
  | .construction span _ => some span

mutual

def terminals : Tree → List Terminal
  | .terminal leaf => [leaf]
  | .construction _ children => terminalsOf children

def terminalsOf : List Tree → List Terminal
  | [] => []
  | tree :: rest => tree.terminals ++ terminalsOf rest

end

/-- The completions of the constructions among some trees. -/
def eventsOf (trees : List Tree) : List Nat :=
  trees.filterMap fun tree => tree.span?.map (·.event)

mutual

/-- The completions of every nested construction: those of the children first, then what lies
below them, the last child first. -/
def descendants : Tree → List Nat
  | .terminal _ => []
  | .construction _ children => eventsOf children ++ descendantsOf children

def descendantsOf : List Tree → List Nat
  | [] => []
  | tree :: rest => descendantsOf rest ++ tree.descendants

end

def indent (depth : Nat) : String :=
  String.ofList (List.replicate (2 * depth) ' ')

mutual

def render (depth : Nat) : Tree → String
  | .terminal t =>
    s!"{indent depth}{t.elementType} {Text.quoted t.elementValue} @{t.position}\n"
  | .construction span children =>
    s!"{indent depth}{span.pattern} [{span.start}..{span.finish}]\n"
      ++ renderAll (depth + 1) children

def renderAll (depth : Nat) : List Tree → String
  | [] => ""
  | tree :: rest => tree.render depth ++ renderAll depth rest

end

end Tree

namespace Recognition

def terminals (recognition : Recognition) : List Terminal := recognition.tree.terminals

def descendants (recognition : Recognition) : List Nat := recognition.tree.descendants

def render (recognition : Recognition) : String := recognition.tree.render 0

end Recognition

end Constructicon
