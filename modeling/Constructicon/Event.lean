/-! The log of a session. Every entry points back: a firing to the firing before it in the same
instance of its pattern, a completion to the firing that reached the end, and the firing of a
reference also to the completion that it consumed. -/
namespace Constructicon

structure Token where
  elementType : String
  value : String
  deriving DecidableEq

inductive EventKind where
  | fire | complete
  deriving DecidableEq

/-- `start` is the tick of the first token of the pattern instance. -/
structure Event where
  id : Nat
  time : Nat
  start : Nat
  pattern : String
  node : String
  kind : EventKind
  elementType : Option String := none
  elementValue : Option String := none
  cause : Option Nat := none
  subEvent : Option Nat := none
  deriving DecidableEq

end Constructicon
