import Constructicon.Automaton

/-! Many automata in one graph. Every pattern keeps its own nodes under its name and gains a
pattern node that stands for its completion; in a composed network one shared node enters every
pattern, and completions lead to the elements that refer to them. Listeners move along the
inner links only, so closures never leave their pattern. -/
namespace Constructicon

inductive Role where
  | globalStart | start | finish | element | routing | pattern
  deriving DecidableEq

def Role.kind : Role → NodeKind
  | globalStart | start => .start
  | finish | pattern => .finish
  | element => .element
  | routing => .routing

def NodeKind.role : NodeKind → Role
  | start => .start
  | finish => .finish
  | element => .element
  | routing => .routing

inductive LinkKind where
  | sequence | bypass | entry | completion | constructionRef
  deriving DecidableEq

structure Link where
  source : Nat
  target : Nat
  kind : LinkKind
  deriving DecidableEq

def Link.inner? (link : Link) : Option (Edge Nat) :=
  match link.kind with
  | .sequence => some { source := link.source, target := link.target }
  | .bypass => some { source := link.source, target := link.target, bypass := true }
  | _ => none

/-- `pattern` is the owner's place in registration order; the shared entry has no owner. -/
structure Site where
  key : String
  role : Role
  pattern : Option Nat
  localId : String
  elementType : Option String := none
  elementValue : Option String := none
  reference : Option String := none
  deriving DecidableEq

/-- The token type a node consumes; a reference consumes the name of its pattern. -/
def Site.matchType (site : Site) : Option String :=
  if site.role = .element then site.reference <|> site.elementType else none

/-- A registered pattern: its places in the network and where its listeners begin. -/
structure Member where
  name : String
  start : Nat
  finish : Nat
  patternNode : Nat
  entryNodes : List Nat
  acceptsEmpty : Bool
  deriving DecidableEq

structure Network where
  sites : List Site := []
  links : List Link := []
  members : List Member := []
  deriving DecidableEq

namespace Network

def kindOf (network : Network) (node : Nat) : NodeKind :=
  ((network.sites[node]?).map (·.role.kind)).getD .routing

def outgoing (network : Network) (node : Nat) : List Link :=
  network.links.filter (·.source = node)

def inner (network : Network) : List (Edge Nat) :=
  network.links.filterMap Link.inner?

def closureFrom (network : Network) (seeds : List Nat) : Closure Nat :=
  closure network.kindOf network.inner seeds

/-- Where listeners wait once `node` has fired. -/
def closureAfter (network : Network) (node : Nat) : Closure Nat :=
  network.closureFrom (Edge.successors network.inner node)

def memberIndex? (network : Network) (name : String) : Option Nat :=
  network.members.findIdx? (·.name = name)

def member? (network : Network) (name : String) : Option Member :=
  network.members.find? (·.name = name)

def has (network : Network) (name : String) : Bool :=
  network.members.any (·.name = name)

def globalStart? (network : Network) : Option Nat :=
  network.sites.findIdx? (·.role = .globalStart)

/-- The last node with this qualified key; pattern nodes are not found by key. -/
def findKey? (network : Network) (key : String) : Option Nat :=
  ((List.range network.sites.length).filter fun i =>
    (network.sites[i]?).any fun site => site.key = key ∧ site.role ≠ .pattern).getLast?

def find? (network : Network) (pattern localId : String) : Option Nat := do
  let owner ← network.memberIndex? pattern
  network.sites.findIdx? fun site =>
    site.pattern = some owner ∧ site.localId = localId ∧ site.role ≠ .pattern

/-- The elements that completions of a pattern feed, in the order in which they were linked. -/
def refTargets (network : Network) (member : Member) : List Nat :=
  ((network.outgoing member.patternNode).filter (·.kind = .constructionRef)).map (·.target)

def ownerName (network : Network) (owner : Option Nat) : String :=
  ((owner.bind (network.members[·]?)).map (·.name)).getD ""

end Network

end Constructicon
