import Constructicon.Network

/-! The shape of a network in numbers, and the keys by which its nodes are known outside. -/
namespace Constructicon

structure Summary where
  patterns : Nat
  nodes : Nat
  /-- How many links there are of each kind, by the name of the kind. -/
  links : Table Nat
  entryNodes : Table (List String)
  /-- The patterns that can complete without a token, in registration order. -/
  emptyPatterns : List String
  deriving DecidableEq

def LinkKind.label : LinkKind → String
  | sequence => "sequence"
  | bypass => "bypass"
  | entry => "entry"
  | completion => "completion"
  | constructionRef => "constructionRef"

namespace Network

def linkCount (network : Network) (kind : LinkKind) : Nat :=
  (network.links.filter (·.kind = kind)).length

def keyOf (network : Network) (node : Nat) : String :=
  ((network.sites[node]?).map (·.key)).getD ""

def patternNodeKeys (network : Network) : Table String :=
  Table.ofList (network.members.map fun member => (member.name, network.keyOf member.patternNode))

def entryNodeKeys (network : Network) : Table (List String) :=
  Table.ofList (network.members.map fun member =>
    (member.name, member.entryNodes.map network.keyOf))

def summary (network : Network) : Summary :=
  { patterns := network.members.length
    nodes := network.sites.length
    links := Table.ofList <|
      [LinkKind.sequence, .bypass, .entry, .completion, .constructionRef].map fun kind =>
        (kind.label, network.linkCount kind)
    entryNodes := network.entryNodeKeys
    emptyPatterns := (network.members.filter (·.acceptsEmpty)).map (·.name) }

end Network

end Constructicon
