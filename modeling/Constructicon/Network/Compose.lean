import Constructicon.Network

/-! Building networks. Batch composition places every pattern before it links the references,
so patterns may refer to one another in any order; a pattern that is attached later may refer
only to patterns that are already there and to itself. A refused pattern leaves no trace. -/
namespace Constructicon

def qualified (pattern localId : String) : String := s!"{pattern}::{localId}"

def Edge.linkKind (edge : Edge String) : LinkKind :=
  if edge.bypass then .bypass else .sequence

namespace Network

def siteOf (automaton : Automaton) (owner : Nat) (key : String) (node : Node) : Site :=
  { key := qualified automaton.name key
    role := node.kind.role
    pattern := some owner
    localId := key
    elementType := node.elementType
    elementValue := node.elementValue
    reference := node.reference }

def patternSite (automaton : Automaton) (owner : Nat) : Site :=
  { key := qualified "PATTERN" automaton.name
    role := .pattern
    pattern := some owner
    localId := automaton.name }

/-- Places an automaton after everything else: its nodes in key order, its pattern node, its
edges in their order and, if there is a shared entry `hub`, the link from there. -/
def join (network : Network) (hub : Option Nat) (automaton : Automaton) : Network :=
  let owner := network.members.length
  let place (key : String) := network.sites.length + automaton.nodes.keys.idxOf key
  let start := place automaton.start
  let finish := place automaton.finish
  let patternNode := network.sites.length + automaton.nodes.size
  let inner := automaton.edges.map fun edge =>
    { source := place edge.source, target := place edge.target, kind := edge.linkKind : Link }
  let entry := hub.toList.map fun node => { source := node, target := start, kind := .entry : Link }
  let grown : Network :=
    { network with
      sites := network.sites
        ++ automaton.nodes.entries.map (fun (key, node) => siteOf automaton owner key node)
        ++ [patternSite automaton owner]
      links := network.links ++ inner
        ++ [{ source := finish, target := patternNode, kind := .completion }] ++ entry }
  let opening := grown.closureFrom [start]
  { grown with
    members := network.members ++
      [{ name := automaton.name, start, finish, patternNode
         entryNodes := opening.elements, acceptsEmpty := opening.reachesEnd }] }

def embed (hub : Option Nat) (network : Network) (automaton : Automaton) :
    Except Error Network :=
  if network.has automaton.name then .error (.duplicatePattern automaton.name)
  else .ok (network.join hub automaton)

def withGlobalStart (network : Network) : Network :=
  match network.globalStart? with
  | some _ => network
  | none =>
    { network with
      sites := network.sites ++
        [{ key := "GLOBAL_START", role := .globalStart, pattern := none
           localId := "GLOBAL_START" }] }

def referenceLink (network : Network) (automaton : Automaton) (key reference : String) :
    Except Error (List Link) :=
  match network.member? reference with
  | none => .error (.unknownReference automaton.name key reference)
  | some member =>
    .ok ((network.find? automaton.name key).toList.map fun node =>
      { source := member.patternNode, target := node, kind := .constructionRef })

def linkReferences (network : Network) (automaton : Automaton) : Except Error Network := do
  let links ← automaton.references.mapM fun (key, reference) =>
    network.referenceLink automaton key reference
  return { network with links := network.links ++ links.flatten }

/-- One network with a shared entry, in the given registration order. -/
def compose (automata : List Automaton) : Except Error Network := do
  let hub := withGlobalStart {}
  let placed ← automata.foldlM (embed hub.globalStart?) hub
  automata.foldlM linkReferences placed

def isolated (automata : List Automaton) : Except Error Network :=
  automata.foldlM (embed none) {}

/-- Adds one pattern to a network in use. -/
def attach (network : Network) (automaton : Automaton) (composing : Bool) :
    Except Error Network :=
  if network.has automaton.name then .error (.duplicatePattern automaton.name)
  else if composing then do
    refuse (automaton.references.find? fun (_, reference) =>
        reference ≠ automaton.name ∧ network.has reference = false)
      fun (key, reference) => .unknownReference automaton.name key reference
    let network := network.withGlobalStart
    (network.join network.globalStart? automaton).linkReferences automaton
  else .ok (network.join none automaton)

end Network

namespace Grammar

def network (grammar : Grammar) : Except Error Network := do
  Network.compose (← grammar.compile)

end Grammar

end Constructicon
