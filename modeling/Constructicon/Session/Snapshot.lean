import Constructicon.Session.Sweep
import Constructicon.Network.Summary
import Constructicon.Tree.Recognise

/-! What a session shows of itself: its log, its trees, and a snapshot that lists the active
listeners in planting order and, for each pattern, the elements that have fired and how often
the pattern has completed. -/
namespace Constructicon

structure ListenerView where
  id : Nat
  node : String
  elementType : Option String
  pattern : String
  readyAt : Nat
  start : Option Nat
  deriving DecidableEq

structure FiredNode where
  id : String
  elementType : Option String
  timestamps : List Nat
  deriving DecidableEq

structure PatternState where
  firedNodes : List FiredNode
  completions : Nat
  deriving DecidableEq

structure Snapshot where
  time : Nat
  activeListeners : List ListenerView
  patternStates : Table PatternState
  eventCount : Nat
  deriving DecidableEq

namespace Session

def events (session : Session) : List Event :=
  session.log.toList

/-- The causes of a session's events point back, so its log always has trees. -/
def results (session : Session) (query : Query) : List Recognition :=
  ((Recognition.ofLog session.events).map query.select).getD []

def timesFired (session : Session) (node : Nat) : List Nat :=
  (session.firings.toList.filter (·.1 = node)).map (·.2.time)

/-- The sites of the pattern at a place in registration order, with their own places. -/
def sitesOf (session : Session) (owner : Nat) : List (Nat × Site) :=
  (session.network.sites.mapIdx fun node site => (node, site)).filter (·.2.pattern = some owner)

def patternState (session : Session) (owner : Nat) : PatternState :=
  let fired := (session.sitesOf owner).map fun (node, site) => (site, session.timesFired node)
  { firedNodes := (fired.filter fun (site, times) => site.role ≠ .finish ∧ times ≠ []).map
      fun (site, times) =>
        { id := site.localId, elementType := site.matchType, timestamps := times }
    completions := ((fired.filter (·.1.role = .finish)).flatMap (·.2)).length }

def listenerView (session : Session) (listener : Listener) : ListenerView :=
  { id := listener.id
    node := session.network.keyOf listener.node
    elementType := session.matchTypeOf listener.node
    pattern := session.network.ownerName (some listener.pattern)
    readyAt := listener.readyAt
    start := listener.start }

def snapshot (session : Session) : Snapshot :=
  { time := session.time
    activeListeners := session.active.map session.listenerView
    patternStates := Table.ofList (session.network.members.mapIdx fun owner member =>
      (member.name, session.patternState owner))
    eventCount := session.log.size }

end Session

end Constructicon
