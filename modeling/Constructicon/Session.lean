import Constructicon.Network.Compose
import Constructicon.Event

/-! The state of one recognition session. Listeners are never changed once planted: they are
active until they fire, are superseded or are swept away, and stay in the arena for good. Time
counts the tokens consumed, so the token being processed has the tick after it. -/
namespace Constructicon

/-- In isolated mode every pattern is seeded once and a reference consumes a token that bears
the name of its pattern. In unified mode every pattern is seeded anew at every tick and a
reference is fed by completions of its pattern. -/
inductive Mode where
  | isolated | unified
  deriving DecidableEq

/-- A marker awaiting one element at one node: a token consumed at tick `readyAt` or, for a
reference in unified mode, a completion that starts there. `start` and `origin` tell when the
instance consumed its first element and by which firing the marker was planted. -/
structure Listener where
  id : Nat
  pattern : Nat
  node : Nat
  bornAt : Nat
  readyAt : Nat
  start : Option Nat
  origin : Option Nat
  deriving DecidableEq

def Listener.anchor (listener : Listener) : Nat :=
  listener.start.getD listener.readyAt

structure Firing where
  time : Nat
  value : Option String
  deriving DecidableEq

structure Limits where
  /-- How many hops from pattern to pattern a cascade may take within one tick. -/
  maxCascadeDepth : Nat := 64
  deriving DecidableEq

structure Session where
  network : Network
  mode : Mode
  limits : Limits
  time : Nat := 0
  arena : Array Listener := #[]
  /-- In the order of planting. -/
  active : List Listener := []
  /-- Every firing of a node, with the node, in the order of firing. -/
  firings : Array (Nat × Firing) := #[]
  log : Array Event := #[]
  aborted : Bool := false
  deriving DecidableEq

namespace Session

def plant (session : Session) (pattern node readyAt : Nat) (start origin : Option Nat) : Session :=
  let listener : Listener :=
    { id := session.arena.size, pattern, node, bornAt := readyAt - 1, readyAt, start, origin }
  { session with
    arena := session.arena.push listener
    active := session.active ++ [listener] }

def seed (session : Session) (readyAt pattern : Nat) : Session :=
  match session.network.members[pattern]? with
  | none => session
  | some member =>
    member.entryNodes.foldl (fun s node => s.plant pattern node readyAt none none) session

def seedAll (session : Session) (readyAt : Nat) : Session :=
  (List.range session.network.members.length).foldl (fun s pattern => s.seed readyAt pattern)
    session

def start (network : Network) (mode : Mode) (limits : Limits) : Session :=
  let session : Session := { network, mode, limits }
  match mode with
  | .isolated => session.seedAll 1
  | .unified => session

def unified (network : Network) (limits : Limits) : Session :=
  start network .unified limits

/-- Each automaton on its own, anchored at the first token. -/
def isolated (automata : List Automaton) (limits : Limits) : Except Error Session := do
  return start (← Network.isolated automata) .isolated limits

def ofGrammar (grammar : Grammar) (limits : Limits) : Except Error Session := do
  return unified (← grammar.network) limits

def reset (session : Session) : Session :=
  start session.network session.mode session.limits

/-- Adds a pattern, which starts to match at the next token. In unified mode its references
are linked, but no pattern already there gains a reference to it. -/
def register (session : Session) (automaton : Automaton) : Except Error Session := do
  let network ← session.network.attach automaton (session.mode = .unified)
  let grown := { session with network }
  match session.mode with
  | .isolated => return grown.seed (session.time + 1) (network.members.length - 1)
  | .unified => return grown

def listener? (session : Session) (id : Nat) : Option Listener :=
  session.arena[id]?

/-- Every firing of a node, by its pattern's name and its key within the pattern. -/
def firingsOf (session : Session) (pattern node : String) : List Firing :=
  match session.network.find? pattern node with
  | none => []
  | some index => (session.firings.toList.filter (·.1 = index)).map (·.2)

end Session

end Constructicon
