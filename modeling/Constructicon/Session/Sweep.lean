import Constructicon.Session.Tick

/-! Sweeping away references whose wait is hopeless. An instance of a pattern is in flight at a
position when one of its listeners is anchored there; a reference that is due keeps waiting
only while the pattern it names is in flight where it waits. References that keep one another
waiting in a circle are in flight for nobody else, and go. -/
namespace Constructicon

namespace Session

/-- The pattern that the reference at `node` names, if the network has it. -/
def referenceOf (session : Session) (node : Nat) : Option (Option Nat) :=
  (session.network.sites[node]?).bind fun site =>
    site.reference.map session.network.memberIndex?

/-- Whether a listener is a reference that could already have been fed. -/
def isOverdue (session : Session) (listener : Listener) : Bool :=
  (session.referenceOf listener.node).isSome ∧ listener.readyAt ≤ session.time

/-- What an overdue listener waits for: its pattern in flight at a position. -/
def support? (session : Session) (listener : Listener) : Option (Nat × Nat) :=
  (session.referenceOf listener.node).join.map fun pattern => (pattern, listener.readyAt)

/-- The instances in flight, as patterns with positions. -/
def inFlight (session : Session) : List (Nat × Nat) :=
  let overdue := session.active.filter session.isOverdue
  let others := session.active.filter fun listener => ¬ session.isOverdue listener
  reach
    (overdue.filterMap fun listener =>
      (session.support? listener).map fun support => (support, (listener.pattern, listener.anchor)))
    (others.map fun listener => (listener.pattern, listener.anchor))

def sweep (session : Session) : Session :=
  let inFlight := session.inFlight
  { session with
    active := session.active.filter fun listener =>
      ¬ session.isOverdue listener ∨ (session.support? listener).any (· ∈ inFlight) }

/-- Sweeps in unified mode; in isolated mode references do not wait. -/
def sweepUnified (session : Session) : Session :=
  match session.mode with
  | .isolated => session
  | .unified => session.sweep

def feed (session : Session) (token : Token) : Except Error Report × Session :=
  session.feedWith sweepUnified token

def feedAll (session : Session) : List Token → Except Error (List Report) × Session
  | [] => (.ok [], session)
  | token :: rest =>
    match session.feed token with
    | (.error error, after) => (.error error, after)
    | (.ok report, after) =>
      match after.feedAll rest with
      | (.error error, final) => (.error error, final)
      | (.ok reports, final) => (.ok (report :: reports), final)

end Session

end Constructicon
