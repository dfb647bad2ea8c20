import Constructicon.Session

/-! One tick. The token fires the listeners that match it, pattern by pattern in registration
order; what completes is settled hop by hop, all completions of one depth before any of the
next. A completion feeds the references that wait where it starts, and these keep waiting for
other completions from there. -/
namespace Constructicon

/-- A node as reports name it. -/
structure Place where
  pattern : String
  node : String
  deriving DecidableEq

/-- What one tick brought about. Seeds are not reported. -/
structure Report where
  time : Nat
  firedNodes : List Place := []
  completedPatterns : List String := []
  newListeners : List Place := []
  deriving DecidableEq

def Report.isEmpty (report : Report) : Bool :=
  report.firedNodes.isEmpty && report.completedPatterns.isEmpty

/-- A completion to be settled: `cause` fired at `node`, from where the end is reached. The
path names the patterns that led here within the tick, oldest first. -/
structure Completion where
  pattern : Nat
  node : Nat
  start : Nat
  cause : Nat
  path : List String
  deriving DecidableEq

structure Tick where
  session : Session
  report : Report
  pending : List Completion := []
  deriving DecidableEq

namespace Session

def placeOf (session : Session) (node : Nat) : Place :=
  match session.network.sites[node]? with
  | none => ⟨"", ""⟩
  | some site => ⟨session.network.ownerName site.pattern, site.localId⟩

def record (session : Session) (time start node : Nat) (kind : EventKind)
    (elementType elementValue : Option String) (cause subEvent : Option Nat) : Session :=
  let place := session.placeOf node
  { session with
    log := session.log.push
      { id := session.log.size, time, start, pattern := place.pattern, node := place.node, kind,
        elementType, elementValue, cause, subEvent } }

def noteFiring (session : Session) (node time : Nat) (value : Option String) : Session :=
  { session with firings := session.firings.push (node, ⟨time, value⟩) }

def roleOf (session : Session) (node : Nat) : Option Role :=
  (session.network.sites[node]?).map (·.role)

def consumesTokens (session : Session) (node : Nat) : Bool :=
  (session.network.sites[node]?).any fun site =>
    site.role = .element ∧ (site.reference = none ∨ session.mode = .isolated)

/-- Whether the token at `tick` fires or supersedes a listener. -/
def isDue (session : Session) (tick : Nat) (listener : Listener) : Bool :=
  session.consumesTokens listener.node ∧ listener.readyAt ≤ tick

def matchTypeOf (session : Session) (node : Nat) : Option String :=
  (session.network.sites[node]?).bind Site.matchType

/-- The listeners that the token fires, pattern by pattern, each pattern's in planting order. -/
def matching (session : Session) (tick : Nat) (elementType : String) : List Listener :=
  let due := session.active.filter fun listener =>
    session.isDue tick listener ∧ session.matchTypeOf listener.node = some elementType
  (List.range session.network.members.length).flatMap fun pattern =>
    due.filter (·.pattern = pattern)

def withoutDue (session : Session) (tick : Nat) : Session :=
  { session with active := session.active.filter fun listener => ¬ session.isDue tick listener }

def waitingAt (session : Session) (node position : Nat) : List Listener :=
  session.active.filter fun listener => listener.node = node ∧ listener.readyAt = position

end Session

namespace Tick

/-- Plants a listener that continues an instance after a firing. -/
def continueAt (pattern start origin : Nat) (tick : Tick) (node : Nat) : Tick :=
  { tick with
    session := tick.session.plant pattern node (tick.report.time + 1) (some start) (some origin)
    report := { tick.report with
      newListeners := tick.report.newListeners ++ [tick.session.placeOf node] } }

/-- Notes a firing in the history of its node; the report lists elements only. -/
def note (tick : Tick) (node : Nat) (value : Option String) : Tick :=
  { tick with
    session := tick.session.noteFiring node tick.report.time value
    report := { tick.report with
      firedNodes := tick.report.firedNodes ++
        if tick.session.roleOf node = some .element then [tick.session.placeOf node] else [] } }

/-- Moves an instance on after `listener` fired as event `origin`. -/
def advance (tick : Tick) (listener : Listener) (origin start : Nat) (path : List String) : Tick :=
  let closure := tick.session.network.closureAfter listener.node
  let moved := closure.elements.foldl (continueAt listener.pattern start origin) tick
  if closure.reachesEnd then
    { moved with
      pending := moved.pending ++
        [{ pattern := listener.pattern, node := listener.node, start, cause := origin, path }] }
  else moved

/-- Fires a listener at what begins at `position`: a token or, with `subEvent`, a completion. -/
def fire (tick : Tick) (listener : Listener) (position : Nat) (elementType value : String)
    (subEvent : Option Nat) (path : List String) : Tick :=
  let start := listener.start.getD position
  let origin := tick.session.log.size
  let recorded := { tick with
    session := tick.session.record tick.report.time start listener.node .fire
      (some elementType) (some value) listener.origin subEvent }
  (recorded.note listener.node (some value)).advance listener origin start
    (path ++ [tick.session.network.ownerName (some listener.pattern)])

def fireToken (token : Token) (tick : Tick) (listener : Listener) : Tick :=
  tick.fire listener tick.report.time token.elementType token.value none []

def complete (tick : Tick) (done : Completion) : Tick :=
  match tick.session.network.members[done.pattern]? with
  | none => tick
  | some member =>
    let event := tick.session.log.size
    let recorded := { tick with
      session := tick.session.record tick.report.time done.start member.finish .complete
        none none (some done.cause) none }
    let noted := recorded.note member.finish none
    let told := { noted with
      report := { noted.report with
        completedPatterns := noted.report.completedPatterns ++ [member.name] } }
    match tick.session.mode with
    | .isolated => told
    | .unified =>
      (tick.session.network.refTargets member).foldl (fun t target =>
        (t.session.waitingAt target done.start).foldl (fun t listener =>
          t.fire listener done.start referenceType member.name (some event) done.path) t) told

/-- Settles the pending completions, depth by depth, for at most `depths` depths. What is still
pending then lies deeper. -/
def settle (depths : Nat) (tick : Tick) : Tick :=
  match depths, tick.pending with
  | _, [] => tick
  | 0, _ :: _ => tick
  | n + 1, pending => settle n (pending.foldl complete { tick with pending := [] })

end Tick

namespace Session

def tick (session : Session) (token : Token) : Tick :=
  let now := session.time + 1
  let seeded := match session.mode with
    | .isolated => session
    | .unified => session.seedAll now
  let opened : Tick := { session := seeded.withoutDue now, report := { time := now } }
  ((seeded.matching now token.elementType).foldl (Tick.fireToken token) opened).settle
    (session.limits.maxCascadeDepth + 1)

/-- Consumes one token. `sweep` may drop listeners once the tick is over. A cascade that runs
too deep aborts the session, which then refuses every further token. -/
def feedWith (sweep : Session → Session) (session : Session) (token : Token) :
    Except Error Report × Session :=
  if session.aborted then (.error (.aborted session.time), session)
  else
    let tick := session.tick token
    let after := { tick.session with time := tick.report.time }
    match tick.pending with
    | [] => (.ok tick.report, sweep after)
    | deepest :: _ =>
      let node := ((session.network.sites[deepest.node]?).map (·.localId)).getD ""
      (.error (.compositionCycle tick.report.time (deepest.path.length - 1) node deepest.path),
        { after with aborted := true })

end Session

end Constructicon
