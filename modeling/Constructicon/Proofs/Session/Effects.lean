import Constructicon.Session.Sweep

/-! What the steps of a session change. Listeners are only ever appended, seeds and continuations
alike; a firing appends one event, the listeners that follow it and, at the end of a pattern, one
completion to be settled. A cascade settles one completion after another, first in first out. -/
namespace Constructicon

/-- What tells listeners apart: the firing they follow, their node and the tick they wait for. -/
def Listener.key (listener : Listener) : Option Nat × Nat × Nat :=
  (listener.origin, listener.node, listener.readyAt)

namespace Session

/-- Listeners planted at one time, with ids counted from `first`; a spot is a pattern and a node. -/
def listenersAt (first readyAt : Nat) (start origin : Option Nat) (spots : List (Nat × Nat)) :
    List Listener :=
  spots.mapIdx fun i spot =>
    { id := first + i, pattern := spot.1, node := spot.2, bornAt := readyAt - 1, readyAt, start,
      origin }

theorem listenersAt_cons (first readyAt : Nat) (start origin : Option Nat) (spot : Nat × Nat)
    (spots : List (Nat × Nat)) : listenersAt first readyAt start origin (spot :: spots) =
      { id := first, pattern := spot.1, node := spot.2, bornAt := readyAt - 1, readyAt, start,
        origin } :: listenersAt (first + 1) readyAt start origin spots := by
  simp only [listenersAt, List.mapIdx_cons, Nat.add_zero, Nat.add_assoc, Nat.add_comm 1]

theorem length_listenersAt (first readyAt : Nat) (start origin : Option Nat)
    (spots : List (Nat × Nat)) :
    (listenersAt first readyAt start origin spots).length = spots.length :=
  List.length_mapIdx

theorem listenersAt_append (first readyAt : Nat) (start origin : Option Nat)
    (some more : List (Nat × Nat)) : listenersAt first readyAt start origin (some ++ more) =
      listenersAt first readyAt start origin some ++
        listenersAt (first + some.length) readyAt start origin more := by
  simp only [listenersAt, List.mapIdx_append, Nat.add_assoc, Nat.add_comm some.length]

theorem getElem?_listenersAt {first readyAt i : Nat} {start origin : Option Nat}
    {spots : List (Nat × Nat)} {listener : Listener}
    (found : (listenersAt first readyAt start origin spots)[i]? = some listener) :
    listener.id = first + i ∧ (listener.pattern, listener.node) ∈ spots ∧
      listener.bornAt = readyAt - 1 ∧ listener.readyAt = readyAt ∧ listener.start = start ∧
      listener.origin = origin := by
  rw [listenersAt, List.getElem?_mapIdx] at found
  obtain ⟨spot, here, rfl⟩ := Option.map_eq_some_iff.mp found
  exact ⟨rfl, List.mem_of_getElem? here, rfl, rfl, rfl, rfl⟩

theorem mem_listenersAt {first readyAt : Nat} {start origin : Option Nat}
    {spots : List (Nat × Nat)} {listener : Listener}
    (member : listener ∈ listenersAt first readyAt start origin spots) :
    (listener.pattern, listener.node) ∈ spots ∧ listener.bornAt = readyAt - 1 ∧
      listener.readyAt = readyAt ∧ listener.start = start ∧ listener.origin = origin := by
  obtain ⟨i, found⟩ := List.mem_iff_getElem?.mp member
  exact (getElem?_listenersAt found).2

theorem keys_listenersAt (first readyAt : Nat) (start origin : Option Nat)
    (spots : List (Nat × Nat)) :
    (listenersAt first readyAt start origin spots).map Listener.key =
      spots.map fun spot => (origin, spot.2, readyAt) := by
  induction spots generalizing first with
  | nil => rfl
  | cons spot rest ih => rw [listenersAt_cons, List.map_cons, List.map_cons, ih]; rfl

theorem exists_listenersAt {first readyAt : Nat} {start origin : Option Nat}
    {spots : List (Nat × Nat)} {spot : Nat × Nat} (member : spot ∈ spots) :
    ∃ listener ∈ listenersAt first readyAt start origin spots,
      listener.pattern = spot.1 ∧ listener.node = spot.2 := by
  obtain ⟨i, found⟩ := List.mem_iff_getElem?.mp member
  have here : (listenersAt first readyAt start origin spots)[i]? = _ := List.getElem?_mapIdx
  rw [found] at here
  exact ⟨_, List.mem_of_getElem? here, rfl, rfl⟩

/-- A session with more listeners. -/
def grow (session : Session) (listeners : List Listener) : Session :=
  { session with
    arena := session.arena ++ listeners.toArray
    active := session.active ++ listeners }

theorem grow_nil (session : Session) : session.grow [] = session := by
  simp [grow]

theorem grow_grow (session : Session) (some more : List Listener) :
    (session.grow some).grow more = session.grow (some ++ more) := by
  simp [grow]

theorem foldl_plant (spots : List (Nat × Nat)) (session : Session) (readyAt : Nat)
    (start origin : Option Nat) :
    spots.foldl (fun s spot => s.plant spot.1 spot.2 readyAt start origin) session =
      session.grow (listenersAt session.arena.size readyAt start origin spots) := by
  induction spots generalizing session with
  | nil => exact (grow_nil session).symm
  | cons spot rest ih =>
    have planted : session.plant spot.1 spot.2 readyAt start origin =
        session.grow (listenersAt session.arena.size readyAt start origin [spot]) := by
      simp [plant, grow, listenersAt]
    rw [List.foldl_cons, ih, planted, grow_grow]
    have size : (session.grow (listenersAt session.arena.size readyAt start origin [spot])).arena.size =
        session.arena.size + 1 := by
      simp [grow, listenersAt]
    rw [size, listenersAt_cons _ _ _ _ spot rest]
    rfl

/-- Where the listeners of a pattern begin. -/
def openings (network : Network) (pattern : Nat) : List (Nat × Nat) :=
  ((network.members[pattern]?).map (·.entryNodes)).getD [] |>.map (pattern, ·)

theorem mem_openings {network : Network} {pattern : Nat} {spot : Nat × Nat} :
    spot ∈ openings network pattern ↔ spot.1 = pattern ∧
      ∃ member, network.members[pattern]? = some member ∧ spot.2 ∈ member.entryNodes := by
  obtain ⟨owner, node⟩ := spot
  cases found : network.members[pattern]? with
  | none => simp [openings, found]
  | some member =>
    simp only [openings, found, Option.map_some, Option.getD_some, List.mem_map, Prod.mk.injEq,
      Option.some.injEq, exists_eq_left']
    constructor
    · intro facts
      obtain ⟨_, entry, rfl, rfl⟩ := facts
      exact ⟨rfl, entry⟩
    · intro facts
      obtain ⟨rfl, entry⟩ := facts
      exact ⟨node, entry, rfl, rfl⟩

theorem seed_eq (session : Session) (readyAt pattern : Nat) : session.seed readyAt pattern =
    session.grow
      (listenersAt session.arena.size readyAt none none (openings session.network pattern)) := by
  unfold seed openings
  cases found : session.network.members[pattern]? with
  | none => exact (grow_nil session).symm
  | some member =>
    simp only [Option.map_some, Option.getD_some]
    rw [← foldl_plant, List.foldl_map]

theorem foldl_seed (patterns : List Nat) (session : Session) (readyAt : Nat) :
    patterns.foldl (fun s pattern => s.seed readyAt pattern) session = session.grow
      (listenersAt session.arena.size readyAt none none
        (patterns.flatMap (openings session.network))) := by
  induction patterns generalizing session with
  | nil => exact (grow_nil session).symm
  | cons pattern rest ih =>
    rw [List.foldl_cons, ih, seed_eq, grow_grow, List.flatMap_cons, listenersAt_append]
    simp [grow, length_listenersAt]

/-- The openings of all patterns, in registration order. -/
def allOpenings (network : Network) : List (Nat × Nat) :=
  (List.range network.members.length).flatMap (openings network)

theorem mem_allOpenings {network : Network} {spot : Nat × Nat} : spot ∈ allOpenings network ↔
    ∃ member, network.members[spot.1]? = some member ∧ spot.2 ∈ member.entryNodes := by
  simp only [allOpenings, List.mem_flatMap, List.mem_range, mem_openings]
  constructor
  · intro facts
    obtain ⟨pattern, _, rfl, member⟩ := facts
    exact member
  · intro facts
    obtain ⟨member, found, entry⟩ := facts
    exact ⟨spot.1, (List.getElem?_eq_some_iff.mp found).1, rfl, member, found, entry⟩

theorem seedAll_eq (session : Session) (readyAt : Nat) : session.seedAll readyAt = session.grow
    (listenersAt session.arena.size readyAt none none (allOpenings session.network)) :=
  foldl_seed _ session readyAt

end Session

namespace Tick
open Session

/-- The event by which `listener` fires. -/
def firing (tick : Tick) (listener : Listener) (position : Nat) (elementType value : String)
    (subEvent : Option Nat) : Event :=
  { id := tick.session.log.size, time := tick.report.time
    start := listener.start.getD position
    pattern := (tick.session.placeOf listener.node).pattern
    node := (tick.session.placeOf listener.node).node, kind := .fire
    elementType := some elementType, elementValue := some value, cause := listener.origin
    subEvent }

/-- The listeners that take over once `listener` has fired. -/
def followers (tick : Tick) (listener : Listener) (position : Nat) : List Listener :=
  listenersAt tick.session.arena.size (tick.report.time + 1)
    (some (listener.start.getD position)) (some tick.session.log.size)
    ((tick.session.network.closureAfter listener.node).elements.map (listener.pattern, ·))

/-- The completion that is reached by the firing of `listener`, if the end is. -/
def reached (tick : Tick) (listener : Listener) (position : Nat) (path : List String) :
    List Completion :=
  if (tick.session.network.closureAfter listener.node).reachesEnd then
    [{ pattern := listener.pattern, node := listener.node
       start := listener.start.getD position, cause := tick.session.log.size
       path := path ++ [tick.session.network.ownerName (some listener.pattern)] }]
  else []

theorem mem_reached {tick : Tick} {listener : Listener} {position : Nat} {path : List String}
    {done : Completion} : done ∈ tick.reached listener position path ↔
      (tick.session.network.closureAfter listener.node).reachesEnd = true ∧ done =
        { pattern := listener.pattern, node := listener.node
          start := listener.start.getD position, cause := tick.session.log.size
          path := path ++ [tick.session.network.ownerName (some listener.pattern)] } := by
  unfold reached
  split <;> simp_all

theorem foldl_continueAt (nodes : List Nat) (tick : Tick) (pattern start origin : Nat) :
    nodes.foldl (continueAt pattern start origin) tick =
      { tick with
        session := tick.session.grow (listenersAt tick.session.arena.size (tick.report.time + 1)
          (some start) (some origin) (nodes.map (pattern, ·)))
        report := { tick.report with
          newListeners := tick.report.newListeners ++ nodes.map tick.session.placeOf } } := by
  induction nodes generalizing tick with
  | nil => simp [listenersAt, grow]
  | cons node rest ih =>
    have place : (tick.continueAt pattern start origin node).session.placeOf =
        tick.session.placeOf := rfl
    rw [List.foldl_cons, ih, place]
    simp [continueAt, plant, grow, listenersAt_cons]

theorem advance_eq (tick : Tick) (listener : Listener) (origin start : Nat) (path : List String) :
    tick.advance listener origin start path =
      { session := tick.session.grow (listenersAt tick.session.arena.size (tick.report.time + 1)
          (some start) (some origin)
          ((tick.session.network.closureAfter listener.node).elements.map (listener.pattern, ·)))
        report := { tick.report with
          newListeners := tick.report.newListeners ++
            (tick.session.network.closureAfter listener.node).elements.map tick.session.placeOf }
        pending := tick.pending ++
          if (tick.session.network.closureAfter listener.node).reachesEnd then
            [{ pattern := listener.pattern, node := listener.node, start, cause := origin, path }]
          else [] } := by
  unfold advance
  simp only [foldl_continueAt]
  split <;> simp

theorem fire_eq (tick : Tick) (listener : Listener) (position : Nat) (elementType value : String)
    (subEvent : Option Nat) (path : List String) :
    tick.fire listener position elementType value subEvent path =
      { session := Session.grow
          { tick.session with
            log := tick.session.log.push
              (tick.firing listener position elementType value subEvent)
            firings := tick.session.firings.push
              (listener.node, ⟨tick.report.time, some value⟩) }
          (tick.followers listener position)
        report := { tick.report with
          firedNodes := tick.report.firedNodes ++
            if tick.session.roleOf listener.node = some .element then
              [tick.session.placeOf listener.node] else []
          newListeners := tick.report.newListeners ++
            (tick.session.network.closureAfter listener.node).elements.map tick.session.placeOf }
        pending := tick.pending ++ tick.reached listener position path } := by
  unfold fire
  rw [advance_eq]
  rfl

section Fire

variable (tick : Tick) (listener : Listener) (position : Nat) (elementType value : String)
  (subEvent : Option Nat) (path : List String)

@[simp] theorem fire_network : (tick.fire listener position elementType value subEvent
    path).session.network = tick.session.network := by rw [fire_eq]; rfl

@[simp] theorem fire_mode : (tick.fire listener position elementType value subEvent
    path).session.mode = tick.session.mode := by rw [fire_eq]; rfl

@[simp] theorem fire_time : (tick.fire listener position elementType value subEvent
    path).report.time = tick.report.time := by rw [fire_eq]

@[simp] theorem fire_consumesTokens : (tick.fire listener position elementType value subEvent
    path).session.consumesTokens = tick.session.consumesTokens := by rw [fire_eq]; rfl

@[simp] theorem fire_log : (tick.fire listener position elementType value subEvent
    path).session.log.toList =
      tick.session.log.toList ++ [tick.firing listener position elementType value subEvent] := by
  simp [fire_eq, grow]

@[simp] theorem fire_arena : (tick.fire listener position elementType value subEvent
    path).session.arena.toList =
      tick.session.arena.toList ++ tick.followers listener position := by
  simp [fire_eq, grow]

@[simp] theorem fire_active : (tick.fire listener position elementType value subEvent
    path).session.active = tick.session.active ++ tick.followers listener position := by
  simp [fire_eq, grow]

@[simp] theorem fire_pending : (tick.fire listener position elementType value subEvent
    path).pending = tick.pending ++ tick.reached listener position path := by
  simp [fire_eq]

end Fire

theorem foldl_fireToken (token : Token) (listeners : List Listener) (tick : Tick) :
    listeners.foldl (fireToken token) tick = listeners.foldl (fun t listener =>
      t.fire listener tick.report.time token.elementType token.value none []) tick := by
  generalize same : tick.report.time = time
  induction listeners generalizing tick with
  | nil => rfl
  | cons listener rest ih =>
    rw [List.foldl_cons, List.foldl_cons, fireToken, same]
    exact ih _ ((fire_time ..).trans same)

end Tick

namespace Session

/-- The session with the listeners that the next token may fire. -/
def seeded (session : Session) : Session :=
  match session.mode with
  | .isolated => session
  | .unified => session.seedAll (session.time + 1)

/-- The listeners planted for the next token. -/
def seeds (session : Session) : List Listener :=
  match session.mode with
  | .isolated => []
  | .unified => listenersAt session.arena.size (session.time + 1) none none
      (allOpenings session.network)

theorem mem_seeds {session : Session} {listener : Listener} (member : listener ∈ session.seeds) :
    listener.readyAt = session.time + 1 ∧ listener.start = none ∧ listener.origin = none := by
  unfold seeds at member
  split at member
  · cases member
  · exact (mem_listenersAt member).2.2

theorem seeded_eq (session : Session) : session.seeded = session.grow session.seeds := by
  unfold seeded seeds
  split
  · exact (grow_nil session).symm
  · exact seedAll_eq session _

/-- The tick of the next token before anything has fired. -/
def opened (session : Session) : Tick :=
  { session := session.seeded.withoutDue (session.time + 1)
    report := { time := session.time + 1 } }

section Opened

variable (session : Session)

theorem opened_eq : session.opened =
    { session := { session with
        arena := session.arena ++ session.seeds.toArray
        active := (session.active ++ session.seeds).filter fun listener =>
          ¬ session.isDue (session.time + 1) listener }
      report := { time := session.time + 1 } } := by
  rw [opened, seeded_eq]
  rfl

@[simp] theorem opened_network : session.opened.session.network = session.network := by
  rw [opened, seeded_eq]; rfl

@[simp] theorem opened_mode : session.opened.session.mode = session.mode := by
  rw [opened, seeded_eq]; rfl

@[simp] theorem opened_log : session.opened.session.log = session.log := by
  rw [opened, seeded_eq]; rfl

@[simp] theorem opened_arena :
    session.opened.session.arena.toList = session.arena.toList ++ session.seeds := by
  simp [opened, seeded_eq, withoutDue, grow]

@[simp] theorem opened_time : session.opened.report.time = session.time + 1 := rfl

@[simp] theorem opened_consumesTokens :
    session.opened.session.consumesTokens = session.consumesTokens := by
  rw [opened, seeded_eq]; rfl

@[simp] theorem opened_matchTypeOf : session.opened.session.matchTypeOf = session.matchTypeOf := by
  rw [opened, seeded_eq]; rfl

theorem opened_active : session.opened.session.active =
    (session.active ++ session.seeds).filter fun listener =>
      ¬ session.isDue (session.time + 1) listener := by
  rw [opened, seeded_eq]; rfl

theorem mem_opened {listener : Listener} : listener ∈ session.opened.session.active ↔
    (listener ∈ session.active ∨ listener ∈ session.seeds) ∧
      ¬ (session.consumesTokens listener.node = true ∧ listener.readyAt ≤ session.time + 1) := by
  rw [opened_active, List.mem_filter, List.mem_append]
  simp only [isDue, decide_eq_true_eq]

theorem seeded_matching (elementType : String) :
    session.seeded.matching (session.time + 1) elementType =
      (List.range session.network.members.length).flatMap fun pattern =>
        ((session.active ++ session.seeds).filter fun listener =>
          session.isDue (session.time + 1) listener ∧
            session.matchTypeOf listener.node = some elementType).filter (·.pattern = pattern) := by
  rw [seeded_eq]; rfl

theorem mem_seeded_matching {elementType : String} {listener : Listener} :
    listener ∈ session.seeded.matching (session.time + 1) elementType ↔
      (listener ∈ session.active ∨ listener ∈ session.seeds) ∧
      session.consumesTokens listener.node = true ∧ listener.readyAt ≤ session.time + 1 ∧
      session.matchTypeOf listener.node = some elementType ∧
      listener.pattern < session.network.members.length := by
  rw [seeded_matching]
  simp only [List.mem_flatMap, List.mem_range, List.mem_filter, isDue, decide_eq_true_eq,
    List.mem_append]
  constructor
  · intro facts
    obtain ⟨_, bound, ⟨active, due, agrees⟩, rfl⟩ := facts
    exact ⟨active, due.1, due.2, agrees, bound⟩
  · intro facts
    obtain ⟨active, consumes, ready, agrees, bound⟩ := facts
    exact ⟨_, bound, ⟨active, ⟨consumes, ready⟩, agrees⟩, rfl⟩

end Opened

theorem tick_eq (session : Session) (token : Token) : session.tick token =
    ((session.seeded.matching (session.time + 1) token.elementType).foldl (fun t listener =>
      t.fire listener (session.time + 1) token.elementType token.value none [])
      session.opened).settle (session.limits.maxCascadeDepth + 1) :=
  congrArg (Tick.settle _) (Tick.foldl_fireToken token _ session.opened)

theorem consumesTokens_iff {session : Session} {node : Nat} {site : Site}
    (found : session.network.sites[node]? = some site) : session.consumesTokens node = true ↔
      site.role = .element ∧ (site.reference = none ∨ session.mode = .isolated) := by
  simp [consumesTokens, found]

end Session

end Constructicon
