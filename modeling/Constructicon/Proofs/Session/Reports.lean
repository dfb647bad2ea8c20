import Constructicon.Proofs.Session.History
import Mathlib.Data.List.Forall2

/-! What a tick appends and what it says of it. Every firing appends one event with one entry in
the history of its node and plants the listeners that follow; every completion appends one event
with one entry. The report tells the events and the listeners of the tick in order, so at any
moment the log, the histories, the arena and the report have moved on together. -/
namespace Constructicon

/-- Where an event happened. -/
def Event.place (event : Event) : Place :=
  ⟨event.pattern, event.node⟩

/-- What the history of `node` keeps of an event: elements fire and ends complete. -/
structure Event.Noted (network : Network) (entry : Nat × Firing) (event : Event) : Prop where
  place : network.find? event.pattern event.node = some entry.1
  firing : entry.2 = ⟨event.time, event.elementValue⟩
  role : ∃ site, network.sites[entry.1]? = some site ∧
    site.role = match event.kind with
      | .fire => .element
      | .complete => .finish

namespace Tick
open Session

/-- What a tick went on to record and to plant, all of it told in the report. -/
structure Tells (before after : Tick) (events : List Event) (planted : List Listener) : Prop where
  network : after.session.network = before.session.network
  log : after.session.log.toList = before.session.log.toList ++ events
  arena : after.session.arena.toList = before.session.arena.toList ++ planted
  active : after.session.active = before.session.active ++ planted
  origin : ∀ listener ∈ planted, listener.origin.isSome = true
  firings : ∃ noted, after.session.firings.toList = before.session.firings.toList ++ noted ∧
    List.Forall₂ (Event.Noted before.session.network) noted events
  firedNodes : after.report.firedNodes = before.report.firedNodes ++
    (events.filter (·.kind = .fire)).map Event.place
  completedPatterns : after.report.completedPatterns = before.report.completedPatterns ++
    (events.filter (·.kind = .complete)).map (·.pattern)
  newListeners : after.report.newListeners = before.report.newListeners ++
    planted.map (before.session.placeOf ·.node)

variable {tokens : List Token} {tick : Tick}

theorem Tells.refl (tick : Tick) : tick.Tells tick [] [] := by
  constructor
  case firings => exact ⟨[], by simp, .nil⟩
  all_goals simp

theorem Tells.trans {before middle after : Tick} {events more : List Event}
    {planted further : List Listener} (first : before.Tells middle events planted)
    (second : middle.Tells after more further) :
    before.Tells after (events ++ more) (planted ++ further) := by
  have place : middle.session.placeOf = before.session.placeOf := by
    funext node
    simp only [placeOf, first.network]
  constructor
  case network => exact second.network.trans first.network
  case log => rw [second.log, first.log, List.append_assoc]
  case arena => rw [second.arena, first.arena, List.append_assoc]
  case active => rw [second.active, first.active, List.append_assoc]
  case origin =>
    intro listener member
    exact (List.mem_append.mp member).elim (first.origin listener) (second.origin listener)
  case firings =>
    obtain ⟨noted, same, facts⟩ := first.firings
    obtain ⟨later, same', facts'⟩ := second.firings
    rw [first.network] at facts'
    exact ⟨noted ++ later, by rw [same', same, List.append_assoc], List.rel_append facts facts'⟩
  case firedNodes => simp [second.firedNodes, first.firedNodes]
  case completedPatterns => simp [second.completedPatterns, first.completedPatterns]
  case newListeners => simp [second.newListeners, first.newListeners, place]

theorem tells_fire {listener : Listener} (position : Nat) (elementType value : String)
    (subEvent : Option Nat) (path : List String) (sound : tick.Sound tokens)
    (planted : listener ∈ tick.session.arena.toList) :
    tick.Tells (tick.fire listener position elementType value subEvent path)
      [tick.firing listener position elementType value subEvent]
      (tick.followers listener position) := by
  obtain ⟨site, here, role, _⟩ := (sound.grounded planted).2.site sound.session.network
  constructor
  case network => exact fire_network ..
  case log => exact fire_log ..
  case arena => exact fire_arena ..
  case active => exact fire_active ..
  case origin =>
    intro next member
    rw [(mem_listenersAt member).2.2.2.2]
    rfl
  case firings =>
    refine ⟨[(listener.node, ⟨tick.report.time, some value⟩)], by simp [fire_eq, grow], ?_⟩
    exact .cons ⟨(sound.place planted).2, rfl, site, here, role⟩ .nil
  case firedNodes =>
    have element : tick.session.roleOf listener.node = some .element := by simp [roleOf, here, role]
    simp [fire_eq, element, firing, Event.place]
  case completedPatterns => simp [fire_eq, firing]
  case newListeners =>
    have nodes : (tick.followers listener position).map (·.node) =
        (tick.session.network.closureAfter listener.node).elements := by
      have keys : (tick.followers listener position).map Listener.key = _ := keys_listenersAt ..
      simpa [Function.comp_def, Listener.key] using congrArg (List.map (·.2.1)) keys
    simp [fire_eq, ← nodes]

theorem tells_foldl_fire (path : List String) (listeners : List Listener) {position : Nat}
    {elementType value : String} {subEvent : Option Nat} (sound : tick.Sound tokens)
    (fed : ∀ listener ∈ listeners, listener ∈ tick.session.arena.toList ∧
      listener.readyAt = position ∧
      Fed tick.session tokens tick.report.time listener position elementType value subEvent) :
    ∃ events planted, tick.Tells (listeners.foldl (fun t listener =>
      t.fire listener position elementType value subEvent path) tick) events planted := by
  induction listeners generalizing tick with
  | nil => exact ⟨[], [], .refl tick⟩
  | cons first rest ih =>
    obtain ⟨planted, ready, now⟩ := fed first List.mem_cons_self
    have told := tells_fire position elementType value subEvent path sound planted
    obtain ⟨events, further, later⟩ := ih (sound_fire path sound planted ready now)
      fun listener member => by
        obtain ⟨planted, ready, later⟩ := fed listener (List.mem_cons_of_mem _ member)
        rw [fire_time, fire_arena]
        exact ⟨List.mem_append_left _ planted, ready, fed_fire path later⟩
    exact ⟨_, _, told.trans later⟩

theorem tells_tell {member : Member} {done : Completion} (sound : tick.session.network.Sound)
    (found : tick.session.network.members[done.pattern]? = some member) :
    tick.Tells (tick.tell member done) [tick.completing member done] [] := by
  obtain ⟨site, here, owned, role⟩ := (sound.placed _ _ found).finish
  have pattern := completing_pattern sound found
  constructor
  case network => rfl
  case log => exact tell_log ..
  case firings =>
    refine ⟨[(member.finish, ⟨tick.report.time, none⟩)], by simp [tell], ?_⟩
    exact .cons ⟨(find?_placeOf sound here owned (by simp [role])).2, rfl, site, here, role⟩ .nil
  case firedNodes => simp [tell, completing, roleOf, here, role]
  case completedPatterns => simp [tell, ← pattern, completing]
  all_goals simp [tell]

theorem tells_complete {done : Completion} (sound : tick.Sound tokens)
    (grounded : done.Grounded tick.session.network tick.session.log.toList tick.report.time) :
    ∃ events planted, tick.Tells (tick.complete done) events planted := by
  obtain ⟨member, found⟩ := grounded.member
  have told := tells_tell sound.session.network found
  cases mode : tick.session.mode with
  | isolated =>
    rw [complete_isolated found mode]
    exact ⟨_, _, told⟩
  | unified =>
    have early := (completing_grounded sound found grounded).2.2
    rw [complete_unified found mode early]
    obtain ⟨events, planted, later⟩ := tells_foldl_fire done.path _
      (sound_tell sound found grounded) (feedable_fed sound found grounded)
    exact ⟨_, _, told.trans later⟩

theorem tells_settle (depths : Nat) (sound : tick.Sound tokens) :
    ∃ events planted, tick.Tells (tick.settle depths) events planted := by
  refine (settle_induction (P := fun after => after.Sound tokens ∧
    ∃ events planted, tick.Tells after events planted) ?_ depths ⟨sound, [], [], .refl tick⟩).2
  intro middle done rest waits facts
  obtain ⟨sound, events, planted, first⟩ := facts
  have popped := sound.pop waits
  have grounded := sound.pending done (waits ▸ List.mem_cons_self)
  obtain ⟨more, further, second⟩ := tells_complete popped grounded
  -- what is pending is no part of what has been told
  have awaiting : tick.Tells { middle with pending := rest } events planted := { first with }
  exact ⟨sound_complete popped grounded, _, _, awaiting.trans second⟩

end Tick

namespace Session
open Tick

variable {tokens : List Token} {session : Session}

theorem tells_tick (token : Token) (sound : session.Sound tokens)
    (now : session.time = tokens.length) :
    ∃ events planted, session.opened.Tells (session.tick token) events planted := by
  have opened := sound_opened token sound now
  have fed := matching_fed token sound now
  obtain ⟨events, planted, fired⟩ := tells_foldl_fire [] _ opened fed
  obtain ⟨more, further, settled⟩ := tells_settle (session.limits.maxCascadeDepth + 1)
    (sound_foldl_fire [] _ opened fed)
  rw [tick_eq]
  exact ⟨_, _, fired.trans settled⟩

end Session

end Constructicon
