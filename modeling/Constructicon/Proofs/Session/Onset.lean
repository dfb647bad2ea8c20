import Constructicon.Proofs.Network.Flat
import Constructicon.Proofs.Session.Parted
import Constructicon.Proofs.Session.Selection

/-! A unified session beside an isolated one that is opened later, over patterns without
references. The instances that begin with the next token are those with which the other is opened;
from then on both fire what belongs to these, in one order. Whatever else the unified session does,
for instances that began before or begin later, leaves these alone. -/
namespace Constructicon

open Network (Kept Twin Foreign Part)

namespace Tick.Onset

/-- A listener of an instance that began right after `since`, and its counterpart. -/
structure Mirrors (since : Nat) (whole part : Network) (log : List Event)
    (listener listener' : Listener) : Prop where
  twin : Twin (fun _ => true) whole part (listener.pattern, listener.node)
    (listener'.pattern, listener'.node)
  ready : listener.readyAt = listener'.readyAt + since
  start : listener.start = listener'.start.map (· + since)
  begun : listener.anchor = since + 1
  origin : (Selection.beginning (since + 1)).Cites log listener.origin listener'.origin

structure Settles (since : Nat) (whole part : Network) (log : List Event)
    (done done' : Completion) : Prop where
  kept : Kept (fun _ => true) whole part done.pattern done'.pattern
  start : done.start = done'.start + since
  begun : done.start = since + 1
  cause : (Selection.beginning (since + 1)).Cites log (some done.cause) (some done'.cause)

variable {since : Nat} {whole part : Network} {log : List Event}

theorem Mirrors.append {listener listener' : Listener}
    (mirrors : Mirrors since whole part log listener listener') (more : List Event) :
    Mirrors since whole part (log ++ more) listener listener' :=
  { mirrors with origin := mirrors.origin.append more }

theorem Settles.append {done done' : Completion} (settles : Settles since whole part log done done')
    (more : List Event) : Settles since whole part (log ++ more) done done' :=
  { settles with cause := settles.cause.append more }

theorem planted {spots spots' : List (Nat × Nat)} {readyAt readyAt' : Nat}
    {start start' origin origin' : Option Nat} (first first' : Nat)
    (excerpt : Excerpt (Foreign (fun _ => true) whole) (Twin (fun _ => true) whole part) spots spots')
    (ready : readyAt = readyAt' + since) (shifted : start = start'.map (· + since))
    (begun : start.getD readyAt = since + 1)
    (cites : (Selection.beginning (since + 1)).Cites log origin origin') :
    Excerpt (·.anchor ≠ since + 1) (Mirrors since whole part log)
      (Session.listenersAt first readyAt start origin spots)
      (Session.listenersAt first' readyAt' start' origin' spots') := by
  induction excerpt generalizing first first' with
  | nil => exact .nil
  | take twin _ ih =>
    rw [Session.listenersAt_cons, Session.listenersAt_cons]
    exact .take ⟨twin, ready, shifted, begun, cites⟩ (ih _ _)
  | skip foreign _ ih =>
    obtain ⟨_, _, _, outside, _⟩ := foreign
    cases outside

end Tick.Onset

namespace Tick
open Session

/-- What began right after `since` in the first tick, timed from there, is the second. -/
structure Onset (since : Nat) (whole part : Tick) : Prop where
  paired : whole.session.network.Paired part.session.network
  time : whole.report.time = part.report.time + since
  log : (Selection.beginning (since + 1)).Logs whole.session.log.toList part.session.log.toList
  active : Excerpt (·.anchor ≠ since + 1)
    (Onset.Mirrors since whole.session.network part.session.network whole.session.log.toList)
    whole.session.active part.session.active
  pending : Excerpt (·.start ≠ since + 1)
    (Onset.Settles since whole.session.network part.session.network whole.session.log.toList)
    whole.pending part.pending

namespace Onset

variable {since : Nat} {whole part : Tick} {listener listener' : Listener}

section Fire

variable {position position' : Nat} (elementType value : String) {subEvent subEvent' : Option Nat}
  (path path' : List String)

theorem fire (onset : Onset since whole part)
    (mirrors : Mirrors since whole.session.network part.session.network whole.session.log.toList
      listener listener')
    (shifted : position = position' + since) (ready : listener.readyAt = position)
    (cites : (Selection.beginning (since + 1)).Cites whole.session.log.toList subEvent subEvent') :
    Onset since (whole.fire listener position elementType value subEvent path)
      (part.fire listener' position' elementType value subEvent' path') := by
  obtain ⟨automata, parted⟩ := onset.paired.parted
  have begun : listener.start.getD position = since + 1 := by
    rw [← ready]
    exact mirrors.begun
  have start := getD_shifted mirrors.start shifted
  have time := onset.time
  obtain ⟨follow, ends⟩ := Part.after mirrors.twin
    (Foreign (fun _ => true) whole.session.network)
  have place := (placeOf_twin parted mirrors.twin).1
  have keeps : (Selection.beginning (since + 1)).keeps
      (whole.firing listener position elementType value subEvent) = true := by
    simp [Selection.beginning, firing, begun]
  have cited := onset.log.cites keeps
  rw [Array.length_toList, Array.length_toList] at cited
  constructor
  case paired =>
    rw [fire_network, fire_network]
    exact onset.paired
  case time => rw [fire_time, fire_time, time]
  case log =>
    rw [fire_log, fire_log]
    refine onset.log.record keeps ?_ (by simp [firing]) mirrors.origin cites
    simp [Selection.beginning, firing, place, time, start]
  case active =>
    rw [fire_active, fire_active, fire_network, fire_network, fire_log]
    refine Excerpt.append (onset.active.imp fun _ _ same => same.append _) ?_
    exact planted _ _ follow (by omega) (congrArg some start) begun cited
  case pending =>
    rw [fire_pending, fire_pending, fire_network, fire_network, fire_log]
    refine Excerpt.append (onset.pending.imp fun _ _ same => same.append _) ?_
    unfold reached
    rw [← ends]
    split
    · exact .take ⟨mirrors.twin.kept, start, begun, cited⟩ .nil
    · exact .nil

theorem fire_drop (onset : Onset since whole part) (other : listener.anchor ≠ since + 1)
    (ready : listener.readyAt = position) :
    Onset since (whole.fire listener position elementType value subEvent path) part := by
  have begun : listener.start.getD position ≠ since + 1 := by
    rw [← ready]
    exact other
  have lost : (Selection.beginning (since + 1)).keeps
      (whole.firing listener position elementType value subEvent) = false := by
    simp [Selection.beginning, firing, begun]
  constructor
  case paired =>
    rw [fire_network]
    exact onset.paired
  case time => rw [fire_time, onset.time]
  case log =>
    rw [fire_log]
    exact onset.log.skip lost
  case active =>
    rw [fire_active, fire_network, fire_log]
    refine Excerpt.append_nothing (onset.active.imp fun _ _ same => same.append _)
      fun next planted => ?_
    obtain ⟨_, _, _, start, _⟩ := mem_listenersAt planted
    rw [Listener.anchor, start]
    exact begun
  case pending =>
    rw [fire_pending, fire_network, fire_log]
    refine Excerpt.append_nothing (onset.pending.imp fun _ _ same => same.append _)
      fun done ends => ?_
    rw [(mem_reached.mp ends).2]
    exact begun

theorem foldl_fire {listeners listeners' : List Listener} (onset : Onset since whole part)
    (fired : Excerpt (·.anchor ≠ since + 1)
      (Mirrors since whole.session.network part.session.network whole.session.log.toList)
      listeners listeners')
    (shifted : position = position' + since)
    (ready : ∀ listener ∈ listeners, listener.readyAt = position) :
    Onset since
      (listeners.foldl (fun t listener =>
        t.fire listener position elementType value none path) whole)
      (listeners'.foldl (fun t listener =>
        t.fire listener position' elementType value none path') part) := by
  induction listeners generalizing whole part listeners' with
  | nil =>
    cases fired
    exact onset
  | cons first rest ih =>
    obtain ⟨here, later⟩ := List.forall_mem_cons.mp ready
    rw [List.foldl_cons]
    cases fired with
    | take mirrors others =>
      rw [List.foldl_cons]
      refine ih (onset.fire elementType value path path' mirrors shifted here (.none _)) ?_ later
      rw [fire_network, fire_network, fire_log]
      exact others.imp fun _ _ same => same.append _
    | skip other others =>
      refine ih (onset.fire_drop elementType value path other here) ?_ later
      rw [fire_network, fire_log]
      exact others.imp fun _ _ same => same.append _

end Fire

end Onset

theorem complete_flat {tick : Tick} {done : Completion} {member : Member}
    (flat : tick.session.network.Flat)
    (found : tick.session.network.members[done.pattern]? = some member) :
    tick.complete done = tick.tell member done := by
  cases mode : tick.session.mode with
  | isolated => exact complete_isolated found mode
  | unified =>
    simp only [complete, found, mode, flat.refTargets member]
    rfl

theorem settle_flat {tick : Tick} (flat : tick.session.network.Flat) (depths : Nat) :
    tick.settle (depths + 1) = tick.pending.foldl complete { tick with pending := [] } ∧
      (tick.settle (depths + 1)).pending = [] := by
  refine settle_once (fun t done same => ?_) depths
  rw [← network_of_frame same] at flat
  cases found : t.session.network.members[done.pattern]? with
  | none => rw [complete_none found]
  | some member =>
    rw [complete_flat flat found]
    rfl

namespace Onset

variable {since : Nat} {whole part : Tick} {done done' : Completion}

theorem complete (onset : Onset since whole part)
    (settles : Settles since whole.session.network part.session.network whole.session.log.toList
      done done') : Onset since (whole.complete done) (part.complete done') := by
  obtain ⟨automata, parted⟩ := onset.paired.parted
  obtain ⟨member, member', found, found', _, _, twin⟩ := Part.members settles.kept
  rw [complete_flat onset.paired.flat found, complete_flat onset.paired.flat' found']
  have place := (placeOf_twin parted twin).1
  have keeps : (Selection.beginning (since + 1)).keeps (whole.completing member done) = true := by
    simp [Selection.beginning, completing, settles.begun]
  refine ⟨onset.paired, onset.time, ?_, ?_, ?_⟩
  · rw [tell_log, tell_log]
    refine onset.log.record keeps ?_ (by simp [completing]) settles.cause (.none _)
    simp [Selection.beginning, completing, place, onset.time, settles.start]
  · rw [tell_log]
    exact onset.active.imp fun _ _ same => same.append _
  · rw [tell_log]
    exact onset.pending.imp fun _ _ same => same.append _

theorem complete_drop (onset : Onset since whole part) (other : done.start ≠ since + 1) :
    Onset since (whole.complete done) part := by
  cases found : whole.session.network.members[done.pattern]? with
  | none => rwa [complete_none found]
  | some member =>
    have lost : (Selection.beginning (since + 1)).keeps (whole.completing member done) = false := by
      simp [Selection.beginning, completing, other]
    rw [complete_flat onset.paired.flat found]
    refine ⟨onset.paired, onset.time, ?_, ?_, ?_⟩
    · rw [tell_log]
      exact onset.log.skip lost
    · rw [tell_log]
      exact onset.active.imp fun _ _ same => same.append _
    · rw [tell_log]
      exact onset.pending.imp fun _ _ same => same.append _

theorem foldl_complete {queue queue' : List Completion} (onset : Onset since whole part)
    (settled : Excerpt (·.start ≠ since + 1)
      (Settles since whole.session.network part.session.network whole.session.log.toList)
      queue queue') :
    Onset since (queue.foldl Tick.complete whole) (queue'.foldl Tick.complete part) := by
  induction queue generalizing whole part queue' with
  | nil =>
    cases settled
    exact onset
  | cons first rest ih =>
    have onward := onward_complete whole first
    obtain ⟨more, logged⟩ := onward.log
    rw [List.foldl_cons]
    cases settled with
    | @take _ first' _ rest' settles others =>
      rw [List.foldl_cons]
      refine ih (onset.complete settles) ?_
      rw [onward.network, (onward_complete part first').network, ← logged]
      exact others.imp fun _ _ same => same.append more
    | skip other others =>
      refine ih (onset.complete_drop other) ?_
      rw [onward.network, ← logged]
      exact others.imp fun _ _ same => same.append more

/-- One depth settles everything on either side, however many are allowed. -/
theorem settle (onset : Onset since whole part) (depths depths' : Nat) :
    Onset since (whole.settle (depths + 1)) (part.settle (depths' + 1)) := by
  have emptied : Onset since { whole with pending := [] } { part with pending := [] } :=
    { onset with pending := .nil }
  rw [(settle_flat onset.paired.flat depths).1, (settle_flat onset.paired.flat' depths').1]
  exact emptied.foldl_complete onset.pending

end Onset

end Tick

namespace Session

variable {since : Nat} {whole part : Session} {tokens : List Token}

/-- Without references every tick settles. -/
theorem tick_flat (flat : whole.network.Flat) (token : Token) :
    (whole.tick token).pending = [] := by
  rw [tick_eq]
  refine (Tick.settle_flat ?_ _).2
  rwa [network_of_frame (Tick.foldl_frame _ _ fun t listener => Tick.fire_frame ..), opened_network]

theorem feedWith_isolated (isolated : part.mode = .isolated) (token : Token) :
    part.feedWith sweepUnified token = part.feedWith id token := by
  simp only [feedWith, sweepUnified, mode_of_frame (part.tick_frame token), isolated, id_eq]

/-- What began right after `since` in the first session is all there is in the second, and what is
still to begin then is that with which the second was opened. -/
structure Onset (since : Nat) (whole part : Session) : Prop where
  paired : whole.network.Paired part.network
  unified : whole.mode = .unified
  isolated : part.mode = .isolated
  going : whole.aborted = false
  going' : part.aborted = false
  time : whole.time = part.time + since
  log : (Selection.beginning (since + 1)).Logs whole.log.toList part.log.toList
  waiting : Excerpt (·.anchor ≠ since + 1)
    (Tick.Onset.Mirrors since whole.network part.network whole.log.toList)
    (whole.active ++ whole.seeds) part.active

namespace Onset

theorem consumes (onset : whole.Onset since part) {spot spot' : Nat × Nat}
    (twin : Twin (fun _ => true) whole.network part.network spot spot') :
    whole.consumesTokens spot.2 = part.consumesTokens spot'.2 ∧
      whole.matchTypeOf spot.2 = part.matchTypeOf spot'.2 := by
  obtain ⟨automaton, key, node, found, found'⟩ := Part.site twin
  have none : node.reference = none := onset.paired.flat.sites _ (List.mem_of_getElem? found)
  refine ⟨?_, ?_⟩
  · simp [consumesTokens, found, found', Network.siteOf, none]
  · simp [matchTypeOf, found, found', Network.matchType_siteOf]

theorem isDue (onset : whole.Onset since part) {listener listener' : Listener}
    (mirrors : Tick.Onset.Mirrors since whole.network part.network whole.log.toList
      listener listener') :
    whole.isDue (whole.time + 1) listener = part.isDue (part.time + 1) listener' :=
  isDue_shifted (onset.consumes mirrors.twin).1 onset.time mirrors.ready

theorem seeds_eq (onset : whole.Onset since part) : part.seeds = [] := by
  rw [seeds, onset.isolated]

theorem opened (onset : whole.Onset since part) : Tick.Onset since whole.opened part.opened := by
  have time := onset.time
  constructor
  case paired =>
    rw [opened_network, opened_network]
    exact onset.paired
  case time =>
    rw [opened_time, opened_time]
    omega
  case log =>
    rw [opened_log, opened_log]
    exact onset.log
  case active =>
    rw [opened_active, opened_active, opened_network, opened_network, opened_log, onset.seeds_eq,
      List.append_nil]
    exact onset.waiting.filter fun listener listener' mirrors => by rw [onset.isDue mirrors]
  case pending => exact .nil

theorem matching (onset : whole.Onset since part) (elementType : String) :
    Excerpt (·.anchor ≠ since + 1)
      (Tick.Onset.Mirrors since whole.network part.network whole.log.toList)
      (whole.seeded.matching (whole.time + 1) elementType)
      (part.seeded.matching (part.time + 1) elementType) := by
  obtain ⟨automata, parted⟩ := onset.paired.parted
  have waiting := onset.waiting
  rw [← List.append_nil part.active, ← onset.seeds_eq] at waiting
  exact parted.matching waiting (fun _ _ mirrors => mirrors.twin)
    (fun _ _ mirrors => ⟨onset.isDue mirrors, (onset.consumes mirrors.twin).2⟩) elementType

theorem tick (onset : whole.Onset since part) (sound : whole.Sound tokens)
    (now : whole.time = tokens.length) (token : Token) :
    Tick.Onset since (whole.tick token) (part.tick token) := by
  have time := onset.time
  rw [tick_eq, tick_eq]
  refine (onset.opened.foldl_fire token.elementType token.value [] [] ?_ ?_
    fun listener fired => (matching_fed token sound now listener fired).2.1).settle _ _
  · rw [opened_network, opened_network, opened_log]
    exact onset.matching token.elementType
  · omega

theorem feed (onset : whole.Onset since part) (sound : whole.Sound tokens)
    (now : whole.time = tokens.length) (token : Token) :
    Onset since (whole.feedWith id token).2 (part.feedWith sweepUnified token).2 := by
  have ticked := onset.tick sound now token
  have time := onset.time
  have next := (sound_tick token sound now).time
  have frame := whole.tick_frame token
  have frame' := part.tick_frame token
  have unified := (mode_of_frame frame).trans onset.unified
  have isolated := (mode_of_frame frame').trans onset.isolated
  rw [feedWith_isolated onset.isolated,
    feedWith_settled onset.going (tick_flat onset.paired.flat token),
    feedWith_settled onset.going' (tick_flat onset.paired.flat' token)]
  refine ⟨ticked.paired, unified, isolated, (aborted_of_frame frame).trans onset.going,
    (aborted_of_frame frame').trans onset.going', ticked.time, ticked.log, ?_⟩
  refine ticked.active.append_nothing fun seed planted => ?_
  -- what is planted from now on begins later
  obtain ⟨ready, start, _⟩ := mem_seeds planted
  have anchor : seed.anchor = (whole.tick token).report.time + 1 := by
    rw [Listener.anchor, start]
    exact ready
  rw [List.length_append, List.length_singleton] at next
  omega

end Onset

end Session

end Constructicon
