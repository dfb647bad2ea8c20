import Constructicon.Proofs.Network.Part
import Constructicon.Proofs.Session.Selection
import Constructicon.Proofs.Session.Once

/-! A session beside one that knows only some of its patterns and only the tokens from some tick
on. Both plant and fire what belongs to the instances kept, in one order; what else the first
session does leaves the second alone. This is shown for one firing, and from there for a completion
settled, a round of completions and a tick. -/
namespace Constructicon

open Network (Kept Gone Twin Foreign Part)

namespace Cut

structure Mirrors (cut : Cut) (whole part : Network) (log : List Event)
    (listener listener' : Listener) : Prop where
  twin : Twin cut.inside whole part (listener.pattern, listener.node)
    (listener'.pattern, listener'.node)
  ready : listener.readyAt = listener'.readyAt + cut.since
  start : listener.start = listener'.start.map (· + cut.since)
  begun : cut.since < listener.anchor
  order : listener.anchor ≤ listener.readyAt
  origin : cut.selection.Cites log listener.origin listener'.origin

structure Drops (cut : Cut) (whole : Network) (listener : Listener) : Prop where
  order : listener.anchor ≤ listener.readyAt
  gone : listener.anchor ≤ cut.since ∨
    Foreign cut.inside whole (listener.pattern, listener.node)

structure Settles (cut : Cut) (whole part : Network) (log : List Event)
    (done done' : Completion) : Prop where
  kept : Kept cut.inside whole part done.pattern done'.pattern
  start : done.start = done'.start + cut.since
  begun : cut.since < done.start
  cause : cut.selection.Cites log (some done.cause) (some done'.cause)

def Forgets (cut : Cut) (whole : Network) (done : Completion) : Prop :=
  done.start ≤ cut.since ∨ Gone cut.inside whole done.pattern

variable {cut : Cut} {whole part : Network} {log : List Event}

theorem Mirrors.append {listener listener' : Listener}
    (mirrors : cut.Mirrors whole part log listener listener') (more : List Event) :
    cut.Mirrors whole part (log ++ more) listener listener' :=
  { mirrors with origin := mirrors.origin.append more }

theorem Settles.append {done done' : Completion} (settles : cut.Settles whole part log done done')
    (more : List Event) : cut.Settles whole part (log ++ more) done done' :=
  { settles with cause := settles.cause.append more }

theorem planted {spots spots' : List (Nat × Nat)} {readyAt readyAt' : Nat}
    {start start' origin origin' : Option Nat} (first first' : Nat)
    (excerpt : Excerpt (Foreign cut.inside whole) (Twin cut.inside whole part) spots spots')
    (ready : readyAt = readyAt' + cut.since) (shifted : start = start'.map (· + cut.since))
    (begun : cut.since < start.getD readyAt) (order : start.getD readyAt ≤ readyAt)
    (cites : cut.selection.Cites log origin origin') :
    Excerpt (cut.Drops whole) (cut.Mirrors whole part log)
      (Session.listenersAt first readyAt start origin spots)
      (Session.listenersAt first' readyAt' start' origin' spots') := by
  induction excerpt generalizing first first' with
  | nil => exact .nil
  | take twin _ ih =>
    rw [Session.listenersAt_cons, Session.listenersAt_cons]
    exact .take ⟨twin, ready, shifted, begun, order, cites⟩ (ih _ _)
  | skip foreign _ ih =>
    rw [Session.listenersAt_cons]
    exact .skip ⟨order, .inr foreign⟩ (ih _ _)

end Cut

theorem Network.Twin.kept {inside : String → Bool} {whole part : Network} {spot spot' : Nat × Nat}
    (twin : Twin inside whole part spot spot') : Kept inside whole part spot.1 spot'.1 :=
  let ⟨automaton, base, base', _, stays, _, here, there, _⟩ := twin
  ⟨automaton, base, base', stays, here, there⟩

theorem Network.Foreign.gone {inside : String → Bool} {whole : Network} {spot : Nat × Nat}
    (foreign : Foreign inside whole spot) : Gone inside whole spot.1 :=
  let ⟨automaton, base, _, goes, _, here, _⟩ := foreign
  ⟨automaton, base, goes, here⟩

namespace Session

theorem placeOf_of_find? {session : Session} (sound : session.network.Sound) {name key : String}
    {node : Nat} (found : session.network.find? name key = some node) :
    session.placeOf node = ⟨name, key⟩ := by
  obtain ⟨owner, site, index, here, owned, named, _⟩ := sound.find?_eq_some.mp found
  obtain ⟨member, registered, same⟩ := Network.Sound.member_of_memberIndex? index
  simp [placeOf, here, Network.ownerName, owned, registered, same, named]

section Place

variable {inside : String → Bool} {whole part : Session} {automata : List Automaton}
  (parted : Part inside whole.network part.network automata) {spot spot' : Nat × Nat}
include parted

theorem placeOf_twin (twin : Twin inside whole.network part.network spot spot') :
    whole.placeOf spot.2 = part.placeOf spot'.2 ∧ inside (whole.placeOf spot.2).pattern = true := by
  obtain ⟨name, key, stays, _, here, _, there⟩ := twin.named parted.whole.sound parted.part.sound
  rw [placeOf_of_find? parted.whole.sound here, placeOf_of_find? parted.part.sound there]
  exact ⟨rfl, stays⟩

theorem placeOf_foreign (foreign : Foreign inside whole.network spot) :
    inside (whole.placeOf spot.2).pattern = false := by
  obtain ⟨name, key, goes, _, here⟩ := foreign.named parted.whole.sound
  rw [placeOf_of_find? parted.whole.sound here]
  exact goes

end Place

end Session

namespace Tick
open Session

/-- The first tick, cut down to what the second knows of it, is the second. -/
structure Beside (cut : Cut) (whole part : Tick) : Prop where
  parted : ∃ automata, Part cut.inside whole.session.network part.session.network automata
  unified : whole.session.mode = .unified
  unified' : part.session.mode = .unified
  time : whole.report.time = part.report.time + cut.since
  log : cut.selection.Logs whole.session.log.toList part.session.log.toList
  active : Excerpt (cut.Drops whole.session.network)
    (cut.Mirrors whole.session.network part.session.network whole.session.log.toList)
    whole.session.active part.session.active
  pending : Excerpt (cut.Forgets whole.session.network)
    (cut.Settles whole.session.network part.session.network whole.session.log.toList)
    whole.pending part.pending
  early : ∀ done ∈ whole.pending, done.start ≤ whole.report.time

theorem early_fire {tick : Tick} {listener : Listener} {position : Nat} {elementType value : String}
    {subEvent : Option Nat} {path : List String}
    (early : ∀ done ∈ tick.pending, done.start ≤ tick.report.time)
    (start : listener.start.getD position ≤ tick.report.time) :
    let after := tick.fire listener position elementType value subEvent path
    ∀ done ∈ after.pending, done.start ≤ after.report.time := by
  intro after done member
  rw [fire_time]
  rw [fire_pending] at member
  rcases List.mem_append.mp member with old | new
  · exact early done old
  · rw [(mem_reached.mp new).2]
    exact start

namespace Beside

variable {cut : Cut} {whole part : Tick} {listener listener' : Listener}

section Fire

variable {position position' : Nat} (elementType value : String) {subEvent subEvent' : Option Nat}
  (path path' : List String)

theorem fire (beside : Beside cut whole part)
    (mirrors : cut.Mirrors whole.session.network part.session.network whole.session.log.toList
      listener listener')
    (shifted : position = position' + cut.since) (ready : listener.readyAt = position)
    (past : position ≤ whole.report.time)
    (cites : cut.selection.Cites whole.session.log.toList subEvent subEvent') :
    Beside cut (whole.fire listener position elementType value subEvent path)
      (part.fire listener' position' elementType value subEvent' path') := by
  obtain ⟨automata, parted⟩ := beside.parted
  have start := getD_shifted mirrors.start shifted
  have anchor : listener.start.getD position = listener.anchor := by rw [← ready]; rfl
  have begun : cut.since < listener.start.getD position := anchor ▸ mirrors.begun
  have early : listener.start.getD position ≤ position := by
    rw [anchor, ← ready]
    exact mirrors.order
  have time := beside.time
  obtain ⟨follow, ends⟩ := Part.after mirrors.twin (Foreign cut.inside whole.session.network)
  obtain ⟨place, stays⟩ := placeOf_twin parted mirrors.twin
  have keeps : cut.keeps (whole.firing listener position elementType value subEvent) = true := by
    simp [Cut.keeps, firing, stays, begun]
  have cited := beside.log.cites keeps
  rw [Array.length_toList, Array.length_toList] at cited
  constructor
  case parted =>
    rw [fire_network, fire_network]
    exact beside.parted
  case unified => rw [fire_mode, beside.unified]
  case unified' => rw [fire_mode, beside.unified']
  case time => rw [fire_time, fire_time, time]
  case log =>
    rw [fire_log, fire_log]
    refine beside.log.record keeps ?_ (by simp [firing]) mirrors.origin cites
    simp [firing, place, time, start]
  case active =>
    rw [fire_active, fire_active, fire_network, fire_network, fire_log]
    refine Excerpt.append (beside.active.imp fun _ _ same => same.append _) ?_
    exact Cut.planted _ _ follow (by omega) (congrArg some start) begun (by simp; omega) cited
  case pending =>
    rw [fire_pending, fire_pending, fire_network, fire_network, fire_log]
    refine Excerpt.append (beside.pending.imp fun _ _ same => same.append _) ?_
    unfold reached
    rw [← ends]
    split
    · exact .take ⟨mirrors.twin.kept, start, begun, cited⟩ .nil
    · exact .nil
  case early => exact early_fire beside.early (Nat.le_trans early past)

theorem fire_drop (beside : Beside cut whole part)
    (drops : cut.Drops whole.session.network listener) (ready : listener.readyAt = position)
    (past : position ≤ whole.report.time) :
    Beside cut (whole.fire listener position elementType value subEvent path) part := by
  obtain ⟨automata, parted⟩ := beside.parted
  have anchor : listener.start.getD position = listener.anchor := by rw [← ready]; rfl
  have early : listener.start.getD position ≤ position := by
    rw [anchor, ← ready]
    exact drops.order
  have lost : cut.keeps (whole.firing listener position elementType value subEvent) = false := by
    rcases drops.gone with before | foreign
    · simp [Cut.keeps, firing, anchor, before]
    · simp [Cut.keeps, firing, placeOf_foreign parted foreign]
  constructor
  case parted =>
    rw [fire_network]
    exact beside.parted
  case unified => rw [fire_mode, beside.unified]
  case unified' => exact beside.unified'
  case time => rw [fire_time, beside.time]
  case log =>
    rw [fire_log]
    exact beside.log.skip lost
  case active =>
    rw [fire_active, fire_network, fire_log]
    refine Excerpt.append_nothing (beside.active.imp fun _ _ same => same.append _)
      fun next planted => ?_
    obtain ⟨spot, _, readyAt, start, _⟩ := mem_listenersAt planted
    obtain ⟨node, follows, same⟩ := List.mem_map.mp spot
    have own : next.anchor = listener.start.getD position := by rw [Listener.anchor, start]; rfl
    refine ⟨by omega, drops.gone.imp (fun before => by omega) fun foreign => ?_⟩
    rw [← same]
    exact Part.after_foreign foreign follows
  case pending =>
    rw [fire_pending, fire_network, fire_log]
    refine Excerpt.append_nothing (beside.pending.imp fun _ _ same => same.append _)
      fun done ends => ?_
    rw [(mem_reached.mp ends).2]
    exact drops.gone.imp (fun before => anchor ▸ before) fun foreign => foreign.gone
  case early => exact early_fire beside.early (Nat.le_trans early past)

theorem foldl_fire {listeners listeners' : List Listener} (beside : Beside cut whole part)
    (fired : Excerpt (cut.Drops whole.session.network)
      (cut.Mirrors whole.session.network part.session.network whole.session.log.toList)
      listeners listeners')
    (shifted : position = position' + cut.since)
    (ready : ∀ listener ∈ listeners, listener.readyAt = position)
    (past : position ≤ whole.report.time)
    (cites : cut.selection.Cites whole.session.log.toList subEvent subEvent') :
    Beside cut
      (listeners.foldl (fun t listener =>
        t.fire listener position elementType value subEvent path) whole)
      (listeners'.foldl (fun t listener =>
        t.fire listener position' elementType value subEvent' path') part) := by
  -- not on the excerpt itself, whose relation moves on with the log
  induction listeners generalizing whole part listeners' with
  | nil =>
    cases fired
    exact beside
  | cons first rest ih =>
    obtain ⟨here, later⟩ := List.forall_mem_cons.mp ready
    rw [List.foldl_cons]
    cases fired with
    | take mirrors others =>
      rw [List.foldl_cons]
      refine ih (beside.fire elementType value path path' mirrors shifted here past cites) ?_ later ?_ ?_
      · rw [fire_network, fire_network, fire_log]
        exact others.imp fun _ _ same => same.append _
      · rwa [fire_time]
      · rw [fire_log]
        exact cites.append _
    | skip drops others =>
      refine ih (beside.fire_drop elementType value path drops here past) ?_ later ?_ ?_
      · rw [fire_network, fire_log]
        exact others.imp fun _ _ same => same.append _
      · rwa [fire_time]
      · rw [fire_log]
        exact cites.append _

theorem foldl_fire_drop {listeners : List Listener} (beside : Beside cut whole part)
    (drops : ∀ listener ∈ listeners, cut.Drops whole.session.network listener)
    (ready : ∀ listener ∈ listeners, listener.readyAt = position)
    (past : position ≤ whole.report.time) :
    Beside cut (listeners.foldl (fun t listener =>
      t.fire listener position elementType value subEvent path) whole) part := by
  induction listeners generalizing whole with
  | nil => exact beside
  | cons first rest ih =>
    obtain ⟨gone, drops⟩ := List.forall_mem_cons.mp drops
    obtain ⟨here, later⟩ := List.forall_mem_cons.mp ready
    refine ih (beside.fire_drop elementType value path gone here past) ?_ later ?_
    · rwa [fire_network]
    · rwa [fire_time]

end Fire

section Complete

variable {done done' : Completion} {member member' : Member}

theorem feedable (beside : Beside cut whole part)
    (settles : cut.Settles whole.session.network part.session.network whole.session.log.toList
      done done')
    (found : whole.session.network.members[done.pattern]? = some member)
    (found' : part.session.network.members[done'.pattern]? = some member')
    (same : member.name = member'.name) :
    Excerpt (cut.Drops whole.session.network)
      (cut.Mirrors whole.session.network part.session.network whole.session.log.toList)
      (whole.session.feedable member done.start) (part.session.feedable member' done'.start) := by
  obtain ⟨automata, parted⟩ := beside.parted
  refine (parted.refTargets found found' same).flatMap (fun node node' both => ?_) fun node gone => ?_
  · -- at a reference that stays, what waits stays unless it began too early
    obtain ⟨owner, owner', twin⟩ := both
    refine beside.active.filter fun listener listener' mirrors => ?_
    have node := parted.node_iff mirrors.twin twin
    have ready := mirrors.ready
    have start := settles.start
    refine decide_eq_decide.mpr (and_congr node ?_)
    omega
  · obtain ⟨owner, foreign⟩ := gone
    refine beside.active.filter_nothing fun listener listener' mirrors => decide_eq_false fun waits => ?_
    exact parted.node_ne mirrors.twin foreign waits.1

/-- Nothing that stays waits for what does not. -/
theorem feedable_drops (beside : Beside cut whole part)
    (forgets : cut.Forgets whole.session.network done)
    (found : whole.session.network.members[done.pattern]? = some member) :
    ∀ listener ∈ whole.session.feedable member done.start,
      cut.Drops whole.session.network listener := by
  obtain ⟨automata, parted⟩ := beside.parted
  intro listener waits
  obtain ⟨active, target, ready⟩ := mem_feedable.mp waits
  rcases beside.active.split active with drops | ⟨listener', _, mirrors⟩
  · exact drops
  · rcases forgets with before | gone
    · -- what stays waits no earlier than it began, hence after the cut
      have begun := mirrors.begun
      have order := mirrors.order
      omega
    · obtain ⟨_, known, outside, _⟩ := Part.member_gone gone
      cases found.symm.trans known
      obtain ⟨owner, foreign⟩ := parted.refTargets_gone found outside target
      exact (parted.node_ne mirrors.twin foreign rfl).elim

theorem tell (beside : Beside cut whole part)
    (settles : cut.Settles whole.session.network part.session.network whole.session.log.toList
      done done')
    (twin : Twin cut.inside whole.session.network part.session.network
      (done.pattern, member.finish) (done'.pattern, member'.finish)) :
    Beside cut (whole.tell member done) (part.tell member' done') ∧
      cut.selection.Cites (whole.tell member done).session.log.toList (some whole.session.log.size)
        (some part.session.log.size) := by
  obtain ⟨automata, parted⟩ := beside.parted
  obtain ⟨place, stays⟩ := placeOf_twin parted twin
  have keeps : cut.keeps (whole.completing member done) = true := by
    simp [Cut.keeps, completing, stays, settles.begun]
  have cited := beside.log.cites keeps
  rw [Array.length_toList, Array.length_toList] at cited
  rw [tell_log]
  refine ⟨⟨⟨automata, parted⟩, beside.unified, beside.unified', beside.time, ?_, ?_, ?_, beside.early⟩, cited⟩
  · rw [tell_log, tell_log]
    refine beside.log.record keeps ?_ (by simp [completing]) settles.cause (.none _)
    simp [completing, place, beside.time, settles.start]
  · rw [tell_log]
    exact beside.active.imp fun _ _ same => same.append _
  · rw [tell_log]
    exact beside.pending.imp fun _ _ same => same.append _

theorem tell_drop (beside : Beside cut whole part)
    (forgets : cut.Forgets whole.session.network done)
    (found : whole.session.network.members[done.pattern]? = some member) :
    Beside cut (whole.tell member done) part := by
  obtain ⟨automata, parted⟩ := beside.parted
  have lost : cut.keeps (whole.completing member done) = false := by
    rcases forgets with before | gone
    · simp [Cut.keeps, completing, Nat.not_lt.mpr before]
    · obtain ⟨_, known, _, foreign⟩ := Part.member_gone gone
      cases found.symm.trans known
      simp [Cut.keeps, completing, placeOf_foreign parted foreign]
  refine ⟨⟨automata, parted⟩, beside.unified, beside.unified', beside.time, ?_, ?_, ?_, beside.early⟩
  · rw [tell_log]
    exact beside.log.skip lost
  · rw [tell_log]
    exact beside.active.imp fun _ _ same => same.append _
  · rw [tell_log]
    exact beside.pending.imp fun _ _ same => same.append _

theorem complete (beside : Beside cut whole part)
    (settles : cut.Settles whole.session.network part.session.network whole.session.log.toList
      done done')
    (early : done.start ≤ whole.report.time) :
    Beside cut (whole.complete done) (part.complete done') := by
  obtain ⟨member, member', found, found', same, _, twin⟩ := Part.members settles.kept
  have start := settles.start
  have time := beside.time
  rw [complete_unified found beside.unified early,
    complete_unified found' beside.unified' (by omega)]
  obtain ⟨told, cites⟩ := beside.tell settles twin
  unfold feedOne
  rw [← same]
  refine told.foldl_fire _ _ _ _ ?_ start (fun listener waits => (mem_feedable.mp waits).2.2) early cites
  rw [tell_log]
  exact (beside.feedable settles found found' same).imp fun _ _ same => same.append _

theorem complete_drop (beside : Beside cut whole part)
    (forgets : cut.Forgets whole.session.network done) (early : done.start ≤ whole.report.time) :
    Beside cut (whole.complete done) part := by
  cases found : whole.session.network.members[done.pattern]? with
  | none => rwa [complete_none found]
  | some member =>
    rw [complete_unified found beside.unified early]
    exact (beside.tell_drop forgets found).foldl_fire_drop _ _ _ (beside.feedable_drops forgets found)
      (fun listener waits => (mem_feedable.mp waits).2.2) early

theorem foldl_complete {queue queue' : List Completion} (beside : Beside cut whole part)
    (settled : Excerpt (cut.Forgets whole.session.network)
      (cut.Settles whole.session.network part.session.network whole.session.log.toList) queue queue')
    (early : ∀ done ∈ queue, done.start ≤ whole.report.time) :
    Beside cut (queue.foldl Tick.complete whole) (queue'.foldl Tick.complete part) := by
  induction queue generalizing whole part queue' with
  | nil =>
    cases settled
    exact beside
  | cons first rest ih =>
    obtain ⟨here, later⟩ := List.forall_mem_cons.mp early
    have onward := onward_complete whole first
    obtain ⟨more, logged⟩ := onward.log
    rw [List.foldl_cons]
    cases settled with
    | @take _ first' _ rest' settles others =>
      rw [List.foldl_cons]
      refine ih (beside.complete settles here) ?_ (by rwa [onward.time])
      rw [onward.network, (onward_complete part first').network, ← logged]
      exact others.imp fun _ _ same => same.append more
    | skip forgets others =>
      refine ih (beside.complete_drop forgets here) ?_ (by rwa [onward.time])
      rw [onward.network, ← logged]
      exact others.imp fun _ _ same => same.append more

theorem settle (beside : Beside cut whole part) (depths : Nat) :
    Beside cut (whole.settle depths) (part.settle depths) := by
  induction depths generalizing whole part with
  | zero => rwa [settle_zero, settle_zero]
  | succ depths ih =>
    -- both go down one depth, even if nothing that is pending there stays
    have emptied : Beside cut { whole with pending := [] } { part with pending := [] } :=
      { beside with pending := .nil, early := fun _ none => by cases none }
    rw [settle_succ, settle_succ]
    exact ih (emptied.foldl_complete beside.pending beside.early)

end Complete

end Beside

end Tick

end Constructicon
