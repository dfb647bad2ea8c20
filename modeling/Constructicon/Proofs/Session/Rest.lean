import Constructicon.Proofs.Session.Full

/-! Unified sessions at rest. Between two calls, a session over a composed network that was never
swept and is not aborted has missed nothing so far: this holds at its beginning, each token that is
consumed without a refusal preserves it, and so does every pattern that joins. -/
namespace Constructicon

/-- A session between two ticks, as a tick with nothing to settle. -/
def Session.atRest (session : Session) : Tick :=
  { session, report := { time := session.time } }

structure Session.Full (tokens : List Token) (joined : List Nat) (session : Session) : Prop where
  sound : session.Sound tokens
  now : session.time = tokens.length
  unified : session.mode = .unified
  composed : session.network.Composed
  counted : joined.length = session.network.members.length
  past : ∀ since ∈ joined, since ≤ session.time
  tick : session.atRest.Full tokens joined session.time

theorem Fired.grow {old new : Network} {log : List Event} {listener : Listener} {time : Nat}
    {sub : Option Nat} (soundOld : old.Sound) (sound : new.Sound) (grows : old.Grows new)
    (fired : Fired old log listener time sub) : Fired new log listener time sub := by
  obtain ⟨id, event, found, facts⟩ := fired
  exact ⟨id, event, found,
    { facts with
      place := grows.find? soundOld sound facts.place
      pattern := grows.memberIndex? sound facts.pattern }⟩

namespace Session
open Tick

variable {tokens : List Token} {joined : List Nat} {session : Session}

theorem distinct_allOpenings {network : Network} (sound : network.Sound) :
    (allOpenings network).Pairwise (·.2 ≠ ·.2) := by
  refine List.pairwise_flatMap.mpr ⟨fun pattern _ => ?_, ?_⟩
  · unfold openings
    cases found : network.members[pattern]? with
    | none => exact .nil
    | some member => exact List.pairwise_map.mpr (sound.nodup_entryNodes found)
  · refine List.nodup_range.imp fun differ first here second there same => ?_
    obtain ⟨_, _, foundA, entryA⟩ := mem_openings.mp here
    obtain ⟨_, _, foundB, entryB⟩ := mem_openings.mp there
    obtain ⟨site, atA, _, ownerA⟩ := sound.entryNode_owner foundA entryA
    obtain ⟨_, atB, _, ownerB⟩ := sound.entryNode_owner foundB entryB
    rw [same, atB] at atA
    cases atA
    exact differ (Option.some.inj (ownerA.symm.trans ownerB))

theorem Full.seeds_eq (full : session.Full tokens joined) : session.seeds =
    listenersAt session.arena.size (session.time + 1) none none (allOpenings session.network) := by
  simp only [seeds, full.unified]

theorem Full.opened_once (full : session.Full tokens joined) : session.opened.Once := by
  constructor
  case listeners =>
    rw [opened_arena, List.map_append, List.nodup_append]
    refine ⟨full.tick.once.listeners, ?_, fun key old other new same => ?_⟩
    · rw [full.seeds_eq, keys_listenersAt, List.Nodup, List.pairwise_map]
      exact (distinct_allOpenings full.sound.network).imp fun differ same =>
        differ (Prod.mk.inj (Prod.mk.inj same).2).1
    · subst same
      obtain ⟨before, planted, rfl⟩ := List.mem_map.mp old
      obtain ⟨after, member, same⟩ := List.mem_map.mp new
      obtain ⟨ready, _, origin⟩ := mem_seeds member
      obtain ⟨sameOrigin, sameSpot⟩ := Prod.mk.inj same
      have past := (full.tick.thorough.begun before planted (sameOrigin ▸ origin)).1
      have ready' : after.readyAt = before.readyAt := (Prod.mk.inj sameSpot).2
      have early : before.readyAt ≤ session.time := past
      omega
  case fires =>
    rw [opened_log]
    exact full.tick.once.fires
  case completes =>
    rw [opened_log]
    exact full.tick.once.completes
  case pending => exact full.tick.once.pending
  case unsettled =>
    rw [opened_log]
    exact full.tick.once.unsettled

theorem Full.opened_thorough (full : session.Full tokens joined) :
    session.opened.Thorough joined := by
  constructor
  case active =>
    rw [opened_arena, opened_consumesTokens, opened_time]
    intro listener planted
    by_cases due : session.consumesTokens listener.node = true ∧ listener.readyAt ≤ session.time + 1
    · exact .inr due
    · refine .inl (session.mem_opened.mpr ⟨?_, due⟩)
      apply (List.mem_append.mp planted).imp_left
      intro old
      refine (full.tick.thorough.active listener old).resolve_right fun gone => due ⟨gone.1, ?_⟩
      exact Nat.le_succ_of_le gone.2
  case follows =>
    rw [opened_log, opened_network, opened_arena]
    intro id event node found fired here next follows
    obtain ⟨listener, planted, rest⟩ :=
      full.tick.thorough.follows id event node found fired here next follows
    exact ⟨listener, List.mem_append_left _ planted, rest⟩
  case ends =>
    rw [opened_log, opened_network]
    exact full.tick.thorough.ends
  case begun =>
    rw [opened_arena, opened_time]
    intro listener planted first
    rcases List.mem_append.mp planted with old | new
    · obtain ⟨past, rest⟩ := full.tick.thorough.begun listener old first
      exact ⟨Nat.le_succ_of_le past, rest⟩
    · rw [full.seeds_eq] at new
      obtain ⟨spot, _, ready, _⟩ := mem_listenersAt new
      obtain ⟨member, found, _⟩ := mem_allOpenings.mp spot
      have bound := (List.getElem?_eq_some_iff.mp found).1
      rw [← full.counted] at bound
      have past := full.past _ (List.getElem_mem bound)
      exact ⟨Nat.le_of_eq ready, _, List.getElem?_eq_getElem bound, by omega⟩
  case began =>
    rw [opened_log, opened_network]
    exact full.tick.thorough.began

theorem Full.planted_seed (full : session.Full tokens joined) {pattern node : Nat} {member : Member}
    (found : session.network.members[pattern]? = some member) (entry : node ∈ member.entryNodes) :
    ∃ listener ∈ session.seeds, listener.pattern = pattern ∧ listener.node = node ∧
      listener.readyAt = session.time + 1 ∧ listener.start = none ∧ listener.origin = none := by
  have spot : (pattern, node) ∈ allOpenings session.network :=
    mem_allOpenings.mpr ⟨member, found, entry⟩
  obtain ⟨listener, new, owner, at'⟩ := exists_listenersAt spot
  rw [full.seeds_eq]
  obtain ⟨_, _, ready, start, origin⟩ := mem_listenersAt new
  exact ⟨listener, new, owner, at', ready, start, origin⟩

theorem Full.opened (full : session.Full tokens joined) (token : Token) :
    session.opened.Full (tokens ++ [token]) joined session.time where
  once := full.opened_once
  thorough := full.opened_thorough
  seeded pattern node ready since member found entry known later past := by
    rw [opened_network] at found
    rw [opened_time] at past
    rw [opened_arena]
    by_cases now : ready = session.time + 1
    · subst now
      obtain ⟨listener, new, facts⟩ := full.planted_seed found entry
      exact ⟨listener, List.mem_append_right _ new, facts⟩
    · have early : ready ≤ session.time := by omega
      obtain ⟨listener, planted, facts⟩ :=
        full.tick.seeded pattern node ready since member found entry known later early
      exact ⟨listener, List.mem_append_left _ planted, facts⟩
  tokens listener planted other consumes past current agrees := by
    rw [opened_arena] at planted
    rw [opened_consumesTokens] at consumes
    rw [opened_matchTypeOf] at agrees
    rw [opened_network, opened_log]
    rcases List.mem_append.mp planted with old | new
    · obtain ⟨position, here⟩ := List.mem_iff_getElem?.mp old
      have positive := (full.sound.arena position listener here).ready
      have now := full.now
      rw [List.getElem?_append_left (by omega)] at current
      exact full.tick.tokens listener old other consumes past current agrees
    · have ready := (mem_seeds new).1
      omega
  references id completion listener site found completed planted here names ready := by
    rw [opened_log] at found ⊢
    rw [opened_network] at here ⊢
    rw [opened_arena] at planted
    rcases List.mem_append.mp planted with old | new
    · exact full.tick.references id completion listener site found completed old here names ready
    · have event := full.sound.log id completion found
      have spans := event.spans
      have past := event.past
      have now := full.now
      have later := (mem_seeds new).1
      omega

theorem nodup_matching {elementType : String} (distinct : (session.active ++ session.seeds).Nodup) :
    (session.seeded.matching (session.time + 1) elementType).Nodup := by
  rw [seeded_matching]
  have due := distinct.sublist (List.filter_sublist (p := fun listener =>
    session.isDue (session.time + 1) listener ∧
      session.matchTypeOf listener.node = some elementType))
  refine List.pairwise_flatMap.mpr ⟨fun pattern _ => due.sublist List.filter_sublist, ?_⟩
  refine List.nodup_range.imp fun differ first here second there same => ?_
  subst same
  have owner := of_decide_eq_true (List.mem_filter.mp here).2
  have owner' := of_decide_eq_true (List.mem_filter.mp there).2
  exact differ (owner.symm.trans owner')

theorem Full.matched (full : session.Full tokens joined) (token : Token) {listener : Listener}
    (planted : listener ∈ session.opened.session.arena.toList)
    (now : listener.readyAt = session.time + 1)
    (consumes : session.consumesTokens listener.node = true)
    (agrees : session.matchTypeOf listener.node = some token.elementType) :
    listener ∈ session.seeded.matching (session.time + 1) token.elementType := by
  have owner : listener.pattern < session.network.members.length := by
    have grounded := ((sound_opened token full.sound full.now).grounded planted).2
    rw [opened_network] at grounded
    exact grounded.pattern_lt
  rw [opened_arena] at planted
  have active : listener ∈ session.active ∨ listener ∈ session.seeds := by
    apply (List.mem_append.mp planted).imp_left
    intro old
    apply (full.tick.thorough.active listener old).resolve_right
    intro gone
    have early : listener.readyAt ≤ session.time := gone.2
    omega
  exact session.mem_seeded_matching.mpr ⟨active, consumes, Nat.le_of_eq now, agrees, owner⟩

theorem Full.nodup_fresh (full : session.Full tokens joined) :
    (session.active ++ session.seeds).Nodup := by
  have arena := full.opened_once.nodup_arena
  rw [opened_arena] at arena
  exact arena.sublist (full.sound.active.append (.refl _))

/-- A token fires whatever takes it. -/
theorem Full.fired (full : session.Full tokens joined) (token : Token) :
    let after := (session.seeded.matching (session.time + 1) token.elementType).foldl
      (fun t listener => t.fire listener (session.time + 1) token.elementType token.value none [])
      session.opened
    after.Sound (tokens ++ [token]) ∧ after.Full (tokens ++ [token]) joined (session.time + 1) ∧
      session.opened.Onward after := by
  intro after
  have opened := full.opened token
  have sound := sound_opened token full.sound full.now
  have fed := matching_fed token full.sound full.now
  have soundAfter : after.Sound (tokens ++ [token]) := sound_foldl_fire [] _ sound fed
  obtain ⟨once, thorough, onward, fired⟩ := once_foldl_fire [] _ sound opened.once opened.thorough fed
    (nodup_matching full.nodup_fresh) fun listener _ id event found _ _ _ _ => by
      rw [opened_log] at found
      have past := (full.sound.log id event found).past
      have now := full.now
      rw [opened_time]
      omega
  have whole : after.Full (tokens ++ [token]) joined session.time := by
    apply opened.onward soundAfter onward once thorough (Nat.le_succ _)
    intro id completion listener site found completed new
    have bound := (List.getElem?_eq_some_iff.mp (complete_of_foldl_fire [] _ found completed)).1
    omega
  refine ⟨soundAfter, { whole with tokens := ?_ }, onward⟩
  intro listener planted other consumes past current agrees
  by_cases now : listener.readyAt = session.time + 1
  · -- the present tick: the token is the last one, and whoever takes it was matched
    have same : other = token := by
      rw [now, full.now, Nat.add_sub_cancel, List.getElem?_concat_length] at current
      exact (Option.some.inj current).symm
    subst same
    rw [onward.consumesTokens, opened_consumesTokens] at consumes
    rw [onward.matchTypeOf, opened_matchTypeOf] at agrees
    rcases onward.planted listener planted with old | new
    · rw [now]
      exact fired listener (full.matched other old now consumes agrees)
    · rw [opened_time] at new
      omega
  · exact whole.tokens listener planted other consumes (by omega) current agrees

theorem Full.settled (full : session.Full tokens joined) (token : Token) :
    (session.tick token).Sound (tokens ++ [token]) ∧
      (session.tick token).Full (tokens ++ [token]) joined (session.time + 1) ∧
      (session.tick token).session.network = session.network ∧
      (session.tick token).session.mode = .unified ∧
      (session.tick token).report.time = session.time + 1 := by
  obtain ⟨sound, fired, onward⟩ := full.fired token
  rw [tick_eq]
  refine settle_induction (P := fun tick => tick.Sound (tokens ++ [token]) ∧
    tick.Full (tokens ++ [token]) joined (session.time + 1) ∧
    tick.session.network = session.network ∧ tick.session.mode = .unified ∧
    tick.report.time = session.time + 1) ?_ _ ?_
  · intro tick done rest waits facts
    obtain ⟨sound, whole, network, mode, time⟩ := facts
    obtain ⟨whole', onward⟩ := whole.complete waits sound (network ▸ full.composed) mode
      (Nat.le_of_eq time.symm)
    exact ⟨sound_complete (sound.pop waits) (sound.pending done (waits ▸ List.mem_cons_self)), whole',
      onward.network.trans network, onward.mode.trans mode, onward.time.trans time⟩
  · refine ⟨sound, fired, onward.network.trans (opened_network _), ?_, onward.time⟩
    exact (onward.mode.trans (opened_mode _)).trans full.unified

theorem Full.feed (full : session.Full tokens joined) {token : Token}
    (settled : (session.tick token).pending = []) :
    Session.Full (tokens ++ [token]) joined
      { (session.tick token).session with time := (session.tick token).report.time } := by
  obtain ⟨sound, whole, network, mode, time⟩ := full.settled token
  have now := full.now
  refine ⟨sound.session.withActive (.refl _) _ _, by simp [time, now], mode, network ▸ full.composed,
    network ▸ full.counted, fun since known => ?_, ?_⟩
  · exact Nat.le_trans (full.past since known) (Nat.le_of_lt (Nat.lt_of_lt_of_eq
      (Nat.lt_succ_self _) time.symm))
  · rw [← time] at whole
    obtain ⟨⟨listeners, fires, completes, pending, unsettled⟩,
      ⟨active, follows, ends, begun, began⟩, seeded, taken, references⟩ := whole
    rw [settled] at pending unsettled ends
    exact ⟨⟨listeners, fires, completes, pending, unsettled⟩,
      ⟨active, follows, ends, begun, began⟩, seeded, taken, references⟩

section Register

variable {network : Network}

theorem Full.place_grow (full : session.Full tokens joined) (grown : network.Sound)
    (grows : session.network.Grows network) {id node : Nat} {event : Event}
    (found : session.log.toList[id]? = some event)
    (place : network.find? event.pattern event.node = some node) :
    session.network.find? event.pattern event.node = some node ∧
      network.closureAfter node = session.network.closureAfter node := by
  obtain ⟨other, here⟩ := (full.sound.log id event found).place
  have there := grows.find? full.sound.network grown here
  rw [place] at there
  cases there
  exact ⟨here, grows.closureAfter full.sound.network (full.sound.network.lt_of_find? here)⟩

theorem known_grow {pattern since : Nat} (before : joined[pattern]? = some since) :
    (joined ++ [session.time])[pattern]? = some since :=
  getElem?_extend (List.prefix_append _ _) before

theorem Full.thorough_grow (full : session.Full tokens joined) (grown : network.Sound)
    (grows : session.network.Grows network) :
    ({ session with network } : Session).atRest.Thorough (joined ++ [session.time]) := by
  have thorough := full.tick.thorough
  constructor
  case active =>
    intro listener planted
    refine (thorough.active listener planted).imp_right fun gone => ⟨?_, gone.2⟩
    rw [← gone.1]
    exact full.sound.consumesTokens_grow grows planted
  case follows =>
    intro id event node found fired place next after
    obtain ⟨here, closure⟩ := full.place_grow grown grows found place
    exact thorough.follows id event node found fired here next (closure ▸ after)
  case ends =>
    intro id event node found fired place reaches
    obtain ⟨here, closure⟩ := full.place_grow grown grows found place
    exact thorough.ends id event node found fired here (closure ▸ reaches)
  case begun =>
    intro listener planted first
    obtain ⟨past, since, before, early⟩ := thorough.begun listener planted first
    exact ⟨past, since, known_grow before, early⟩
  case began =>
    intro id event found fired first
    obtain ⟨pattern, since, index, before, early⟩ := thorough.began id event found fired first
    exact ⟨pattern, since, grows.memberIndex? grown index, known_grow before, early⟩

theorem Full.tick_grow (full : session.Full tokens joined) (grown : network.Sound)
    (grows : session.network.Grows network) :
    ({ session with network } : Session).atRest.Full tokens (joined ++ [session.time])
      session.time := by
  obtain ⟨listeners, fires, completes, pending, unsettled⟩ := full.tick.once
  constructor
  case once => exact ⟨listeners, fires, completes, pending, unsettled⟩
  case thorough => exact full.thorough_grow grown grows
  case seeded =>
    intro pattern node ready since owner found entry before later past
    rcases getElem?_concat_cases before with old | ⟨_, now⟩
    · have bound := (List.getElem?_eq_some_iff.mp old).1
      refine full.tick.seeded pattern node ready since owner ?_ entry old later past
      rw [← found]
      exact (getElem?_restrict grows.members (full.counted ▸ bound)).symm
    · have past : ready ≤ session.time := past
      omega
  case tokens =>
    intro listener planted token consumes past current agrees
    refine Fired.grow full.sound.network grown grows
      (full.tick.tokens listener planted token ?_ past current ?_)
    · rw [← consumes]
      exact (full.sound.consumesTokens_grow grows planted).symm
    · rw [← agrees]
      exact congrArg (·.bind Site.matchType) (full.sound.site_grow grows planted).symm
  case references =>
    intro id completion listener site found completed planted here names ready
    refine Fired.grow full.sound.network grown grows
      (full.tick.references id completion listener site found completed planted ?_ names ready)
    rw [← here]
    exact (full.sound.site_grow grows planted).symm

theorem Full.grow (full : session.Full tokens joined) {member : Member} (grown : network.Sound)
    (composed : network.Composed) (grows : session.network.Grows network)
    (members : network.members = session.network.members ++ [member]) :
    Session.Full tokens (joined ++ [session.time]) { session with network } where
  sound := full.sound.grow_network grown grows
  now := full.now
  unified := full.unified
  composed := composed
  counted := by simp [members, full.counted]
  past since known := by
    rcases List.mem_append.mp known with old | new
    · exact full.past since old
    · exact Nat.le_of_eq (List.mem_singleton.mp new)
  tick := full.tick_grow grown grows

/-- A pattern joins: it has missed nothing, since it only begins at the next tick. -/
theorem Full.register (full : session.Full tokens joined) {automaton : Automaton} {after : Session}
    (compiled : automaton.Compiled) (ok : session.register automaton = .ok after) :
    after.Full tokens (joined ++ [session.time]) := by
  obtain ⟨network, attached, _, unified⟩ := register_success ok
  rw [unified full.unified]
  have composing : decide (session.mode = .unified) = true := by simp [full.unified]
  rw [composing] at attached
  obtain ⟨grown, grows, member, members, _⟩ :=
    Network.attach_grows full.sound.network compiled.sound attached
  exact full.grow grown
    (Network.attach_composed full.sound.network full.composed compiled.sound attached) grows members

end Register

theorem full_unified {network : Network} (sound : network.Sound) (composed : network.Composed)
    (limits : Limits) :
    (unified network limits).Full [] (network.members.map fun _ => 0) := by
  have empty : (unified network limits).atRest.Once := by
    constructor
    all_goals simp [unified, start, atRest]
  have idle : (unified network limits).atRest.Thorough (network.members.map fun _ => 0) := by
    constructor
    all_goals simp [unified, start, atRest]
  constructor
  case sound => exact sound_start sound _ _
  case now => rfl
  case unified => rfl
  case composed => exact composed
  case counted => simp [unified, start]
  case past => simp
  case tick =>
    refine ⟨empty, idle, ?_, ?_, ?_⟩
    · intro pattern node ready since member _ _ _ later past
      have past : ready ≤ 0 := past
      omega
    · simp [unified, start, atRest]
    · simp [unified, start, atRest]

end Session

namespace Course
open Session

variable {course : Course}

/-- Unified sessions over a composed network. -/
inductive Composed : Session → Prop where
  | unified {network : Network} {limits : Limits} (composition : network.Composition) :
      Composed (Session.unified network limits)

/-- A course that missed nothing, unless it is aborted. -/
structure Complete (course : Course) : Prop where
  sound : course.session.network.Sound
  composed : course.session.network.Composed
  unified : course.session.mode = .unified
  counted : course.joined.length = course.session.network.members.length
  full : course.session.aborted = false → course.session.Full course.tokens course.joined

theorem Complete.feed (complete : course.Complete) (token : Token) :
    (course.call id (.feed token)).Complete := by
  cases going : course.session.aborted with
  | true =>
    simp only [Course.call, Session.call, feedWith_refused token going, going, if_true]
    exact complete
  | false =>
    have full := complete.full going
    simp only [Course.call, Session.call, going, Bool.false_eq_true, if_false]
    cases waits : (course.session.tick token).pending with
    | nil =>
      have fed := full.feed waits
      rw [feedWith_settled going waits]
      exact ⟨fed.sound.network, fed.composed, fed.unified, fed.counted, fun _ => fed⟩
    | cons deepest rest =>
      obtain ⟨_, _, network, mode, _⟩ := full.settled token
      rw [feedWith_deep going waits]
      refine ⟨network ▸ complete.sound, network ▸ complete.composed, mode,
        network ▸ complete.counted, fun not => ?_⟩
      cases not

theorem Complete.register (complete : course.Complete) {automaton : Automaton}
    (compiled : automaton.Compiled) : (course.call id (.register automaton)).Complete := by
  simp only [Course.call, Session.call]
  cases registered : course.session.register automaton with
  | error error => exact complete
  | ok after =>
    obtain ⟨network, attached, _, same⟩ := register_success registered
    have same := same complete.unified
    have composing : decide (course.session.mode = .unified) = true := by simp [complete.unified]
    rw [composing] at attached
    obtain ⟨grown, _, member, members, _⟩ :=
      Network.attach_grows complete.sound compiled.sound attached
    have joins :=
      Network.attach_composed complete.sound complete.composed compiled.sound attached
    have aborted : after.aborted = course.session.aborted := by rw [same]
    constructor
    case sound => rw [same]; exact grown
    case composed => rw [same]; exact joins
    case unified => rw [same]; exact complete.unified
    case counted => simp [same, members, complete.counted]
    case full => exact fun going => (complete.full (aborted ▸ going)).register compiled registered

theorem Complete.reset (complete : course.Complete) : (course.call id .reset).Complete := by
  have fresh : course.session.reset = Session.unified course.session.network
      course.session.limits := by
    simp only [Session.reset, Session.unified, complete.unified]
  have zeros : course.joined.map (fun _ => 0) =
      course.session.network.members.map fun _ => 0 := by
    rw [List.map_const', List.map_const', complete.counted]
  simp only [Course.call, Session.call, fresh, zeros]
  have full := full_unified complete.sound complete.composed course.session.limits
  exact ⟨complete.sound, complete.composed, rfl, full.counted, fun _ => full⟩

/-- A course that is never swept misses nothing, as long as it is not aborted. -/
theorem Reached.complete (reached : course.Reached Composed id) : course.Complete := by
  induction reached with
  | start opening =>
    obtain ⟨composition⟩ := opening
    obtain ⟨sound, composed⟩ := composition.sound
    have full := full_unified sound composed
    exact ⟨sound, composed, rfl, by simp [Course.start], fun _ => full _⟩
  | @call course reached call compiled ih =>
    cases call with
    | feed token => exact ih.feed token
    | register automaton => exact ih.register compiled
    | reset => exact ih.reset

end Course

end Constructicon
