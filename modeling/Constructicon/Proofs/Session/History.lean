import Constructicon.Proofs.Session.Soundness
import Constructicon.Session.Snapshot

/-! What can be relied on at every point of every course, whatever was asked of the session and
whether or not it was aborted: the log is grounded in the tokens consumed. -/
namespace Constructicon

namespace Session
open Tick

variable {tokens : List Token} {session : Session}

theorem sound_opened (token : Token) (sound : session.Sound tokens)
    (now : session.time = tokens.length) : session.opened.Sound (tokens ++ [token]) := by
  have fed := List.prefix_append tokens [token]
  have size : (tokens ++ [token]).length = session.time + 1 := by simp [now]
  refine ⟨?_, size.symm, fun done member => by cases member⟩
  constructor
  case network =>
    rw [opened_network]
    exact sound.network
  case log =>
    rw [opened_network, opened_mode, opened_log]
    exact fun position event found => (sound.log position event found).extend sound.network
      sound.network (Network.grows_refl _) fed (List.prefix_refl _)
  case ordered =>
    rw [opened_log]
    exact sound.ordered
  case arena =>
    rw [opened_network, opened_log, opened_arena]
    unfold seeds
    split
    · simpa using sound.arena
    · apply arena_append sound.arena (Nat.le_add_left 1 _)
      intro listener spot _ start origin
      obtain ⟨owner, found, entry⟩ := mem_allOpenings.mp spot
      exact .entry origin start found entry
  case active =>
    rw [opened_arena, opened, seeded_eq]
    exact List.filter_sublist.trans (sound.active.append (.refl _))
  case ready =>
    intro listener member
    obtain ⟨member, undue⟩ := session.mem_opened.mp member
    have ready : listener.readyAt ≤ session.time + 1 := by
      rcases member with old | new
      · have bound := (sound.ready listener old).1
        omega
      · exact Nat.le_of_eq (mem_seeds new).1
    refine ⟨by omega, fun consumes => absurd ⟨?_, ready⟩ undue⟩
    simpa [consumesTokens] using consumes

theorem matching_fed (token : Token) (sound : session.Sound tokens)
    (now : session.time = tokens.length) (listener : Listener)
    (member : listener ∈ session.seeded.matching (session.time + 1) token.elementType) :
    listener ∈ session.opened.session.arena.toList ∧ listener.readyAt = session.time + 1 ∧
      Fed session.opened.session (tokens ++ [token]) session.opened.report.time listener
        (session.time + 1) token.elementType token.value none := by
  obtain ⟨active, consumes, early, agrees, _⟩ := session.mem_seeded_matching.mp member
  have planted : listener ∈ session.opened.session.arena.toList := by
    rw [opened_arena]
    exact List.mem_append.mpr (active.imp_left fun old => sound.active.subset old)
  have ready : listener.readyAt = session.time + 1 := by
    rcases active with old | new
    · have next := (sound.ready listener old).2 consumes
      omega
    · exact (mem_seeds new).1
  refine ⟨planted, ready, ?_⟩
  cases found : session.network.sites[listener.node]? with
  | none => simp [matchTypeOf, found] at agrees
  | some site =>
    have agrees : site.matchType = some token.elementType := by
      simpa [matchTypeOf, found] using agrees
    have kind := ((consumesTokens_iff found).mp consumes).2
    refine .token rfl ?_ rfl rfl (by rwa [opened_network]) agrees fun unified => ?_
    · simp [now]
    · rw [opened_mode] at unified
      exact kind.resolve_right (by simp [unified])

theorem sound_tick (token : Token) (sound : session.Sound tokens)
    (now : session.time = tokens.length) : (session.tick token).Sound (tokens ++ [token]) := by
  rw [tick_eq]
  exact sound_settle _ (sound_foldl_fire [] _ (sound_opened token sound now)
    (matching_fed token sound now))

/-- Nothing rests on which listeners are active, on the clock or on whether the session goes on. -/
theorem Sound.withActive {kept : List Listener} (sound : session.Sound tokens)
    (sub : kept.Sublist session.active) (time : Nat) (aborted : Bool) :
    Sound tokens { session with time, aborted, active := kept } :=
  { network := sound.network, log := sound.log, ordered := sound.ordered, arena := sound.arena
    active := sub.trans sound.active
    ready := fun listener member => sound.ready listener (sub.subset member) }

theorem feedWith_refused {sweep : Session → Session} (token : Token)
    (aborted : session.aborted = true) :
    session.feedWith sweep token = (.error (.aborted session.time), session) := by
  unfold feedWith
  rw [if_pos aborted]

theorem feedWith_settled {sweep : Session → Session} {token : Token}
    (going : session.aborted = false) (settled : (session.tick token).pending = []) :
    session.feedWith sweep token = (.ok (session.tick token).report,
      sweep { (session.tick token).session with time := (session.tick token).report.time }) := by
  simp [feedWith, going, settled]

theorem feedWith_deep {sweep : Session → Session} {token : Token} {deepest : Completion}
    {rest : List Completion} (going : session.aborted = false)
    (deep : (session.tick token).pending = deepest :: rest) :
    session.feedWith sweep token =
      (.error (.compositionCycle (session.tick token).report.time (deepest.path.length - 1)
        (((session.network.sites[deepest.node]?).map (·.localId)).getD "") deepest.path),
      { (session.tick token).session with
        time := (session.tick token).report.time, aborted := true }) := by
  simp [feedWith, going, deep]

theorem feedWith_isOk {sweep : Session → Session} {token : Token} :
    (session.feedWith sweep token).1.isOk = true ↔
      session.aborted = false ∧ (session.tick token).pending = [] := by
  cases going : session.aborted with
  | true => simp [feedWith_refused token going, Except.isOk, Except.toBool]
  | false =>
    cases pending : (session.tick token).pending with
    | nil => simp [feedWith_settled going pending, Except.isOk, Except.toBool]
    | cons deepest rest => simp [feedWith_deep going pending, Except.isOk, Except.toBool]

/-- Whether or not the tick settles, all of it is kept but the listeners swept away. -/
theorem feedWith_ticked {sweep : Session → Session} (dropping : Dropping sweep) (token : Token)
    (going : session.aborted = false) : ∃ kept aborted,
      kept.Sublist (session.tick token).session.active ∧
        (session.feedWith sweep token).2 = { (session.tick token).session with
          time := (session.tick token).report.time, aborted, active := kept } := by
  cases waits : (session.tick token).pending with
  | nil =>
    rw [feedWith_settled going waits]
    obtain ⟨kept, sub, same⟩ := dropping
      { (session.tick token).session with time := (session.tick token).report.time }
    exact ⟨kept, _, sub, same⟩
  | cons deepest rest =>
    rw [feedWith_deep going waits]
    exact ⟨_, true, .refl _, rfl⟩

theorem events_feedWith {sweep : Session → Session} (dropping : Dropping sweep) (token : Token)
    (going : session.aborted = false) :
    (session.feedWith sweep token).2.events = (session.tick token).session.events := by
  obtain ⟨_, _, _, fed⟩ := feedWith_ticked dropping token going
  rw [fed]
  rfl

theorem aborted_feedWith {sweep : Session → Session} (dropping : Dropping sweep) {token : Token}
    (going : session.aborted = false) (settled : (session.tick token).pending = []) :
    (session.feedWith sweep token).2.aborted = false := by
  rw [feedWith_settled going settled]
  obtain ⟨_, _, same⟩ := dropping
    { (session.tick token).session with time := (session.tick token).report.time }
  rw [same]
  exact (aborted_of_frame (session.tick_frame token)).trans going

theorem feedWith_basis {sweep : Session → Session} (dropping : Dropping sweep) (session : Session)
    (token : Token) : (session.feedWith sweep token).2.basis = session.basis := by
  have ticked := basis_of_frame (session.tick_frame token)
  cases aborted : session.aborted with
  | true => rw [feedWith_refused token aborted]
  | false =>
    cases waits : (session.tick token).pending with
    | nil =>
      rw [feedWith_settled aborted waits]
      obtain ⟨_, _, same⟩ := dropping
        { (session.tick token).session with time := (session.tick token).report.time }
      rw [same]
      exact ticked
    | cons deepest rest =>
      rw [feedWith_deep aborted waits]
      exact ticked

theorem sound_feedWith {sweep : Session → Session} (dropping : Dropping sweep) (token : Token)
    (going : session.aborted = false) (sound : session.Sound tokens)
    (now : session.time = tokens.length) :
    (session.feedWith sweep token).2.Sound (tokens ++ [token]) ∧
      (session.feedWith sweep token).2.time = tokens.length + 1 := by
  have ticked := sound_tick token sound now
  have time : (session.tick token).report.time = tokens.length + 1 := by simp [ticked.time]
  cases pending : (session.tick token).pending with
  | nil =>
    rw [feedWith_settled going pending]
    obtain ⟨kept, sub, same⟩ := dropping
      { (session.tick token).session with time := (session.tick token).report.time }
    rw [same]
    exact ⟨ticked.session.withActive sub _ _, time⟩
  | cons deepest rest =>
    rw [feedWith_deep going pending]
    exact ⟨ticked.session.withActive (.refl _) _ _, time⟩

theorem register_success {automaton : Automaton} {after : Session}
    (ok : session.register automaton = .ok after) : ∃ network,
    session.network.attach automaton (session.mode = .unified) = .ok network ∧
      (session.mode = .isolated → after =
        seed { session with network } (session.time + 1) (network.members.length - 1)) ∧
      (session.mode = .unified → after = { session with network }) := by
  unfold register at ok
  obtain ⟨network, attached, ok⟩ := bind_success ok
  refine ⟨network, attached, fun mode => ?_, fun mode => ?_⟩
  · simp only [mode] at ok
    rw [mode]
    exact (Except.ok.inj ok).symm
  · simp only [mode] at ok
    rw [mode]
    exact (Except.ok.inj ok).symm

/-- A pattern that joins changes the network and the listeners, and nothing else. -/
theorem register_grows {automaton : Automaton} {after : Session}
    (ok : session.register automaton = .ok after) : ∃ network listeners,
      session.network.attach automaton (session.mode = .unified) = .ok network ∧
        after = grow { session with network } listeners := by
  obtain ⟨network, attached, isolated, unified⟩ := register_success ok
  have modes : session.mode = .isolated ∨ session.mode = .unified := by
    cases session.mode <;> simp
  rcases modes with mode | mode
  · exact ⟨network, _, attached, (isolated mode).trans (seed_eq ..)⟩
  · exact ⟨network, [], attached, (unified mode).trans (grow_nil _).symm⟩

theorem Sound.site_grow {network : Network} (sound : session.Sound tokens)
    (grows : session.network.Grows network) {listener : Listener}
    (planted : listener ∈ session.arena.toList) :
    network.sites[listener.node]? = session.network.sites[listener.node]? := by
  obtain ⟨position, found⟩ := List.mem_iff_getElem?.mp planted
  obtain ⟨site, here, _⟩ := (sound.arena position listener found).grounded.site sound.network
  rw [here, grows.site here]

theorem Sound.consumesTokens_grow {network : Network} (sound : session.Sound tokens)
    (grows : session.network.Grows network) {listener : Listener}
    (planted : listener ∈ session.arena.toList) :
    consumesTokens { session with network } listener.node =
      session.consumesTokens listener.node := by
  simp only [consumesTokens, sound.site_grow grows planted]

theorem Sound.grow_network {network : Network} (sound : session.Sound tokens)
    (grown : network.Sound) (grows : session.network.Grows network) :
    Sound tokens { session with network } := by
  have logged := List.prefix_refl session.log.toList
  refine ⟨grown, ?_, sound.ordered, ?_, sound.active, fun listener member => ?_⟩
  · exact fun position event found =>
      (sound.log position event found).extend sound.network grown grows (List.prefix_refl _) logged
  · exact fun position listener found =>
      (sound.arena position listener found).extend sound.network grown grows logged
  · rw [sound.consumesTokens_grow grows (sound.active.subset member)]
    exact sound.ready listener member

theorem Sound.seed {readyAt : Nat} (sound : session.Sound tokens) (pattern : Nat)
    (next : readyAt = tokens.length + 1) : (session.seed readyAt pattern).Sound tokens := by
  rw [seed_eq]
  refine ⟨sound.network, sound.log, sound.ordered, ?_, ?_, fun listener member => ?_⟩
  · simp only [grow, Array.toList_append]
    apply arena_append sound.arena (by omega)
    intro listener spot _ start origin
    obtain ⟨_, member, found, entry⟩ := mem_openings.mp spot
    exact .entry origin start (by simp_all) entry
  · simp only [grow, Array.toList_append]
    exact sound.active.append (.refl _)
  · rcases List.mem_append.mp member with old | new
    · exact sound.ready listener old
    · have ready := (mem_listenersAt new).2.2.1
      exact ⟨by omega, fun _ => by omega⟩

theorem sound_start {network : Network} (sound : network.Sound) (mode : Mode) (limits : Limits) :
    (start network mode limits).Sound [] := by
  have bare : Sound [] { network, mode, limits } := by
    refine ⟨sound, ?_, ?_, ?_, ?_, ?_⟩ <;> simp [SoundLog]
  cases mode with
  | unified => exact bare
  | isolated =>
    have seeded (patterns : List Nat) {session : Session} (before : session.Sound []) :
        (patterns.foldl (fun s pattern => s.seed 1 pattern) session).Sound [] := by
      induction patterns generalizing session with
      | nil => exact before
      | cons pattern rest ih => exact ih (before.seed pattern rfl)
    exact seeded _ bare

theorem start_time (network : Network) (mode : Mode) (limits : Limits) :
    (start network mode limits).time = 0 ∧ (start network mode limits).network = network := by
  cases mode with
  | unified => exact ⟨rfl, rfl⟩
  | isolated =>
    simp only [start, seedAll_eq]
    exact ⟨rfl, rfl⟩

theorem aborted_start (network : Network) (mode : Mode) (limits : Limits) :
    (start network mode limits).aborted = false := by
  cases mode with
  | unified => rfl
  | isolated =>
    simp only [start, seedAll_eq]
    rfl

theorem sound_register {automaton : Automaton} {after : Session} (compiled : automaton.Compiled)
    (ok : session.register automaton = .ok after) (sound : session.Sound tokens)
    (now : session.time = tokens.length) : after.Sound tokens ∧ after.time = tokens.length := by
  obtain ⟨network, attached, isolated, unified⟩ := register_success ok
  obtain ⟨grown, grows, _⟩ := Network.attach_grows sound.network compiled.sound attached
  have larger := sound.grow_network grown grows
  cases mode : session.mode with
  | isolated =>
    rw [isolated mode]
    refine ⟨larger.seed _ (by omega), ?_⟩
    rw [seed_eq]
    exact now
  | unified =>
    rw [unified mode]
    exact ⟨larger, now⟩

end Session

namespace Course
open Session

variable {opened : Session → Prop} {sweep : Session → Session} {course : Course}

theorem Reached.sound (starts : ∀ session, opened session → ∃ network mode limits,
      session = Session.start network mode limits ∧ network.Sound)
    (dropping : Dropping sweep) (reached : Reached opened sweep course) :
    course.session.Sound course.tokens ∧ course.session.time = course.tokens.length := by
  induction reached with
  | start opening =>
    obtain ⟨network, mode, limits, rfl, sound⟩ := starts _ opening
    exact ⟨sound_start sound mode limits, (start_time ..).1⟩
  | @call course reached call compiled ih =>
    obtain ⟨sound, now⟩ := ih
    cases call with
    | feed token =>
      cases going : course.session.aborted with
      | true =>
        simp only [Course.call, Session.call, feedWith_refused token going, going, if_true]
        exact ⟨sound, now⟩
      | false =>
        simp only [Course.call, Session.call, going, Bool.false_eq_true, if_false]
        obtain ⟨fed, time⟩ := sound_feedWith dropping token going sound now
        exact ⟨fed, by simp [time]⟩
    | register automaton =>
      simp only [Course.call, Session.call]
      split
      · exact ⟨sound, now⟩
      · exact sound_register compiled ‹_› sound now
    | reset =>
      exact ⟨sound_start sound.network _ _, (start_time ..).1⟩

/-- Provenance: at every point of every course, in either mode and over any network built, also
once the session is aborted. -/
theorem events_sound (reached : Reached Opening sweepUnified course) :
    course.session.time = course.tokens.length ∧
      course.session.events.Pairwise (·.time ≤ ·.time) ∧
      ∀ (position : Nat) (event : Event), course.session.events[position]? = some event →
        event.Sound course.session.network course.session.mode course.tokens course.session.events
          position := by
  obtain ⟨sound, now⟩ := reached.sound (fun _ opening => opening.starts) dropping_sweepUnified
  exact ⟨now, sound.ordered, sound.log⟩

/-- The second number aborts the session, which may take no hop from sum to sum. -/
theorem events_sound_aborted :
    let course := sumsCourse { maxCascadeDepth := 0 } numbers
    course.session.aborted = true ∧ course.session.events.length = 7 ∧
      course.session.time = course.tokens.length ∧
      course.session.events.Pairwise (·.time ≤ ·.time) ∧
      ∀ (position : Nat) (event : Event), course.session.events[position]? = some event →
        event.Sound course.session.network course.session.mode course.tokens course.session.events
          position :=
  ⟨by decide +kernel, by decide +kernel,
    events_sound (sumsCourse_reached _ numbers (.unified (.composed (.grammar sums_network))))⟩

end Course

end Constructicon
