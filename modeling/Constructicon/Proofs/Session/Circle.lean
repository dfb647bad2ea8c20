import Constructicon.Proofs.Session.Hops
import Constructicon.Proofs.Session.Rest
import Mathlib.Algebra.GroupWithZero.Nat

/-! Patterns that are at once one another in a circle. A session that misses nothing answers every
completion on such a circle by a later one of the next pattern, so a tick that settles records
none: whoever completes one aborts the session, and an aborted session refuses every token until
it starts anew. -/
namespace Constructicon

namespace Network

variable {old new : Network} {node inner outer : Nat}

theorem Grows.refers (grows : old.Grows new) (refers : old.Refers node inner) :
    new.Refers node inner := by
  obtain ⟨site, member, here, registered, names⟩ := refers
  exact ⟨site, member, grows.site here, grows.member registered, names⟩

theorem Grows.zeroWidth (grows : old.Grows new) (sound : old.Sound)
    (step : old.ZeroWidth inner outer) : new.ZeroWidth inner outer := by
  obtain ⟨member, node, registered, entry, refers, ends⟩ := step
  have bound : node < old.sites.length := by
    obtain ⟨_, _, here, _⟩ := refers
    exact lt_of_site here
  exact ⟨member, node, grows.member registered, entry, grows.refers refers,
    grows.closureAfter sound bound ▸ ends⟩

end Network

namespace Session

variable {tokens : List Token} {joined : List Nat} {session : Session}

/-- A firing from which the end is reached is followed by the completion of its instance. -/
theorem Full.completes (full : session.Full tokens joined) {fire node : Nat} {firing : Event}
    (recorded : session.log.toList[fire]? = some firing) (fired : firing.kind = .fire)
    (place : session.network.find? firing.pattern firing.node = some node)
    (ends : (session.network.closureAfter node).reachesEnd = true) :
    ∃ (later : Nat) (next : Event), fire < later ∧ session.log.toList[later]? = some next ∧
      next.kind = .complete ∧ next.pattern = firing.pattern ∧ next.start = firing.start := by
  rcases full.tick.thorough.ends fire firing node recorded fired place ends with
    ⟨later, next, stands, kind, cause⟩ | ⟨_, none, _⟩
  · have sound := full.sound.log later next stands
    cases sound.grounded with
    | token fired => cases kind.symm.trans fired
    | reference fired => cases kind.symm.trans fired
    | completion _ _ _ _ _ _ caused before earlier _ pattern start =>
      cases caused.symm.trans cause
      cases before.symm.trans recorded
      exact ⟨later, next, sound.id ▸ earlier, stands, kind, pattern.symm, start.symm⟩
  · cases none

/-- A completion is followed by one of every pattern that it is at once. -/
theorem Full.completes_next (full : session.Full tokens joined) {inner outer id since : Nat}
    {event : Event} (step : session.network.ZeroWidth inner outer)
    (found : session.log.toList[id]? = some event) (completed : event.kind = .complete)
    (index : session.network.memberIndex? event.pattern = some inner)
    (known : joined[outer]? = some since) (early : since < event.start) :
    ∃ (later : Nat) (next : Event), id < later ∧ session.log.toList[later]? = some next ∧
      next.kind = .complete ∧ session.network.memberIndex? next.pattern = some outer ∧
      next.start = event.start := by
  obtain ⟨member, node, registered, entry, ⟨site, fed, here, feeds, names⟩, ends⟩ := step
  obtain ⟨_, same, pattern⟩ := Network.Sound.member_of_memberIndex? index
  cases feeds.symm.trans same
  have past : event.start ≤ session.time := by
    have sound := full.sound.log id event found
    exact full.now ▸ Nat.le_trans sound.spans sound.past
  -- the first element of the next pattern has waited since the completion began
  obtain ⟨listener, planted, owner, rfl, ready, start, origin⟩ :=
    full.tick.seeded outer node event.start since member registered entry known early past
  obtain ⟨fire, firing, recorded, facts⟩ := full.tick.references id event listener site found
    completed planted here (names.trans (congrArg some pattern)) ready
  have after : id < fire := (full.sound.log fire firing recorded).sub_lt facts.consumed
  obtain ⟨later, next, beyond, stands, kind, named, begins⟩ :=
    full.completes recorded facts.kind facts.place ends
  have index' : session.network.memberIndex? firing.pattern = some listener.pattern := facts.pattern
  refine ⟨later, next, Nat.lt_trans after beyond, stands, kind, ?_, ?_⟩
  · rw [named, index', owner]
  · rw [begins, facts.start, Listener.anchor, start, Option.getD_none, ready]

section Circle

variable {size : Nat} [NeZero size] {circle : Fin size → Nat}

/-- A session that misses nothing has completed no pattern of a circle, for each completion would
be followed by another without end. -/
theorem Full.none_on_circle (full : session.Full tokens joined)
    (closed : ∀ k, session.network.ZeroWidth (circle k) (circle (k + 1)))
    (opening : ∀ k, joined[circle k]? = some 0) (k : Fin size) {id : Nat} {event : Event}
    (found : session.log.toList[id]? = some event) (completed : event.kind = .complete) :
    session.network.memberIndex? event.pattern ≠ some (circle k) := by
  intro index
  have bound := (List.getElem?_eq_some_iff.mp found).1
  induction left : session.log.toList.length - id using Nat.strong_induction_on
    generalizing id event k with
  | _ left ih =>
    obtain ⟨later, next, after, stands, kind, index', _⟩ := full.completes_next (closed k) found
      completed index (opening (k + 1)) (full.sound.log id event found).begins
    have bound' := (List.getElem?_eq_some_iff.mp stands).1
    exact ih _ (by omega) (k + 1) stands kind index' bound' rfl

end Circle

section Aborted

variable {sweep : Session → Session}

theorem call_aborted {call : Call} (aborted : session.aborted = true) (goesOn : call ≠ .reset) :
    (session.call sweep call).2.aborted = true ∧
      (session.call sweep call).2.time = session.time := by
  cases call with
  | feed token =>
    simp only [Session.call, feedWith_refused token aborted]
    exact ⟨aborted, trivial⟩
  | register automaton =>
    cases ok : session.register automaton with
    | error error =>
      simp only [Session.call, ok]
      exact ⟨aborted, trivial⟩
    | ok after =>
      simp only [Session.call, ok]
      obtain ⟨_, _, _, rfl⟩ := register_grows ok
      exact ⟨aborted, rfl⟩
  | reset => exact absurd rfl goesOn

/-- Only a reset ends the refusal of an aborted session. -/
theorem run_aborted (aborted : session.aborted = true) (calls : List Call)
    (goesOn : ∀ call ∈ calls, call ≠ .reset) : (session.run sweep calls).2.aborted = true ∧
      (session.run sweep calls).2.time = session.time := by
  induction calls generalizing session with
  | nil => exact ⟨aborted, rfl⟩
  | cons call rest ih =>
    obtain ⟨still, time⟩ := call_aborted aborted (goesOn call List.mem_cons_self)
    obtain ⟨final, time'⟩ := ih still fun later member =>
      goesOn later (List.mem_cons_of_mem _ member)
    exact ⟨final, time'.trans time⟩

end Aborted

end Session

namespace Course
open Session

variable {opened more : Session → Prop} {sweep : Session → Session} {course : Course}

theorem Reached.mono (reached : course.Reached opened sweep)
    (weaker : ∀ session, opened session → more session) : course.Reached more sweep := by
  induction reached with
  | start opening => exact .start (weaker _ opening)
  | call _ call compiled ih => exact ih.call call compiled

/-- The patterns of the opening are there from the start, and keep their places. -/
theorem Reached.keeps_opening {network : Network} {limits : Limits} (sound : network.Sound)
    (dropping : Dropping sweep) (reached : course.Reached (· = unified network limits) sweep) :
    network.Grows course.session.network ∧
      ∀ pattern < network.members.length, course.joined[pattern]? = some 0 := by
  induction reached with
  | start opening =>
    subst opening
    refine ⟨network.grows_refl, fun pattern bound => List.getElem?_map.trans ?_⟩
    have here : pattern < (unified network limits).network.members.length := bound
    rw [List.getElem?_eq_getElem here]
    rfl
  | @call course before call compiled ih =>
    obtain ⟨grows, known⟩ := ih
    cases call with
    | feed token =>
      have basis := feedWith_basis dropping course.session token
      exact ⟨network_of_basis basis ▸ grows, known⟩
    | register automaton =>
      simp only [Course.call, Session.call]
      cases ok : course.session.register automaton with
      | error error => exact ⟨grows, known⟩
      | ok after =>
        have here := (before.sound (fun _ opening => ⟨network, _, limits, opening, sound⟩)
          dropping).1
        obtain ⟨grown, _, attached, rfl⟩ := register_grows ok
        obtain ⟨_, further, _⟩ := Network.attach_grows here.network compiled.sound attached
        exact ⟨grows.trans further, fun pattern bound =>
          getElem?_extend (List.prefix_append _ _) (known pattern bound)⟩
    | reset =>
      refine ⟨(start_time ..).2.symm ▸ grows, fun pattern bound => List.getElem?_map.trans ?_⟩
      rw [known pattern bound]
      rfl

/-- A tick that completes a pattern of a circle of the opening does not settle. -/
theorem Reached.unsettled {network : Network} {limits : Limits} (composition : network.Composition)
    (reached : course.Reached (· = unified network limits) sweepUnified)
    (going : course.session.aborted = false) {size : Nat} [NeZero size] {circle : Fin size → Nat}
    (closed : ∀ k, network.ZeroWidth (circle k) (circle (k + 1))) {token : Token} {event : Event}
    (recorded : event ∈ (course.session.tick token).session.log.toList)
    (completed : event.kind = .complete) {k : Fin size} {member : Member}
    (registered : network.members[circle k]? = some member) (names : event.pattern = member.name) :
    (course.session.tick token).pending ≠ [] := by
  intro settled
  obtain ⟨sound, composed⟩ := composition.sound
  obtain ⟨whole, beside, _, joined, thins⟩ := reached.unswept fun _ opening =>
    ⟨network, limits, opening, .composed composition⟩
  obtain ⟨grows, known⟩ := beside.keeps_opening sound dropping_id
  have composes (session : Session) (opening : session = unified network limits) :
      Composed session := opening ▸ .unified composition
  have complete := (beside.mono composes).complete
  have aborted : whole.session.aborted = course.session.aborted := by rw [thins.same]
  have full := complete.full (aborted.trans going)
  -- never swept, the session does in this tick what it does when swept
  have ticked := thins.tick token
  have pending : (whole.session.tick token).pending = (course.session.tick token).pending := by
    rw [ticked.same]
  have log : (whole.session.tick token).session.log = (course.session.tick token).session.log := by
    rw [ticked.same]
  have fed := full.feed (pending.trans settled)
  have same : (whole.session.tick token).session.network = whole.session.network :=
    (full.settled token).2.2.1
  obtain ⟨id, found⟩ := List.mem_iff_getElem?.mp (log ▸ recorded)
  have bound (k : Fin size) : circle k < network.members.length := by
    obtain ⟨_, _, _, _, ⟨_, _, _, here, _⟩, _⟩ := closed k
    exact (List.getElem?_eq_some_iff.mp here).1
  have index : (whole.session.tick token).session.network.memberIndex? event.pattern =
      some (circle k) := by
    rw [same, names]
    exact complete.sound.memberIndex?_eq (grows.member registered)
  exact fed.none_on_circle (fun k => same.symm ▸ grows.zeroWidth sound (closed k))
    (fun k => known (circle k) (bound k)) k found completed index

end Course

namespace Session

/-- Circles of patterns that are at once one another are caught: whatever was asked of the session
before, a tick that completes a pattern of the circle aborts it, and all it does from then on, until
it is reset, is to refuse. -/
theorem circle_aborts {grammar : Grammar} {limits : Limits} {session : Session}
    (opened : ofGrammar grammar limits = .ok session) {size : Nat} [NeZero size]
    (circle : Fin size → Nat)
    (closed : ∀ k, session.network.ZeroWidth (circle k) (circle (k + 1)))
    (calls : List Call) (compiled : ∀ call ∈ calls, call.Compiled) (token : Token) :
    let before := (session.run sweepUnified calls).2
    let after := (before.feed token).2
    before.aborted = false →
    (∃ event ∈ after.events.drop before.events.length, event.kind = .complete ∧
      ∃ (k : Fin size) (member : Member), session.network.members[circle k]? = some member ∧
        event.pattern = member.name) →
    (∃ (depth : Nat) (node : String) (path : List String),
      (before.feed token).1 = .error (.compositionCycle (before.time + 1) depth node path)) ∧
    after.aborted = true ∧
    ∀ later : List Call, (∀ call ∈ later, call ≠ .reset) → ∀ next : Token,
      let now := (after.run sweepUnified later).2
      now.feed next = (.error (.aborted (before.time + 1)), now) := by
  obtain ⟨network, built, ok⟩ := bind_success opened
  cases ok
  have composition : network.Composition := .grammar built
  have begins : (Course.start (unified network limits)).Reached (· = unified network limits)
      sweepUnified := .start rfl
  obtain ⟨course, reached, same⟩ := begins.run calls compiled
  intro before after going ⟨event, recorded, completed, k, member, registered, names⟩
  change course.session = before at same
  clear_value before
  subst same
  obtain ⟨sound, now⟩ := reached.sound
    (fun _ opening => ⟨network, _, limits, opening, composition.sound.1⟩) dropping_sweepUnified
  have time : (course.session.tick token).report.time = course.session.time + 1 := by
    have ticked := sound_tick token sound now
    simp [ticked.time, now]
  have log : after.events = (course.session.tick token).session.events :=
    events_feedWith dropping_sweepUnified token going
  cases deep : (course.session.tick token).pending with
  | nil =>
    rw [log] at recorded
    exact absurd deep (reached.unsettled composition going closed (List.mem_of_mem_drop recorded)
      completed registered names)
  | cons deepest rest =>
    have fed : course.session.feedWith sweepUnified token = _ := feedWith_deep going deep
    rw [time] at fed
    have aborted : after.aborted = true := congrArg (·.2.aborted) fed
    refine ⟨⟨_, _, _, congrArg Prod.fst fed⟩, aborted, fun later goesOn next => ?_⟩
    obtain ⟨still, since⟩ : (after.run sweepUnified later).2.aborted = true ∧ _ :=
      run_aborted aborted later goesOn
    have stopped : after.time = course.session.time + 1 := congrArg (·.2.time) fed
    intro now
    rw [feed, feedWith_refused next still, since, stopped]

/-- An `A` is `X` and then `Y`, or else a `B`, and a `B` is an `A`. -/
def circular : Grammar :=
  Grammar.ofPatterns [
    { name := "A"
      nodes := Table.ofList [("start", { kind := .start }), ("x", Node.consuming "X"),
        ("y", Node.consuming "Y"), ("b", Node.referring "B"), ("end", { kind := .finish })]
      edges := [{ source := "start", target := "x" }, { source := "x", target := "y" },
        { source := "y", target := "end" }, { source := "start", target := "b" },
        { source := "b", target := "end" }] },
    Pattern.sequence "B" ["@A"]]

/-- The first token completes nothing, the second an `A`, whose references waited since before. -/
theorem circle_aborts_circular :
    let opened := unified circular.composed { maxCascadeDepth := 8 }
    let before := (opened.run sweepUnified [.feed ⟨"X", "x"⟩]).2
    let after := (before.feed ⟨"Y", "y"⟩).2
    (∀ k : Fin 2, circular.composed.ZeroWidth k.val (k + 1).val) ∧
      before.aborted = false ∧
      (∃ event ∈ after.events.drop before.events.length,
        event.kind = .complete ∧ event.pattern = "A") ∧
      (∃ (depth : Nat) (node : String) (path : List String),
        (before.feed ⟨"Y", "y"⟩).1 = .error (.compositionCycle 2 depth node path)) ∧
      after.aborted = true ∧
      ∀ later : List Call, (∀ call ∈ later, call ≠ .reset) → ∀ next : Token,
        let now := (after.run sweepUnified later).2
        now.feed next = (.error (.aborted 2), now) := by
  intro opened before after
  have closed : ∀ k : Fin 2, circular.composed.ZeroWidth k.val (k + 1).val := by decide +kernel
  have going : before.aborted = false := by decide +kernel
  have completes : ∃ event ∈ after.events.drop before.events.length,
      event.kind = .complete ∧ event.pattern = "A" := by decide +kernel
  have named : (circular.composed.members[(0 : Fin 2).val]?).map (·.name) = some "A" := by
    decide +kernel
  have second : before.time + 1 = 2 := by decide +kernel
  have composes : circular.network.isOk = true := by decide +kernel
  obtain ⟨event, recorded, completed, pattern⟩ := completes
  obtain ⟨member, registered, names⟩ := Option.map_eq_some_iff.mp named
  obtain ⟨cycle, aborted, refused⟩ := circle_aborts
    (ofGrammar_composed composes { maxCascadeDepth := 8 }) (fun k : Fin 2 => k.val) closed
    [.feed ⟨"X", "x"⟩] (by simp [Call.Compiled]) ⟨"Y", "y"⟩ going
    ⟨event, recorded, completed, 0, member, registered, pattern.trans names.symm⟩
  exact ⟨closed, going, ⟨event, recorded, completed, pattern⟩, second ▸ cycle, aborted,
    fun later goesOn next => second ▸ refused later goesOn next⟩

end Session

end Constructicon
