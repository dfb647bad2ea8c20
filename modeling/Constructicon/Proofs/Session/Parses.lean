import Mathlib.Data.Set.Function
import Constructicon.Proofs.Session.Saying

/-! Every parse is recorded once. Whatever a derivation needs next has a listener awaiting it, which
fires when its token comes or when its part is completed, so by induction on the derivation every
derivation is said by some completion; and by one only, as none is said twice. -/
namespace Constructicon

theorem Network.Takes.fed {network : Network} {tokens : List Token} {node tick : Nat}
    (takes : network.Takes tokens node tick) : tick - 1 < tokens.length := by
  obtain ⟨_, _, _, _, current, _⟩ := takes
  exact (List.getElem?_eq_some_iff.mp current).1

namespace Session

variable {tokens : List Token} {joined : List Nat} {session : Session}

/-- A firing from which the end is reached was completed in its tick, and the completion says what
the firing says. -/
theorem Full.completed (full : session.Full tokens joined) {id node : Nat} {event : Event}
    (found : session.events[id]? = some event) (fired : event.kind = .fire)
    (place : session.network.find? event.pattern event.node = some node)
    (ends : (session.network.closureAfter node).reachesEnd = true) :
    ∃ (other : Nat) (completion : Event), session.events[other]? = some completion ∧
      completion.kind = .complete ∧ completion.pattern = event.pattern ∧
      completion.start = event.start ∧ completion.time = event.time ∧
      session.network.reading session.events other = session.network.reading session.events id := by
  rcases full.tick.thorough.ends id event node found fired place ends with
    ⟨other, completion, recorded, completed, caused⟩ | ⟨_, waits, _⟩
  · obtain ⟨cause, before, final, concludes⟩ := exists_concludes full.log recorded completed
    cases caused.symm.trans concludes.caused
    cases Eq.trans found.symm concludes.recorded
    exact ⟨other, completion, recorded, completed, concludes.pattern.symm, concludes.start.symm,
      concludes.time.symm, concludes.reads⟩
  · cases waits

/-- A listener for the element `node` of an instance that began at `first` and said `before`, ready
at `position`. -/
structure Awaits (session : Session) (pattern first position node : Nat) (before : Derivation)
    (listener : Listener) : Prop where
  planted : listener ∈ session.arena.toList
  pattern : listener.pattern = pattern
  node : listener.node = node
  ready : listener.readyAt = position
  anchor : listener.anchor = first
  preceding : listener.origin = none ∧ before = .nothing ∨ ∃ cause, listener.origin = some cause ∧
    session.network.reading session.events cause = some before

/-- Some firing at `node` says the derivation begun. -/
def Records (session : Session) (pattern first last node : Nat) (derivation : Derivation) : Prop :=
  ∃ (id : Nat) (event : Event), session.events[id]? = some event ∧ event.kind = .fire ∧
    session.network.memberIndex? event.pattern = some pattern ∧
    session.network.find? event.pattern event.node = some node ∧ event.start = first ∧
    event.time = last ∧ session.network.reading session.events id = some derivation

theorem Full.first_le (full : session.Full tokens joined) {pattern first last node : Nat}
    {derivation : Derivation} (records : session.Records pattern first last node derivation) :
    first ≤ session.time := by
  obtain ⟨id, event, recorded, _, _, _, start, _⟩ := records
  have spans := (full.log id event recorded).spans
  have bound := (full.log id event recorded).past
  have now := full.now
  omega

theorem Full.awaits_first (full : session.Full tokens joined) {pattern node tick : Nat}
    (opens : session.network.Opens joined pattern node tick) (past : tick ≤ session.time) :
    ∃ listener, session.Awaits pattern tick tick node .nothing listener := by
  obtain ⟨⟨member, found, entry⟩, since, known, early⟩ := opens
  obtain ⟨listener, planted, on, at', ready, start, origin⟩ :=
    full.tick.seeded pattern node tick since member found entry known early past
  have anchor : listener.anchor = tick := by rw [Listener.anchor, start, Option.getD_none, ready]
  exact ⟨listener, planted, on, at', ready, anchor, .inl ⟨origin, rfl⟩⟩

theorem Full.awaits_next (full : session.Full tokens joined) {pattern first last node next : Nat}
    {before : Derivation} (records : session.Records pattern first last node before)
    (follows : next ∈ (session.network.closureAfter node).elements) :
    ∃ listener, session.Awaits pattern first (last + 1) next before listener := by
  obtain ⟨id, event, found, fired, owner, place, rfl, rfl, said⟩ := records
  obtain ⟨listener, planted, origin, on, ready, start⟩ :=
    full.tick.thorough.follows id event node found fired place next follows
  have anchor : listener.anchor = event.start := by
    rw [Listener.anchor, start, Option.getD_some]
  refine ⟨listener, planted, ?_, on, ready, anchor, .inr ⟨id, origin, said⟩⟩
  obtain ⟨position, here⟩ := List.mem_iff_getElem?.mp planted
  cases (full.sound.arena position listener here).grounded with
  | entry first => cases origin.symm.trans first
  | after origin' recorded _ _ _ _ index =>
    cases origin.symm.trans origin'
    cases Eq.trans found.symm recorded
    exact Option.some.inj (index.symm.trans owner)

theorem Awaits.preceded {pattern first position node time : Nat} {before other : Derivation}
    {listener : Listener} {sub : Option Nat} {event : Event} {at' ready : Nat}
    (awaits : session.Awaits pattern first position node before listener)
    (facts : FiredAs session.network listener time sub event)
    (preceded : Preceded session.network session.events event at' ready other) : other = before := by
  cases preceded with
  | first cause =>
    have origin := facts.cause.symm.trans cause
    rcases awaits.preceding with ⟨_, rfl⟩ | ⟨_, origin', _⟩
    · rfl
    · cases origin.symm.trans origin'
  | next caused _ _ _ _ _ _ _ reads =>
    have origin := facts.cause.symm.trans caused
    rcases awaits.preceding with ⟨origin', _⟩ | ⟨_, origin', reads'⟩
    · cases origin.symm.trans origin'
    · cases origin.symm.trans origin'
      exact Option.some.inj (reads.symm.trans reads')

theorem Awaits.records {pattern first position node last id : Nat} {before derivation : Derivation}
    {listener : Listener} {sub : Option Nat} {event : Event}
    (awaits : session.Awaits pattern first position node before listener)
    (recorded : session.events[id]? = some event)
    (facts : FiredAs session.network listener last sub event)
    (reads : session.network.reading session.events id = some derivation) :
    session.Records pattern first last node derivation :=
  ⟨id, event, recorded, facts.kind, facts.pattern.trans (congrArg some awaits.pattern),
    facts.place.trans (congrArg some awaits.node), facts.start.trans awaits.anchor, facts.time, reads⟩

theorem Full.records_token (full : session.Full tokens joined)
    {pattern first position node : Nat} {before : Derivation} {listener : Listener}
    (awaits : session.Awaits pattern first position node before listener)
    (takes : session.network.Takes tokens node position) :
    session.Records pattern first position node (.token before node) := by
  have fed := takes.fed
  have now := full.now
  have on := awaits.node
  have ready := awaits.ready
  subst on ready
  obtain ⟨site, token, here, refers, current, agrees⟩ := takes
  have consumes : session.consumesTokens listener.node = true :=
    (consumesTokens_iff here).mpr ⟨Network.role_of_matchType agrees, .inl refers⟩
  have matches' : session.matchTypeOf listener.node = some token.elementType :=
    (congrArg (·.bind Site.matchType) here).trans agrees
  obtain ⟨id, event, recorded, facts⟩ := full.tick.tokens listener awaits.planted token consumes
    (by omega) current matches'
  obtain ⟨derivation, reads, saying⟩ := exists_saying full.log id recorded facts.kind
  cases saying with
  | token place preceded consumed =>
    cases awaits.preceded facts preceded
    cases place.symm.trans facts.place
    exact awaits.records recorded facts reads
  | construction _ _ consumed => cases consumed.symm.trans facts.consumed

theorem Full.records_construction (full : session.Full tokens joined)
    {pattern first position node sub last final : Nat} {before inner : Derivation}
    {listener : Listener} (awaits : session.Awaits pattern first position node before listener)
    (refers : session.network.Refers node sub)
    (part : session.Records sub position last final inner)
    (ends : (session.network.closureAfter final).reachesEnd = true) :
    session.Records pattern first last node (.construction before node inner) := by
  have on := awaits.node
  have ready := awaits.ready
  subst on ready
  obtain ⟨id, event, found, fired, owner, place, start, time, reads⟩ := part
  obtain ⟨other, completion, recorded, completed, pattern', start', time', same⟩ :=
    full.completed found fired place ends
  obtain ⟨site, member, here, registered, names⟩ := refers
  obtain ⟨member', registered', name⟩ := Network.Sound.member_of_memberIndex? owner
  cases registered.symm.trans registered'
  have feeding := full.tick.references other completion listener site recorded completed
    awaits.planted here (names.trans (congrArg some (name.trans pattern'.symm)))
    (start'.trans start).symm
  rw [time', time] at feeding
  obtain ⟨id', fed, recorded', facts⟩ := feeding
  obtain ⟨derivation, reads', saying⟩ := exists_saying full.log id' recorded' facts.kind
  cases saying with
  | token _ _ consumed => cases consumed.symm.trans facts.consumed
  | construction place preceded consumed _ _ _ _ _ inside =>
    cases awaits.preceded facts preceded
    cases place.symm.trans facts.place
    cases consumed.symm.trans facts.consumed
    cases inside.symm.trans (same.trans reads)
    exact awaits.records recorded' facts reads'

/-- Every derivation begun is recorded. -/
theorem Full.records (full : session.Full tokens joined) {pattern first last node : Nat}
    {derivation : Derivation}
    (begun : session.network.Begun tokens joined pattern first last node derivation) :
    session.Records pattern first last node derivation := by
  induction begun with
  | @token pattern node tick opens takes =>
    have fed := takes.fed
    have now := full.now
    have past : tick ≤ session.time := by omega
    obtain ⟨listener, awaits⟩ := full.awaits_first opens past
    exact full.records_token awaits takes
  | construction opens refers _ ends part =>
    obtain ⟨listener, awaits⟩ := full.awaits_first opens (full.first_le part)
    exact full.records_construction awaits refers part ends
  | nextToken _ follows takes before =>
    obtain ⟨listener, awaits⟩ := full.awaits_next before follows
    exact full.records_token awaits takes
  | nextConstruction _ follows refers _ ends before part =>
    obtain ⟨listener, awaits⟩ := full.awaits_next before follows
    exact full.records_construction awaits refers part ends

/-- The completions of a pattern over a span. -/
def completions (session : Session) (pattern first last : Nat) : Set Nat :=
  { id | ∃ event : Event, session.events[id]? = some event ∧ event.kind = .complete ∧
    session.network.memberIndex? event.pattern = some pattern ∧ event.start = first ∧
    event.time = last }

theorem Full.exists_reading (full : session.Full tokens joined) {id : Nat} {completion : Event}
    (found : session.events[id]? = some completion) (completed : completion.kind = .complete) :
    ∃ derivation, session.network.reading session.events id = some derivation := by
  obtain ⟨cause, event, final, concludes⟩ := exists_concludes full.log found completed
  obtain ⟨derivation, reads, _⟩ := exists_saying full.log cause concludes.recorded concludes.fired
  exact ⟨derivation, concludes.reads.trans reads⟩

theorem Full.mapsTo_reading (full : session.Full tokens joined) (pattern first last : Nat) :
    Set.MapsTo (session.network.reading session.events) (session.completions pattern first last)
      (some '' { derivation | session.network.Derives tokens joined pattern first last derivation }) := by
  intro id member
  obtain ⟨completion, found, completed, owner, rfl, rfl⟩ := member
  obtain ⟨derivation, reads⟩ := full.exists_reading found completed
  have derives := full.derives found completed owner reads (full.justified derivation)
  exact ⟨derivation, derives, reads.symm⟩

theorem Full.injOn_reading (full : session.Full tokens joined) (pattern first last : Nat) :
    Set.InjOn (session.network.reading session.events)
      (session.completions pattern first last) := by
  intro a memberA b memberB same
  obtain ⟨e, foundE, completedE, ownerE, startE, _⟩ := memberA
  obtain ⟨f, foundF, completedF, ownerF, startF, _⟩ := memberB
  obtain ⟨derivation, reads⟩ := full.exists_reading foundE completedE
  exact full.completion_unique foundE foundF completedE completedF
    (Network.Sound.memberIndex?_injective ownerE ownerF) (startE.trans startF.symm)
    (full.saidOnce derivation) reads (same ▸ reads)

theorem Full.surjOn_reading (full : session.Full tokens joined) (pattern first last : Nat) :
    Set.SurjOn (session.network.reading session.events) (session.completions pattern first last)
      (some '' { derivation | session.network.Derives tokens joined pattern first last derivation }) := by
  intro said member
  obtain ⟨derivation, ⟨final, begun, ends⟩, rfl⟩ := member
  obtain ⟨id, event, found, fired, owner, place, start, time, reads⟩ := full.records begun
  obtain ⟨other, completion, recorded, completed, pattern', start', time', same⟩ :=
    full.completed found fired place ends
  exact ⟨other, ⟨completion, recorded, completed, pattern' ▸ owner, start'.trans start,
    time'.trans time⟩, same.trans reads⟩

end Session

namespace Course

/-- Unified recognition is complete and counts every parse once: in a session over a composed
network that is not aborted, whatever patterns joined it, the completions of a pattern over a span
say its derivations over that span, each derivation once. -/
theorem parses_once {course : Course} (reached : course.Reached Composed Session.sweepUnified)
    (going : course.session.aborted = false) (pattern first last : Nat) :
    Set.BijOn (course.session.network.reading course.session.events)
      (course.session.completions pattern first last)
      (some '' { derivation | course.session.network.Derives course.tokens course.joined pattern first
        last derivation }) := by
  obtain ⟨whole, beside, tokens, joined, thins⟩ := reached.unswept (by
    intro session opening
    cases opening with
    | unified composition => exact ⟨_, _, rfl, .composed composition⟩)
  have network : whole.session.network = course.session.network := by rw [thins.same]
  have events : whole.session.events = course.session.events := by
    unfold Session.events
    rw [thins.same]
  have aborted : whole.session.aborted = course.session.aborted := by rw [thins.same]
  have full := beside.complete.full (aborted.trans going)
  have bijective : Set.BijOn (whole.session.network.reading whole.session.events)
      (whole.session.completions pattern first last) (some '' { derivation |
        whole.session.network.Derives whole.tokens whole.joined pattern first last derivation }) :=
    ⟨full.mapsTo_reading pattern first last, full.injOn_reading pattern first last,
      full.surjOn_reading pattern first last⟩
  unfold Session.completions at bijective ⊢
  rwa [network, events, tokens, joined] at bijective

/-- Three numbers are a sum in two ways, and both are recorded. -/
theorem parses_once_sums :
    let course := sumsCourse {} numbers
    ((course.session.events.filter fun event =>
      event.kind = .complete ∧ event.start = 1 ∧ event.time = 3).length = 2) ∧
    Set.BijOn (course.session.network.reading course.session.events)
      (course.session.completions 0 1 3)
      (some '' { derivation | course.session.network.Derives course.tokens course.joined 0 1 3
        derivation }) :=
  ⟨by decide +kernel, parses_once (sumsCourse_reached _ numbers (.unified (.grammar sums_network)))
    (by decide +kernel) 0 1 3⟩

end Course

end Constructicon
