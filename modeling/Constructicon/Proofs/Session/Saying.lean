import Constructicon.Proofs.Session.Derivation
import Constructicon.Proofs.Session.Rest

/-! What a log says. Every firing of a sound log can be read along its links, and in a session that
missed nothing it says a derivation begun: by induction on what is said, a firing goes on from what
its cause says, and a completion says what the firing it concludes says. No two firings of
instances that begin together say the same, since no two events differ in nothing but their ids. -/
namespace Constructicon

/-- What was said before `node` consumed what begins at `position`. -/
inductive Preceded (network : Network) (log : List Event) (event : Event) (node position : Nat) :
    Derivation → Prop where
  | first {member : Member} (cause : event.cause = none) (start : event.start = position)
      (registered : network.member? event.pattern = some member) (opens : node ∈ member.entryNodes) :
      Preceded network log event node position .nothing
  | next {cause last : Nat} {previous : Event} {before : Derivation}
      (caused : event.cause = some cause) (recorded : log[cause]? = some previous)
      (fired : previous.kind = .fire) (pattern : previous.pattern = event.pattern)
      (start : previous.start = event.start) (adjacent : previous.time + 1 = position)
      (place : network.find? previous.pattern previous.node = some last)
      (follows : node ∈ (network.closureAfter last).elements)
      (reads : network.reading log cause = some before) :
      Preceded network log event node position before

/-- What a firing of a unified session says, by its node and by what it consumed. -/
inductive Saying (network : Network) (tokens : List Token) (log : List Event) (event : Event) :
    Derivation → Prop where
  | token {node : Nat} {before : Derivation}
      (place : network.find? event.pattern event.node = some node)
      (preceded : Preceded network log event node event.time before)
      (consumed : event.subEvent = none)
      (takes : network.Takes tokens node event.time) :
      Saying network tokens log event (.token before node)
  | construction {node sub : Nat} {before inner : Derivation} {site : Site} {part : Event}
      (place : network.find? event.pattern event.node = some node)
      (preceded : Preceded network log event node part.start before)
      (consumed : event.subEvent = some sub) (recorded : log[sub]? = some part)
      (completed : part.kind = .complete) (together : part.time = event.time)
      (found : network.sites[node]? = some site) (names : site.reference = some part.pattern)
      (inside : network.reading log sub = some inner) :
      Saying network tokens log event (.construction before node inner)

/-- The completion `id` concludes the firing `cause`, and says what it says. -/
structure Concludes (network : Network) (log : List Event) (id : Nat) (completion : Event)
    (cause : Nat) (event : Event) (final : Nat) : Prop where
  caused : completion.cause = some cause
  earlier : cause < id
  recorded : log[cause]? = some event
  fired : event.kind = .fire
  pattern : event.pattern = completion.pattern
  start : event.start = completion.start
  time : event.time = completion.time
  place : network.find? event.pattern event.node = some final
  ends : (network.closureAfter final).reachesEnd = true
  reads : network.reading log id = network.reading log cause

section Saying

variable {network : Network} {tokens : List Token} {log : List Event}

theorem exists_concludes (sound : SoundLog network .unified tokens log) {id : Nat}
    {completion : Event} (found : log[id]? = some completion)
    (completed : completion.kind = .complete) :
    ∃ cause event final, Concludes network log id completion cause event final := by
  have here := sound id completion found
  cases here.grounded with
  | token kind => cases completed.symm.trans kind
  | reference kind => cases completed.symm.trans kind
  | @completion cause final event _ _ _ _ _ _ _ caused recorded earlier fired pattern start
      together last ends =>
    have earlier := here.id ▸ earlier
    exact ⟨cause, event, final, caused, earlier, recorded, fired, pattern, start, together, last,
      ends, Network.reading_complete found completed caused earlier⟩

theorem exists_preceded {id : Nat} {event : Event} (same : event.id = id)
    (readable : ∀ cause < id, ∀ previous, log[cause]? = some previous → previous.kind = .fire →
      ∃ derivation, network.reading log cause = some derivation)
    {node position : Nat} (awaited : event.Awaited network log node position) :
    ∃ before, network.ReadsBefore log id event before ∧
      Preceded network log event node position before := by
  cases awaited with
  | entry cause start registered opens =>
    exact ⟨.nothing, .first cause, .first cause start registered opens⟩
  | after caused recorded earlier fired pattern start adjacent _ place follows =>
    have earlier := same ▸ earlier
    obtain ⟨before, reads⟩ := readable _ earlier _ recorded fired
    exact ⟨before, .next caused earlier reads,
      .next caused recorded fired pattern start adjacent place follows reads⟩

theorem exists_saying (sound : SoundLog network .unified tokens log) (id : Nat) {event : Event}
    (found : log[id]? = some event) (fired : event.kind = .fire) : ∃ derivation,
      network.reading log id = some derivation ∧
        Saying network tokens log event derivation := by
  induction id using Nat.strongRecOn generalizing event with
  | ind id ih =>
    have here := sound id event found
    have readable : ∀ cause < id, ∀ previous, log[cause]? = some previous → previous.kind = .fire →
        ∃ derivation, network.reading log cause = some derivation := by
      intro cause earlier previous recorded fired
      obtain ⟨derivation, reads, _⟩ := ih cause earlier recorded fired
      exact ⟨derivation, reads⟩
    cases here.grounded with
    | @token node site token _ consumed place at' awaited current _ _ agrees consumes =>
      obtain ⟨before, preceding, preceded⟩ := exists_preceded here.id readable awaited
      exact ⟨_, Network.reading_token found fired place consumed preceding,
        .token place preceded consumed ⟨site, token, at', consumes rfl, current, agrees⟩⟩
    | @reference node sub site part _ consumed place at' recorded earlier completed together awaited
        names =>
      obtain ⟨before, preceding, preceded⟩ := exists_preceded here.id readable awaited
      obtain ⟨cause, event, final, concludes⟩ := exists_concludes sound recorded completed
      have older := here.id ▸ earlier
      obtain ⟨inner, reads⟩ := readable cause (Nat.lt_trans concludes.earlier older) event
        concludes.recorded concludes.fired
      have inside := concludes.reads.trans reads
      exact ⟨_, Network.reading_construction found fired place consumed older inside preceding,
        .construction place preceded consumed recorded completed together at' names inside⟩
    | completion kind => cases fired.symm.trans kind

theorem saying_of_reading (sound : SoundLog network .unified tokens log) {id : Nat} {event : Event}
    (found : log[id]? = some event) (fired : event.kind = .fire) {derivation : Derivation}
    (reads : network.reading log id = some derivation) :
    Saying network tokens log event derivation := by
  obtain ⟨other, reads', saying⟩ := exists_saying sound id found fired
  rw [reads] at reads'
  cases reads'
  exact saying

end Saying

namespace Session

variable {tokens : List Token} {joined : List Nat} {session : Session}

theorem Full.log (full : session.Full tokens joined) :
    SoundLog session.network .unified tokens session.events := by
  have sound := full.sound.log
  rw [full.unified] at sound
  exact sound

theorem Full.opens (full : session.Full tokens joined) {id pattern node : Nat} {event : Event}
    {member : Member} (found : session.events[id]? = some event) (fired : event.kind = .fire)
    (owner : session.network.memberIndex? event.pattern = some pattern)
    (cause : event.cause = none) (registered : session.network.member? event.pattern = some member)
    (opens : node ∈ member.entryNodes) :
    session.network.Opens joined pattern node event.start := by
  obtain ⟨other, index, here⟩ := full.sound.network.member?_eq_some.mp registered
  rw [owner] at index
  cases index
  obtain ⟨other, since, index, known, early⟩ := full.tick.thorough.began id event found fired cause
  have same : other = pattern := Option.some.inj (index.symm.trans owner)
  exact ⟨⟨member, here, opens⟩, since, same ▸ known, early⟩

/-- Every firing that says the derivation has begun it. -/
def Justified (session : Session) (tokens : List Token) (joined : List Nat)
    (derivation : Derivation) : Prop :=
  ∀ (id pattern : Nat) (event : Event), session.events[id]? = some event → event.kind = .fire →
    session.network.memberIndex? event.pattern = some pattern →
    session.network.reading session.events id = some derivation → ∃ node,
      session.network.find? event.pattern event.node = some node ∧
        session.network.Begun tokens joined pattern event.start event.time node derivation

theorem Full.goesOn (full : session.Full tokens joined) {id pattern node position : Nat}
    {event : Event} {before : Derivation} (found : session.events[id]? = some event)
    (fired : event.kind = .fire)
    (owner : session.network.memberIndex? event.pattern = some pattern)
    (justified : session.Justified tokens joined before)
    (preceded : Preceded session.network session.events event node position before) :
    (before = .nothing ∧ event.start = position ∧
        session.network.Opens joined pattern node event.start) ∨
      ∃ last previous, last + 1 = position ∧ node ∈ (session.network.closureAfter previous).elements ∧
        session.network.Begun tokens joined pattern event.start last previous before := by
  cases preceded with
  | first cause start registered opens =>
    exact .inl ⟨rfl, start, full.opens found fired owner cause registered opens⟩
  | @next cause last previous _ _ recorded fired' same start adjacent place follows reads =>
    obtain ⟨other, here, begun⟩ := justified cause pattern previous recorded fired' (same ▸ owner) reads
    rw [place] at here
    cases here
    rw [start] at begun
    exact .inr ⟨previous.time, last, adjacent, follows, begun⟩

theorem Full.derives (full : session.Full tokens joined) {id pattern : Nat} {completion : Event}
    {derivation : Derivation} (found : session.events[id]? = some completion)
    (completed : completion.kind = .complete)
    (owner : session.network.memberIndex? completion.pattern = some pattern)
    (reads : session.network.reading session.events id = some derivation)
    (justified : session.Justified tokens joined derivation) :
    session.network.Derives tokens joined pattern completion.start completion.time derivation := by
  obtain ⟨cause, event, final, concludes⟩ := exists_concludes full.log found completed
  obtain ⟨node, place, begun⟩ := justified cause pattern event concludes.recorded concludes.fired
    (concludes.pattern ▸ owner) (concludes.reads.symm.trans reads)
  rw [concludes.place] at place
  cases place
  rw [concludes.start, concludes.time] at begun
  exact ⟨final, begun, concludes.ends⟩

theorem Full.owned (full : session.Full tokens joined) {id : Nat} {event : Event}
    (found : session.events[id]? = some event) :
    ∃ pattern, session.network.memberIndex? event.pattern = some pattern := by
  obtain ⟨node, place⟩ := (full.log id event found).place
  obtain ⟨pattern, _, index, _⟩ := full.sound.network.find?_eq_some.mp place
  exact ⟨pattern, index⟩

/-- What a firing says is a derivation begun, up to its node. -/
theorem Full.justified (full : session.Full tokens joined) (derivation : Derivation) :
    session.Justified tokens joined derivation := by
  induction derivation with
  | nothing =>
    intro id pattern event found fired owner reads
    cases saying_of_reading full.log found fired reads
  | token before node ih =>
    intro id pattern event found fired owner reads
    cases saying_of_reading full.log found fired reads with
    | token place preceded _ takes =>
      refine ⟨node, place, ?_⟩
      rcases full.goesOn found fired owner ih preceded with
        ⟨rfl, start, opens⟩ | ⟨last, previous, adjacent, follows, begun⟩
      · rw [← start] at takes ⊢
        exact .token opens takes
      · rw [← adjacent] at takes ⊢
        exact .nextToken begun follows takes
  | construction before node inner ih ihInner =>
    intro id pattern event found fired owner reads
    cases saying_of_reading full.log found fired reads with
    | @construction _ sub _ _ site part place preceded _ recorded completed together here names
        inside =>
      refine ⟨node, place, ?_⟩
      obtain ⟨q, index⟩ := full.owned recorded
      obtain ⟨member, registered, name⟩ := Network.Sound.member_of_memberIndex? index
      have refers : session.network.Refers node q :=
        ⟨site, member, here, registered, by rw [names, name]⟩
      obtain ⟨final, row, ends⟩ := full.derives recorded completed index inside ihInner
      rw [together] at row
      rcases full.goesOn found fired owner ih preceded with
        ⟨rfl, start, opens⟩ | ⟨last, previous, adjacent, follows, begun⟩
      · rw [← start] at row
        exact .construction opens refers row ends
      · rw [← adjacent] at row
        exact .nextConstruction begun follows refers row ends

/-- No two firings of instances of one pattern that begin together say the derivation. -/
def SaidOnce (session : Session) (derivation : Derivation) : Prop :=
  ∀ (a b : Nat) (e f : Event), session.events[a]? = some e → session.events[b]? = some f →
    e.kind = .fire → f.kind = .fire → e.pattern = f.pattern → e.start = f.start →
    session.network.reading session.events a = some derivation →
    session.network.reading session.events b = some derivation → a = b

theorem Full.preceded_unique (full : session.Full tokens joined) {e f : Event} {node p q : Nat}
    {before : Derivation} (pattern : e.pattern = f.pattern) (start : e.start = f.start)
    (once : session.SaidOnce before)
    (first : Preceded session.network session.events e node p before)
    (second : Preceded session.network session.events f node q before) :
    e.cause = f.cause ∧ p = q := by
  cases first with
  | first cause begins =>
    cases second with
    | first cause' begins' => exact ⟨cause.trans cause'.symm, begins.symm.trans (start.trans begins')⟩
    | next _ recorded fired _ _ _ _ _ reads =>
      cases saying_of_reading full.log recorded fired reads
  | next caused recorded fired same begins adjacent _ _ reads =>
    cases second with
    | first => cases saying_of_reading full.log recorded fired reads
    | next caused' recorded' fired' same' begins' adjacent' _ _ reads' =>
      have index := once _ _ _ _ recorded recorded' fired fired'
        (same.trans (pattern.trans same'.symm)) (begins.trans (start.trans begins'.symm)) reads reads'
      subst index
      rw [recorded] at recorded'
      cases recorded'
      exact ⟨caused.trans caused'.symm, adjacent.symm.trans adjacent'⟩

theorem Full.same_node (full : session.Full tokens joined) {e f : Event} {node : Nat}
    (first : session.network.find? e.pattern e.node = some node)
    (second : session.network.find? f.pattern f.node = some node) : e.node = f.node := by
  obtain ⟨_, site, _, here, _, named, _⟩ := full.sound.network.find?_eq_some.mp first
  obtain ⟨_, _, _, here', _, named', _⟩ := full.sound.network.find?_eq_some.mp second
  rw [here] at here'
  cases here'
  exact named.symm.trans named'

/-- Completions that say the same conclude firings that say the same, so they are one. -/
theorem Full.completion_unique (full : session.Full tokens joined) {a b : Nat} {e f : Event}
    {derivation : Derivation} (foundE : session.events[a]? = some e)
    (foundF : session.events[b]? = some f) (completedE : e.kind = .complete)
    (completedF : f.kind = .complete) (pattern : e.pattern = f.pattern) (start : e.start = f.start)
    (once : session.SaidOnce derivation)
    (readsE : session.network.reading session.events a = some derivation)
    (readsF : session.network.reading session.events b = some derivation) : a = b := by
  obtain ⟨c, first, _, atC⟩ := exists_concludes full.log foundE completedE
  obtain ⟨d, second, _, atD⟩ := exists_concludes full.log foundF completedF
  have same : c = d := once c d first second atC.recorded atD.recorded atC.fired atD.fired
    (atC.pattern.trans (pattern.trans atD.pattern.symm))
    (atC.start.trans (start.trans atD.start.symm))
    (atC.reads.symm.trans readsE) (atD.reads.symm.trans readsF)
  exact full.tick.once.completes a b e f foundE foundF completedE completedF
    (atC.caused.trans (same ▸ atD.caused.symm))

theorem Full.saidOnce (full : session.Full tokens joined) (derivation : Derivation) :
    session.SaidOnce derivation := by
  induction derivation with
  | nothing =>
    intro a b e f foundE foundF firedE firedF pattern start readsE readsF
    cases saying_of_reading full.log foundE firedE readsE
  | token before node ih =>
    intro a b e f foundE foundF firedE firedF pattern start readsE readsF
    cases saying_of_reading full.log foundE firedE readsE with
    | token placeE precededE consumedE =>
    cases saying_of_reading full.log foundF firedF readsF with
    | token placeF precededF consumedF =>
      obtain ⟨cause, time⟩ := full.preceded_unique pattern start ih precededE precededF
      exact full.tick.once.fires a b e f foundE foundF firedE firedF pattern
        (full.same_node placeE placeF) cause (consumedE.trans consumedF.symm) time
  | construction before node inner ih ihInner =>
    intro a b e f foundE foundF firedE firedF pattern start readsE readsF
    cases saying_of_reading full.log foundE firedE readsE with
    | construction placeE precededE consumedE recordedE completedE togetherE hereE namesE insideE =>
    cases saying_of_reading full.log foundF firedF readsF with
    | construction placeF precededF consumedF recordedF completedF togetherF hereF namesF insideF =>
      obtain ⟨cause, position⟩ := full.preceded_unique pattern start ih precededE precededF
      rw [hereE] at hereF
      cases hereF
      have names := Option.some.inj (namesE.symm.trans namesF)
      have sub := full.completion_unique recordedE recordedF completedE completedF names position
        ihInner insideE insideF
      subst sub
      rw [recordedE] at recordedF
      cases recordedF
      exact full.tick.once.fires a b e f foundE foundF firedE firedF pattern
        (full.same_node placeE placeF) cause (consumedE.trans consumedF.symm)
        (togetherE.symm.trans togetherF)

end Session

end Constructicon
