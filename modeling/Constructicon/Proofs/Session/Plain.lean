import Constructicon.Proofs.Network.Plain
import Constructicon.Proofs.Session.History

/-! Sessions without values. The values of tokens are copied into the log and the history of firings
and read nowhere, nor are the idle values of patterns. So two sessions that differ in such values
only give the same answers, plant the same listeners and record the same events, but for the
values that their tokens had. -/
namespace Constructicon

def Token.plain (token : Token) : Token := { token with value := "" }

/-- The event without the value of the token, if it is a token that fired. -/
def Event.plain (event : Event) : Event :=
  if event.kind = .fire ∧ event.subEvent = none then { event with elementValue := none } else event

def Session.plain (session : Session) : Session :=
  { session with
    network := session.network.plain
    firings := session.firings.map fun (node, firing) => (node, { firing with value := none })
    log := session.log.map Event.plain }

def Tick.plain (tick : Tick) : Tick := { tick with session := tick.session.plain }

namespace Session

theorem plain_eq_iff {a b : Session} : a.plain = b.plain ↔ a.network.plain = b.network.plain ∧
    a.mode = b.mode ∧ a.limits = b.limits ∧ a.time = b.time ∧ a.arena = b.arena ∧
    a.active = b.active ∧
    (a.firings.map fun (node, firing) => (node, { firing with value := none })) =
      (b.firings.map fun (node, firing) => (node, { firing with value := none })) ∧
    a.log.map Event.plain = b.log.map Event.plain ∧ a.aborted = b.aborted := by
  simp only [Session.plain, Session.mk.injEq]

section Reading

variable (session : Session)

theorem placeOf_plain : session.plain.placeOf = session.placeOf := by
  funext node
  have sites : session.plain.network.sites[node]? = _ := session.network.site_plain node
  rw [placeOf, placeOf, sites]
  cases session.network.sites[node]? <;> rfl

theorem roleOf_plain : session.plain.roleOf = session.roleOf := by
  funext node
  have sites : session.plain.network.sites[node]? = _ := session.network.site_plain node
  rw [roleOf, roleOf, sites, Option.map_map]
  rfl

theorem consumesTokens_plain : session.plain.consumesTokens = session.consumesTokens := by
  funext node
  have sites : session.plain.network.sites[node]? = _ := session.network.site_plain node
  rw [consumesTokens, consumesTokens, sites, Option.any_map]
  rfl

theorem isDue_plain : session.plain.isDue = session.isDue := by
  funext tick listener
  rw [isDue, isDue, consumesTokens_plain]

theorem matchTypeOf_plain : session.plain.matchTypeOf = session.matchTypeOf := by
  funext node
  have sites : session.plain.network.sites[node]? = _ := session.network.site_plain node
  rw [matchTypeOf, matchTypeOf, sites, Option.bind_map]
  rfl

theorem referenceOf_plain : session.plain.referenceOf = session.referenceOf := by
  funext node
  have sites : session.plain.network.sites[node]? = _ := session.network.site_plain node
  rw [referenceOf, referenceOf, sites, Option.bind_map]
  rfl

theorem opened_plain : session.plain.opened = session.opened.plain := by
  rw [opened_eq, opened_eq, isDue_plain]
  rfl

theorem matching_plain (elementType : String) :
    session.plain.seeded.matching (session.time + 1) elementType =
      session.seeded.matching (session.time + 1) elementType := by
  have here := seeded_matching session.plain elementType
  rw [isDue_plain, matchTypeOf_plain] at here
  rw [seeded_matching]
  exact here

theorem sweepUnified_plain : session.plain.sweepUnified = session.sweepUnified.plain := by
  have overdue : session.plain.isOverdue = session.isOverdue := by
    funext listener
    rw [isOverdue, isOverdue, referenceOf_plain]
    rfl
  have support : session.plain.support? = session.support? := by
    funext listener
    rw [support?, support?, referenceOf_plain]
  have inFlight : session.plain.inFlight = session.inFlight := by
    unfold inFlight
    rw [overdue, support]
    rfl
  have swept : session.plain.sweep = session.sweep.plain := by
    unfold sweep
    rw [inFlight, overdue, support]
    rfl
  have mode : session.plain.mode = session.mode := rfl
  unfold sweepUnified
  rw [mode, swept]
  cases session.mode <;> rfl

end Reading

end Session

namespace Tick
open Session

variable {a b : Tick}

theorem plain_eq_iff : a.plain = b.plain ↔
    a.session.plain = b.session.plain ∧ a.report = b.report ∧ a.pending = b.pending := by
  simp only [Tick.plain, Tick.mk.injEq]

theorem plain_firing (tick : Tick) (listener : Listener) (position : Nat)
    (elementType value : String) (subEvent : Option Nat) :
    tick.plain.firing listener position elementType value subEvent =
      tick.firing listener position elementType value subEvent := by
  have size : tick.plain.session.log.size = tick.session.log.size := Array.size_map
  have place : tick.plain.session.placeOf = tick.session.placeOf := placeOf_plain tick.session
  simp only [firing, size, place]
  rfl

/-- What a firing makes of a tick, its event being given and its value left out. -/
def fireAs (tick : Tick) (listener : Listener) (position : Nat) (path : List String)
    (event : Event) : Tick :=
  { session := Session.grow
      { tick.session with
        log := tick.session.log.push event
        firings := tick.session.firings.push (listener.node, ⟨tick.report.time, none⟩) }
      (tick.followers listener position)
    report := { tick.report with
      firedNodes := tick.report.firedNodes ++
        if tick.session.roleOf listener.node = some .element then
          [tick.session.placeOf listener.node] else []
      newListeners := tick.report.newListeners ++
        (tick.session.network.closureAfter listener.node).elements.map tick.session.placeOf }
    pending := tick.pending ++ tick.reached listener position path }

theorem plain_fire (tick : Tick) (listener : Listener) (position : Nat)
    (elementType value : String) (subEvent : Option Nat) (path : List String) :
    (tick.fire listener position elementType value subEvent path).plain =
      tick.plain.fireAs listener position path
        (tick.plain.firing listener position elementType value subEvent).plain := by
  have size : tick.plain.session.log.size = tick.session.log.size := Array.size_map
  have after : tick.plain.session.network.closureAfter = tick.session.network.closureAfter :=
    tick.session.network.closureAfter_plain
  have place : tick.plain.session.placeOf = tick.session.placeOf := placeOf_plain tick.session
  have role : tick.plain.session.roleOf = tick.session.roleOf := roleOf_plain tick.session
  rw [fire_eq, plain_firing, fireAs]
  simp only [followers, reached, size, after, place, role]
  simp [Tick.plain, Session.plain, grow]
  rfl

theorem fire_congr (same : a.plain = b.plain) {value other : String} {subEvent : Option Nat}
    (agree : subEvent.isSome → value = other) (listener : Listener) (position : Nat)
    (elementType : String) (path : List String) :
    (a.fire listener position elementType value subEvent path).plain =
      (b.fire listener position elementType other subEvent path).plain := by
  rw [plain_fire, plain_fire, same]
  congr 1
  cases subEvent with
  | none => rfl
  | some event => rw [agree rfl]

theorem plain_tell (tick : Tick) (member : Member) (done : Completion) :
    (tick.tell member done).plain = tick.plain.tell member done := by
  have size : tick.plain.session.log.size = tick.session.log.size := Array.size_map
  have place : tick.plain.session.placeOf = tick.session.placeOf := placeOf_plain tick.session
  have role : tick.plain.session.roleOf = tick.session.roleOf := roleOf_plain tick.session
  have kept : (tick.completing member done).plain = tick.completing member done := rfl
  rw [tell, tell]
  simp only [completing, size, place, role] at kept ⊢
  simp [Tick.plain, Session.plain, kept]

theorem foldl_congr {α : Type} {step other : Tick → α → Tick} (items : List α)
    (same : a.plain = b.plain)
    (steps : ∀ a b item, a.plain = b.plain → (step a item).plain = (other b item).plain) :
    (items.foldl step a).plain = (items.foldl other b).plain := by
  induction items generalizing a b with
  | nil => exact same
  | cons item rest ih => exact ih (steps a b item same)

theorem complete_congr (same : a.plain = b.plain) (done : Completion) :
    (a.complete done).plain = (b.complete done).plain := by
  obtain ⟨network, mode, _, _, _, _, _, log, _⟩ := Session.plain_eq_iff.mp (plain_eq_iff.mp same).1
  have size : a.session.log.size = b.session.log.size := by simpa using congrArg Array.size log
  have members : a.session.network.members = b.session.network.members := by
    rw [← Network.members_plain, network, Network.members_plain]
  cases found : a.session.network.members[done.pattern]? with
  | none => rwa [complete_none found, complete_none (members ▸ found)]
  | some member =>
    have found' := members ▸ found
    have told : (a.tell member done).plain = (b.tell member done).plain := by
      rw [plain_tell, plain_tell, same]
    cases isolated : a.session.mode with
    | isolated =>
      rwa [complete_isolated found isolated, complete_isolated found' (mode ▸ isolated)]
    | unified =>
      have targets : a.session.network.refTargets member = b.session.network.refTargets member := by
        rw [← Network.refTargets_plain, network, Network.refTargets_plain]
      simp only [complete, found, found', isolated, mode ▸ isolated, targets, size]
      refine foldl_congr _ told fun a b target same => ?_
      have active : a.session.active = b.session.active :=
        (Session.plain_eq_iff.mp (plain_eq_iff.mp same).1).2.2.2.2.2.1
      rw [waitingAt, waitingAt, active]
      exact foldl_congr _ same fun a b listener same => fire_congr same (fun _ => rfl) ..

theorem settle_congr (same : a.plain = b.plain) (depths : Nat) :
    (a.settle depths).plain = (b.settle depths).plain := by
  induction depths generalizing a b with
  | zero => rwa [settle_zero, settle_zero]
  | succ depths ih =>
    obtain ⟨session, report, pending⟩ := plain_eq_iff.mp same
    rw [settle_succ, settle_succ, pending]
    apply ih
    refine foldl_congr _ ?_ fun a b done same => complete_congr same done
    exact plain_eq_iff.mpr ⟨session, report, rfl⟩

end Tick

def Call.plain : Call → Call
  | .feed token => .feed token.plain
  | .register automaton => .register automaton.plain
  | .reset => .reset

namespace Session

variable {a b : Session}

theorem tick_congr (same : a.plain = b.plain) {token other : Token}
    (alike : token.plain = other.plain) : (a.tick token).plain = (b.tick other).plain := by
  obtain ⟨_, _, limits, time, _⟩ := plain_eq_iff.mp same
  have elementType : token.elementType = other.elementType := by
    simpa [Token.plain] using alike
  have opened : a.opened.plain = b.opened.plain := by
    rw [← opened_plain, same, opened_plain]
  have matching : a.seeded.matching (a.time + 1) token.elementType =
      b.seeded.matching (b.time + 1) other.elementType := by
    rw [← matching_plain, ← matching_plain, same, time, elementType]
  rw [tick_eq, tick_eq, limits, matching, time, elementType]
  apply Tick.settle_congr
  exact Tick.foldl_congr _ opened fun a b listener same =>
    Tick.fire_congr same Bool.noConfusion ..

theorem feed_congr (same : a.plain = b.plain) {token other : Token}
    (alike : token.plain = other.plain) : (a.feed token).1 = (b.feed other).1 ∧
      (a.feed token).2.plain = (b.feed other).2.plain := by
  obtain ⟨network, _, _, time, _, _, _, _, aborted⟩ := plain_eq_iff.mp same
  obtain ⟨session, report, pending⟩ := Tick.plain_eq_iff.mp (tick_congr same alike)
  have passed : Session.plain { (a.tick token).session with time := (a.tick token).report.time } =
      Session.plain { (b.tick other).session with time := (b.tick other).report.time } := by
    rw [report]
    exact congrArg (fun after : Session => { after with time := (b.tick other).report.time }) session
  unfold feed
  cases stopped : a.aborted with
  | true =>
    rw [feedWith_refused token stopped, feedWith_refused other (aborted ▸ stopped), time]
    exact ⟨rfl, same⟩
  | false =>
    cases waits : (a.tick token).pending with
    | nil =>
      rw [feedWith_settled stopped waits, feedWith_settled (aborted ▸ stopped) (pending ▸ waits), report]
      refine ⟨rfl, ?_⟩
      rw [← sweepUnified_plain, ← sweepUnified_plain]
      exact congrArg sweepUnified (report ▸ passed)
    | cons deepest rest =>
      have key : ((a.network.sites[deepest.node]?).map (·.localId)).getD "" =
          ((b.network.sites[deepest.node]?).map (·.localId)).getD "" := by
        have site : (a.network.sites[deepest.node]?).map Site.plain =
            (b.network.sites[deepest.node]?).map Site.plain := by
          rw [← Network.site_plain, network, Network.site_plain]
        simpa [Function.comp_def, Site.plain] using
          congrArg (fun site : Option Site => (site.map (·.localId)).getD "") site
      rw [feedWith_deep stopped waits, feedWith_deep (aborted ▸ stopped) (pending ▸ waits), report, key]
      refine ⟨rfl, ?_⟩
      exact congrArg (fun session : Session => { session with aborted := true }) (report ▸ passed)

theorem plain_start (network : Network) (mode : Mode) (limits : Limits) :
    (start network mode limits).plain = start network.plain mode limits := by
  cases mode with
  | unified => simp [start, Session.plain]
  | isolated =>
    simp only [start, seedAll_eq]
    simp [Session.plain, grow]
    rfl

theorem reset_congr (same : a.plain = b.plain) : a.reset.plain = b.reset.plain := by
  obtain ⟨network, mode, limits, _⟩ := plain_eq_iff.mp same
  rw [reset, reset, plain_start, plain_start, network, mode, limits]

theorem plain_register (session : Session) (automaton : Automaton) :
    session.plain.register automaton.plain = (session.register automaton).map Session.plain := by
  have attached := session.network.attach_plain automaton (session.mode = .unified)
  have mode : session.plain.mode = session.mode := rfl
  have network : session.plain.network = session.network.plain := rfl
  unfold register
  rw [mode, network, attached]
  cases session.network.attach automaton (session.mode = .unified) with
  | error error => rfl
  | ok grown =>
    cases unified : session.mode with
    | unified => rfl
    | isolated =>
      simp only [seed_eq]
      rfl

theorem call_refused {sweep : Session → Session} {session : Session} {automaton : Automaton}
    {error : Error} (refused : session.register automaton = .error error) :
    session.call sweep (.register automaton) = (.registered (.error error), session) := by
  simp only [Session.call, refused]

theorem call_registered {sweep : Session → Session} {session after : Session}
    {automaton : Automaton} (ok : session.register automaton = .ok after) :
    session.call sweep (.register automaton) =
      (.registered (.ok (after.network.members.length - 1)), after) := by
  simp only [Session.call, ok]

theorem call_congr (same : a.plain = b.plain) {call other : Call} (alike : call.plain = other.plain) :
    (a.call sweepUnified call).1 = (b.call sweepUnified other).1 ∧
      (a.call sweepUnified call).2.plain = (b.call sweepUnified other).2.plain := by
  cases call with
  | feed token =>
    cases other with
    | feed other =>
      obtain ⟨answer, after⟩ := feed_congr same (Call.feed.inj alike)
      exact ⟨congrArg Answer.fed answer, after⟩
    | register twin => cases alike
    | reset => cases alike
  | register automaton =>
    cases other with
    | feed other => cases alike
    | register twin =>
      have registered : (a.register automaton).map Session.plain =
          (b.register twin).map Session.plain := by
        rw [← plain_register, ← plain_register, same, Call.register.inj alike]
      rcases map_congr_cases registered with
        ⟨error, refused, refused'⟩ | ⟨after, after', ok, ok', plain⟩
      · rw [call_refused refused, call_refused refused']
        exact ⟨rfl, same⟩
      · have members : after.network.members = after'.network.members := by
          rw [← Network.members_plain, (plain_eq_iff.mp plain).1, Network.members_plain]
        rw [call_registered ok, call_registered ok', members]
        exact ⟨rfl, plain⟩
    | reset => cases alike
  | reset =>
    cases other with
    | feed other => cases alike
    | register twin => cases alike
    | reset => exact ⟨rfl, reset_congr same⟩

theorem run_congr (same : a.plain = b.plain) {calls others : List Call}
    (alike : calls.map Call.plain = others.map Call.plain) :
    (a.run sweepUnified calls).1 = (b.run sweepUnified others).1 ∧
      (a.run sweepUnified calls).2.plain = (b.run sweepUnified others).2.plain := by
  induction calls generalizing a b others with
  | nil =>
    cases others with
    | nil => exact ⟨rfl, same⟩
    | cons other rest => cases alike
  | cons call rest ih =>
    cases others with
    | nil => cases alike
    | cons other others =>
      obtain ⟨first, later⟩ := List.cons.inj alike
      obtain ⟨answer, after⟩ := call_congr same first
      obtain ⟨answers, final⟩ := ih after later
      have together : (a.call sweepUnified call).1 :: _ = (b.call sweepUnified other).1 :: _ :=
        congr (congrArg List.cons answer) answers
      exact ⟨together, final⟩

end Session

end Constructicon
