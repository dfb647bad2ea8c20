import Constructicon.Proofs.Session.Plain

/-! What recognition sees. Two sessions are opened and called alike, but their tokens have other
values, and so have the nodes of their patterns that are not references. Then every answer is the
same, and so are the listeners and the events; only where a token fired, each log holds the value
of its own token. -/
namespace Constructicon

/-- How the network of a unified session came about. -/
inductive Plan where
  | composed (automata : List Automaton)
  | grammar (grammar : Grammar)
  | sideBySide (automata : List Automaton)
  | grown (before : Plan) (automaton : Automaton) (composing : Bool)

namespace Plan

def network : Plan → Except Error Network
  | composed automata => Network.compose automata
  | grammar patterns => Grammar.network patterns
  | sideBySide automata => Network.isolated automata
  | grown before automaton composing => do (← before.network).attach automaton composing

def plain : Plan → Plan
  | composed automata => composed (automata.map Automaton.plain)
  | grammar patterns => grammar (Grammar.plain patterns)
  | sideBySide automata => sideBySide (automata.map Automaton.plain)
  | grown before automaton composing => grown before.plain automaton.plain composing

def Compiled : Plan → Prop
  | composed automata => ∀ automaton ∈ automata, automaton.Compiled
  | grammar _ => True
  | sideBySide automata => ∀ automaton ∈ automata, automaton.Compiled
  | grown before automaton _ => before.Compiled ∧ automaton.Compiled

theorem network_plain (plan : Plan) : plan.plain.network = plan.network.map Network.plain := by
  induction plan with
  | composed automata => exact Network.compose_plain automata
  | grammar patterns => exact Network.grammar_plain patterns
  | sideBySide automata => exact Network.isolated_plain automata
  | grown before automaton composing ih =>
    change before.plain.network >>= (·.attach automaton.plain composing) =
      (before.network >>= (·.attach automaton composing)).map Network.plain
    rw [ih]
    cases before.network with
    | error error => rfl
    | ok network => exact network.attach_plain automaton composing

theorem built {plan : Plan} (compiled : plan.Compiled) {network : Network}
    (ok : plan.network = .ok network) : network.Built := by
  induction plan generalizing network with
  | composed automata => exact .composed (.compose compiled ok)
  | grammar patterns => exact .composed (.grammar ok)
  | sideBySide automata => exact .sideBySide compiled ok
  | grown before automaton composing ih =>
    obtain ⟨earlier, found, ok⟩ := bind_success ok
    exact .attached (ih compiled.1 found) compiled.2 ok

end Plan

/-- How a session is opened. -/
inductive Setup where
  | isolated (automata : List Automaton)
  | unified (plan : Plan)

namespace Setup

def session (limits : Limits) : Setup → Except Error Session
  | isolated automata => Session.isolated automata limits
  | unified plan => do return Session.unified (← plan.network) limits

def plain : Setup → Setup
  | isolated automata => isolated (automata.map Automaton.plain)
  | unified plan => unified plan.plain

def Compiled : Setup → Prop
  | isolated automata => ∀ automaton ∈ automata, automaton.Compiled
  | unified plan => plan.Compiled

theorem session_plain (setup : Setup) (limits : Limits) :
    setup.plain.session limits = (setup.session limits).map Session.plain := by
  cases setup with
  | isolated automata =>
    have network := Network.isolated_plain automata
    change Network.isolated (automata.map Automaton.plain) >>= _ = _
    rw [network]
    change _ = (Network.isolated automata >>= _).map _
    cases Network.isolated automata with
    | error error => rfl
    | ok network => exact congrArg Except.ok (Session.plain_start network .isolated limits).symm
  | unified plan =>
    change plan.plain.network >>= _ = (plan.network >>= _).map _
    rw [plan.network_plain]
    cases plan.network with
    | error error => rfl
    | ok network => exact congrArg Except.ok (Session.plain_start network .unified limits).symm

theorem opening {setup : Setup} (compiled : setup.Compiled) {limits : Limits} {session : Session}
    (ok : setup.session limits = .ok session) : Opening session := by
  cases setup with
  | isolated automata => exact .isolated compiled ok
  | unified plan =>
    obtain ⟨network, found, ok⟩ := bind_success ok
    cases ok
    exact .unified (Plan.built compiled found)

end Setup

namespace Course

def callAll (course : Course) (calls : List Call) : Course :=
  calls.foldl (Course.call Session.sweepUnified) course

theorem session_callAll (course : Course) (calls : List Call) :
    (course.callAll calls).session = (course.session.run Session.sweepUnified calls).2 := by
  induction calls generalizing course with
  | nil => rfl
  | cons call rest ih => exact ih (course.call Session.sweepUnified call)

theorem Reached.callAll {opened : Session → Prop} {course : Course}
    (reached : course.Reached opened Session.sweepUnified) {calls : List Call}
    (compiled : ∀ call ∈ calls, call.Compiled) :
    (course.callAll calls).Reached opened Session.sweepUnified := by
  induction calls generalizing course with
  | nil => exact reached
  | cons call rest ih =>
    obtain ⟨here, later⟩ := List.forall_mem_cons.mp compiled
    exact ih (reached.call call here) later

/-- Where a token fired, the log holds the value of the token of that tick. -/
def Valued (course : Course) : Prop :=
  ∀ event ∈ course.session.events, event.kind = .fire → event.subEvent = none →
    1 ≤ event.time ∧ ∃ token, course.tokens[event.time - 1]? = some token ∧
      event.elementType = some token.elementType ∧ event.elementValue = some token.value

theorem Reached.valued {course : Course} (reached : course.Reached Opening Session.sweepUnified) :
    course.Valued := by
  obtain ⟨sound, _⟩ := reached.sound (fun _ opening => opening.starts)
    Session.dropping_sweepUnified
  intro event member fired direct
  obtain ⟨position, found⟩ := List.mem_iff_getElem?.mp member
  obtain ⟨_, begins, spans, _, grounded⟩ := sound.log position event found
  refine ⟨Nat.le_trans begins spans, ?_⟩
  cases grounded with
  | token _ _ _ _ _ current elementType value => exact ⟨_, current, elementType, value⟩
  | reference _ consumes => cases direct.symm.trans consumes
  | completion completes => cases fired.symm.trans completes

end Course

namespace Setup

variable {setup twin : Setup} {calls others : List Call} {limits : Limits}

/-- Recognition is blind to values: sessions that are opened alike are both refused for the same
reason, or both go on to give the same answers to calls that are alike, with the same listeners
and the same events but for the values of the tokens that fired. -/
theorem recognition_blind (same : setup.plain = twin.plain)
    (alike : calls.map Call.plain = others.map Call.plain)
    (compiled : setup.Compiled ∧ ∀ call ∈ calls, call.Compiled)
    (compiledTwin : twin.Compiled ∧ ∀ call ∈ others, call.Compiled) :
    (∃ error, setup.session limits = .error error ∧ twin.session limits = .error error) ∨
    ∃ session other, setup.session limits = .ok session ∧ twin.session limits = .ok other ∧
      (session.run Session.sweepUnified calls).1 = (other.run Session.sweepUnified others).1 ∧
      let after := (Course.start session).callAll calls
      let afterTwin := (Course.start other).callAll others
      after.session = (session.run Session.sweepUnified calls).2 ∧
        afterTwin.session = (other.run Session.sweepUnified others).2 ∧
        after.session.arena = afterTwin.session.arena ∧
        after.session.active = afterTwin.session.active ∧
        after.session.time = afterTwin.session.time ∧
        after.session.aborted = afterTwin.session.aborted ∧
        after.session.events.map Event.plain = afterTwin.session.events.map Event.plain ∧
        after.Valued ∧ afterTwin.Valued := by
  have opened : (setup.session limits).map Session.plain =
      (twin.session limits).map Session.plain := by
    rw [← session_plain, ← session_plain, same]
  rcases map_congr_cases opened with refused | ⟨session, other, ok, okTwin, plain⟩
  · exact .inl refused
  · obtain ⟨answers, final⟩ := Session.run_congr plain alike
    have begun : (Course.start session).Reached Opening Session.sweepUnified :=
      .start (opening compiled.1 ok)
    have begunTwin : (Course.start other).Reached Opening Session.sweepUnified :=
      .start (opening compiledTwin.1 okTwin)
    refine .inr ⟨session, other, ok, okTwin, answers, ?_⟩
    intro after afterTwin
    have run : after.session = (session.run Session.sweepUnified calls).2 :=
      Course.session_callAll (.start session) calls
    have runTwin : afterTwin.session = (other.run Session.sweepUnified others).2 :=
      Course.session_callAll (.start other) others
    rw [← run, ← runTwin] at final
    obtain ⟨_, _, _, time, arena, active, _, log, aborted⟩ := Session.plain_eq_iff.mp final
    have events : after.session.events.map Event.plain =
        afterTwin.session.events.map Event.plain := by
      simpa [Session.events] using congrArg Array.toList log
    exact ⟨run, runTwin, arena, active, time, aborted, events,
      (begun.callAll compiled.2).valued, (begunTwin.callAll compiledTwin.2).valued⟩

/-- The sums again, with a value at the element that consumes a number. -/
def labelled : Grammar :=
  Grammar.ofPatterns [
    { name := "sum"
      nodes := Table.ofList [("start", { kind := .start }),
        ("number", { Node.consuming "N" with elementValue := some "digits" }),
        ("left", Node.referring "sum"), ("right", Node.referring "sum"), ("end", { kind := .finish })]
      edges := [{ source := "start", target := "number" }, { source := "start", target := "left" },
        { source := "left", target := "right" }, { source := "number", target := "end" },
        { source := "right", target := "end" }] }]

/-- Two numbers with other values, and a pattern that joins between them. -/
theorem recognition_blind_sums :
    let calls (first second : String) : List Call :=
      [.feed ⟨"N", first⟩, .register pairsAutomaton, .feed ⟨"N", second⟩]
    let values (course : Course) := (course.session.events.filter fun event =>
      event.kind = .fire ∧ event.subEvent = none).map (·.elementValue)
    (unified (.grammar sums)).plain = (unified (.grammar labelled)).plain ∧
    (calls "1" "2").map Call.plain = (calls "one" "two").map Call.plain ∧
    ∃ session other, (unified (.grammar sums)).session {} = .ok session ∧
      (unified (.grammar labelled)).session {} = .ok other ∧
      (session.run Session.sweepUnified (calls "1" "2")).1 =
        (other.run Session.sweepUnified (calls "one" "two")).1 ∧
      let after := (Course.start session).callAll (calls "1" "2")
      let afterTwin := (Course.start other).callAll (calls "one" "two")
      after.session.arena = afterTwin.session.arena ∧
        after.session.events.map Event.plain = afterTwin.session.events.map Event.plain ∧
        after.session.events.length = 10 ∧ values after = [some "1", some "2"] ∧
        values afterTwin = [some "one", some "two"] := by
  intro calls values
  have same : (unified (.grammar sums)).plain = (unified (.grammar labelled)).plain :=
    congrArg (fun patterns => unified (.grammar patterns))
      (by decide +kernel : Grammar.plain sums = Grammar.plain labelled)
  have alike : (calls "1" "2").map Call.plain = (calls "one" "two").map Call.plain := by
    decide +kernel
  have compiled (first second : String) : ∀ call ∈ calls first second, call.Compiled := by
    simp [calls, Call.Compiled, pairs_compiled]
  have refused : ((unified (.grammar sums)).session {}).isOk = true := by decide +kernel
  rcases recognition_blind same alike ⟨trivial, compiled "1" "2"⟩
      ⟨trivial, compiled "one" "two"⟩ with ⟨error, here, _⟩ | ⟨session, other, here, there, answers, facts⟩
  · rw [here] at refused
    cases refused
  · refine ⟨same, alike, session, other, here, there, answers, ?_⟩
    intro after afterTwin
    obtain ⟨_, _, arena, _, _, _, events, _, _⟩ := facts
    have ours : (((unified (.grammar sums)).session {}).toOption.map fun session =>
        (((Course.start session).callAll (calls "1" "2")).session.events.length,
          values ((Course.start session).callAll (calls "1" "2")))) =
        some (10, [some "1", some "2"]) := by decide +kernel
    have theirs : (((unified (.grammar labelled)).session {}).toOption.map fun session =>
        values ((Course.start session).callAll (calls "one" "two"))) =
        some [some "one", some "two"] := by decide +kernel
    rw [here] at ours
    rw [there] at theirs
    obtain ⟨count, fired⟩ := Prod.mk.inj (Option.some.inj ours)
    exact ⟨arena, events, count, fired, Option.some.inj theirs⟩

end Setup

end Constructicon
