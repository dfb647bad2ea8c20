import Constructicon.Proofs.Session.Batch
import Constructicon.Proofs.Session.Parted
import Constructicon.Proofs.Session.Sweep

/-! Grammars are modular. Take some patterns that refer only to one another: a session that also
knows other patterns, composed with them or registered later, finds of these exactly what a session
finds that never heard of the others. -/
namespace Constructicon

open Network (Part)

/-- Whether a call remains when only the patterns inside are registered. -/
def Call.within (inside : String → Bool) : Call → Bool
  | .register automaton => inside automaton.name
  | .feed _ => true
  | .reset => true

/-- Whether a pattern inside refers only to patterns inside. -/
def Automaton.Within (inside : String → Bool) (automaton : Automaton) : Prop :=
  inside automaton.name = true → ∀ reference ∈ automaton.references, inside reference.2 = true

namespace Session

theorem register_eq_ok {session after : Session} {automaton : Automaton}
    (unified : session.mode = .unified) : session.register automaton = .ok after ↔
      ∃ network, session.network.attach automaton true = .ok network ∧
        after = { session with network } := by
  simp only [register, unified, decide_true]
  constructor
  · intro ok
    obtain ⟨network, attached, ok⟩ := bind_success ok
    exact ⟨network, attached, (Except.ok.inj ok).symm⟩
  · intro facts
    obtain ⟨network, attached, rfl⟩ := facts
    rw [attached]
    rfl

theorem Holds.laid {session : Session} {limits : Limits} {automata : List Automaton}
    (holds : session.Holds .unified limits automata) (sound : session.network.Sound) :
    session.network.Laid automata := by
  obtain ⟨batch, composed, alike⟩ := holds.built
  exact alike.laid sound (fun automaton member => (holds.compiled automaton member).sound) composed

end Session

/-- Two sessions that have answered the same calls, except that the second knows only the patterns
inside. -/
structure Split (inside : String → Bool) (limits : Limits) (automata : List Automaton)
    (tokens : List Token) (whole part : Session) : Prop where
  beside : whole.Beside ⟨inside, 0⟩ part
  holds : whole.Holds .unified limits automata
  holds' : part.Holds .unified limits (automata.filter (inside ·.name))
  sound : whole.Sound tokens
  now : whole.time = tokens.length
  closed : ∀ automaton ∈ automata, automaton.Within inside

namespace Split
open Session

variable {inside : String → Bool} {limits : Limits} {automata : List Automaton}
  {tokens : List Token} {whole part after : Session} {automaton : Automaton}

theorem parted (split : Split inside limits automata tokens whole part) :
    Part inside whole.network part.network automata := by
  obtain ⟨_, parted⟩ := split.beside.rest.parted
  exact ⟨split.holds.laid split.sound.network, split.holds'.laid parted.part.sound, split.closed⟩

theorem fresh (holds : whole.Holds .unified limits automata)
    (holds' : part.Holds .unified limits (automata.filter (inside ·.name)))
    (sound : whole.network.Sound) (sound' : part.network.Sound)
    (closed : ∀ automaton ∈ automata, automaton.Within inside) :
    Split inside limits automata [] whole.reset part.reset := by
  have parted : Part inside whole.network part.network automata :=
    ⟨holds.laid sound, holds'.laid sound', closed⟩
  refine ⟨?_, holds.of_basis (start_basis ..), holds'.of_basis (start_basis ..),
    sound_start sound _ _, (start_time ..).1, closed⟩
  simp only [Session.reset, holds.sameMode, holds'.sameMode, holds.sameLimits, holds'.sameLimits]
  exact ⟨⟨⟨automata, parted⟩, rfl, rfl, rfl, .nil, .nil, .nil, fun done none => by cases none⟩,
    rfl, rfl, rfl⟩

theorem opened {network network' : Network} (limits : Limits)
    (compiled : ∀ automaton ∈ automata, automaton.Compiled)
    (closed : ∀ automaton ∈ automata, automaton.Within inside)
    (composed : Network.compose automata = .ok network)
    (composed' : Network.compose (automata.filter (inside ·.name)) = .ok network') :
    Split inside limits automata [] (unified network limits) (unified network' limits) := by
  have compiled' : ∀ automaton ∈ automata.filter (inside ·.name), automaton.Compiled :=
    fun automaton member => compiled automaton (List.mem_filter.mp member).1
  have holds : (unified network limits).Holds .unified limits automata :=
    ⟨rfl, rfl, compiled, network, composed, .refl network⟩
  have holds' : (unified network' limits).Holds .unified limits (automata.filter (inside ·.name)) :=
    ⟨rfl, rfl, compiled', network', composed', .refl network'⟩
  exact fresh holds holds' (Network.Composition.compose compiled composed).sound.1
    (Network.Composition.compose compiled' composed').sound.1 closed

theorem reset (split : Split inside limits automata tokens whole part) :
    Split inside limits automata [] whole.reset part.reset :=
  fresh split.holds split.holds' split.sound.network split.parted.part.sound split.closed

theorem feed (split : Split inside limits automata tokens whole part) {token : Token}
    (accepted : (whole.feedWith id token).1.isOk = true) :
    (part.feedWith id token).1.isOk = true ∧
      Split inside limits automata (tokens ++ [token]) (whole.feedWith id token).2
        (part.feedWith id token).2 := by
  obtain ⟨accepted', beside⟩ := split.beside.feed split.sound split.now accepted
  obtain ⟨sound, now⟩ :=
    sound_feedWith dropping_id token split.beside.going split.sound split.now
  refine ⟨accepted', beside, ?_, ?_, sound, by simp [now], split.closed⟩
  · exact split.holds.of_basis (feedWith_basis dropping_id whole token)
  · exact split.holds'.of_basis (feedWith_basis dropping_id part token)

section Register

variable (split : Split inside limits automata tokens whole part) (compiled : automaton.Compiled)
  (closed : automaton.Within inside) (ok : whole.register automaton = .ok after)
include split compiled closed ok

theorem registered : after.Holds .unified limits (automata ++ [automaton]) ∧ after.Sound tokens ∧
    after.time = tokens.length ∧ ∀ other ∈ automata ++ [automaton], other.Within inside := by
  obtain ⟨sound, now⟩ := sound_register compiled ok split.sound split.now
  refine ⟨split.holds.register compiled ok, sound, now, ?_⟩
  simpa [or_imp, forall_and] using ⟨split.closed, closed⟩

theorem register (stays : inside automaton.name = true) : ∃ after',
    part.register automaton = .ok after' ∧
      Split inside limits (automata ++ [automaton]) tokens after after' := by
  obtain ⟨holds, sound, now, closedAll⟩ := split.registered compiled closed ok
  obtain ⟨unified, unified'⟩ := split.beside.unified
  obtain ⟨grown, attached, rfl⟩ := (register_eq_ok unified).mp ok
  obtain ⟨grown', attached'⟩ := split.parted.attach attached (closed stays)
  have ok' : part.register automaton = .ok { part with network := grown' } :=
    (register_eq_ok unified').mpr ⟨grown', attached', rfl⟩
  have holds' := split.holds'.register compiled ok'
  have stay : (automata ++ [automaton]).filter (inside ·.name) =
      automata.filter (inside ·.name) ++ [automaton] := by simp [stays]
  rw [← stay] at holds'
  obtain ⟨_, grows, _⟩ := Network.attach_grows split.sound.network compiled.sound attached
  obtain ⟨soundGrown', grows', _⟩ :=
    Network.attach_grows split.parted.part.sound compiled.sound attached'
  have parted : Part inside grown grown' (automata ++ [automaton]) :=
    ⟨holds.laid sound.network, holds'.laid soundGrown', closedAll⟩
  exact ⟨_, ok', split.beside.grow parted grows grows', holds, holds', sound, now, closedAll⟩

theorem register_outside (goes : inside automaton.name = false) :
    Split inside limits (automata ++ [automaton]) tokens after part := by
  obtain ⟨holds, sound, now, closedAll⟩ := split.registered compiled closed ok
  obtain ⟨grown, attached, rfl⟩ := (register_eq_ok split.beside.unified.1).mp ok
  have stay : (automata ++ [automaton]).filter (inside ·.name) = automata.filter (inside ·.name) := by
    simp [goes]
  have holds' := split.holds'
  rw [← stay] at holds'
  obtain ⟨_, grows, _⟩ := Network.attach_grows split.sound.network compiled.sound attached
  have parted : Part inside grown part.network (automata ++ [automaton]) :=
    ⟨holds.laid sound.network, holds'.laid split.parted.part.sound, closedAll⟩
  exact ⟨split.beside.grow parted grows (Network.grows_refl _), holds, holds', sound, now, closedAll⟩

end Register

/-- A call that is accepted is accepted by the part as well, if it is asked of the part at all. -/
theorem call (split : Split inside limits automata tokens whole part) (call : Call)
    (compiled : call.Compiled)
    (closed : ∀ automaton, call = .register automaton → automaton.Within inside)
    (accepted : (whole.call id call).1.accepted = true) : ∃ automata' tokens',
      (call.within inside = true ∧ (part.call id call).1.accepted = true ∧
        Split inside limits automata' tokens' (whole.call id call).2 (part.call id call).2) ∨
      (call.within inside = false ∧
        Split inside limits automata' tokens' (whole.call id call).2 part) := by
  cases call with
  | feed token =>
    obtain ⟨fed, after⟩ := split.feed accepted
    exact ⟨_, _, .inl ⟨rfl, fed, after⟩⟩
  | reset => exact ⟨_, _, .inl ⟨rfl, rfl, split.reset⟩⟩
  | register automaton =>
    have within := closed automaton rfl
    cases ok : whole.register automaton with
    | error error => simp [Session.call, ok, Answer.accepted, Except.isOk, Except.toBool] at accepted
    | ok after =>
      simp only [Session.call, ok]
      cases stays : inside automaton.name with
      | false => exact ⟨_, _, .inr ⟨stays, split.register_outside compiled within ok stays⟩⟩
      | true =>
        obtain ⟨after', ok', next⟩ := split.register compiled within ok stays
        simp only [ok']
        exact ⟨_, _, .inl ⟨stays, rfl, next⟩⟩

theorem run (calls : List Call) (compiled : ∀ call ∈ calls, call.Compiled)
    (closed : ∀ automaton, Call.register automaton ∈ calls → automaton.Within inside)
    (split : Split inside limits automata tokens whole part)
    (accepted : ∀ answer ∈ (whole.run id calls).1, answer.accepted = true) :
    let kept := calls.filter (·.within inside)
    (∀ answer ∈ (part.run id kept).1, answer.accepted = true) ∧ ∃ automata' tokens',
      Split inside limits automata' tokens' (whole.run id calls).2 (part.run id kept).2 := by
  induction calls generalizing whole part automata tokens with
  | nil => exact ⟨by simp [Session.run], _, _, split⟩
  | cons first rest ih =>
    obtain ⟨here, later⟩ := List.forall_mem_cons.mp accepted
    obtain ⟨compiledHere, compiledLater⟩ := List.forall_mem_cons.mp compiled
    have closedLater (automaton : Automaton) (member : Call.register automaton ∈ rest) :=
      closed automaton (List.mem_cons_of_mem _ member)
    obtain ⟨_, _, both | one⟩ := split.call first compiledHere
      (fun automaton same => closed automaton (same ▸ List.mem_cons_self)) here
    · obtain ⟨within, accepted', next⟩ := both
      obtain ⟨all, final⟩ := ih compiledLater closedLater next later
      rw [List.filter_cons_of_pos within]
      exact ⟨List.forall_mem_cons.mpr ⟨accepted', all⟩, final⟩
    · obtain ⟨without, next⟩ := one
      rw [List.filter_cons_of_neg (by simp [without])]
      exact ih compiledLater closedLater next later

end Split

namespace Session

/-- Modularity: of patterns that refer only to one another, a session finds the same whether or not
it also knows others, composed with them or registered at any time. What it logs for the others
falls out of the log, and the rest is numbered anew. -/
theorem modular {automata : List Automaton} {network : Network} {inside : String → Bool}
    (compiled : ∀ automaton ∈ automata, automaton.Compiled)
    (composed : Network.compose automata = .ok network) (limits : Limits) (calls : List Call)
    (compiledCalls : ∀ call ∈ calls, call.Compiled)
    (closed : ∀ automaton, automaton ∈ automata ∨ Call.register automaton ∈ calls →
      inside automaton.name = true → ∀ reference ∈ automaton.references, inside reference.2 = true)
    (accepted : ∀ answer ∈ ((unified network limits).run sweepUnified calls).1,
      answer.accepted = true) :
    let cut : Cut := { inside, since := 0 }
    let whole := ((unified network limits).run sweepUnified calls).2
    (∀ event ∈ whole.events, cut.keeps event = inside event.pattern) ∧ cut.Closed whole.events ∧
    ∃ part, Network.compose (automata.filter (inside ·.name)) = .ok part ∧
      let (answers, after) := (unified part limits).run sweepUnified
        (calls.filter (·.within inside))
      (∀ answer ∈ answers, answer.accepted = true) ∧
        after.events = cut.excerpt whole.events := by
  intro cut whole
  have within : ∀ automaton ∈ automata, automaton.Within inside :=
    fun automaton member => closed automaton (.inl member)
  obtain ⟨part, composed'⟩ := Network.compose_filter composed within
  have compiled' : ∀ automaton ∈ automata.filter (inside ·.name), automaton.Compiled :=
    fun automaton member => compiled automaton (List.mem_filter.mp member).1
  have compiledCalls' : ∀ call ∈ calls.filter (·.within inside), call.Compiled :=
    fun call member => compiledCalls call (List.mem_filter.mp member).1
  -- the two sessions are compared unswept, where nothing depends on what else is in flight
  obtain ⟨answers, log⟩ :=
    run_unswept (.composed (.compose compiled composed)) limits calls compiledCalls
  obtain ⟨answers', log'⟩ := run_unswept (.composed (.compose compiled' composed')) limits
    (calls.filter (·.within inside)) compiledCalls'
  have begins := Split.opened limits compiled within composed composed'
  rw [← answers] at accepted
  obtain ⟨all, _, tokens, split⟩ := begins.run calls compiledCalls
    (fun automaton member => closed automaton (.inr member)) accepted
  have logs := split.beside.rest.log
  simp only [atRest, log, log'] at logs
  refine ⟨fun event member => ?_, logs.closed, part, composed', answers' ▸ all, logs.eq_excerpt⟩
  obtain ⟨position, found⟩ := List.mem_iff_getElem?.mp member
  rw [events, show whole.log = _ from log.symm] at found
  have begins := (split.sound.log position event found).begins
  simp only [Cut.keeps, cut, Bool.decide_and, Bool.decide_eq_true]
  simp [show 0 < event.start from begins]

/-- Pairs of sums that join after the first number do not disturb the sums. -/
theorem modular_pairs :
    let calls : List Call := [.feed ⟨"N", "1"⟩, .register pairsAutomaton, .feed ⟨"N", "2"⟩,
      .feed ⟨"N", "3"⟩]
    let cut : Cut := { inside := (· = "sum"), since := 0 }
    let whole := ((unified sumsNetwork {}).run sweepUnified calls).2
    let part := ((unified sumsNetwork {}).run sweepUnified (numbers.map .feed)).2
    whole.events.length = 26 ∧ (whole.events.filter (·.pattern = "pair")).length = 5 ∧
      part.events = cut.excerpt whole.events := by
  intro calls cut whole part
  have sums : ∀ automaton ∈ sumsAutomata, cut.inside automaton.name = true ∧
      ∀ reference ∈ automaton.references, cut.inside reference.2 = true := by decide +kernel
  have closed : ∀ automaton, automaton ∈ sumsAutomata ∨ Call.register automaton ∈ calls →
      cut.inside automaton.name = true →
        ∀ reference ∈ automaton.references, cut.inside reference.2 = true := by
    intro automaton known stays
    rcases known with composed | joined
    · exact (sums automaton composed).2
    · have same : automaton = pairsAutomaton := by simpa [calls] using joined
      subst same
      cases stays
  obtain ⟨_, _, network, composed, _, events⟩ := modular (Grammar.compile_compiled sums_compile)
    sums_compose {} calls (by simp [calls, Call.Compiled, pairs_compiled]) closed (by decide +kernel)
  have all : sumsAutomata.filter (cut.inside ·.name) = sumsAutomata :=
    List.filter_eq_self.mpr fun automaton member => (sums automaton member).1
  rw [all, sums_compose] at composed
  cases composed
  exact ⟨by decide +kernel, by decide +kernel, events⟩

end Session

end Constructicon
