import Constructicon.Proofs.Network.Laid
import Constructicon.Proofs.Session.Parted
import Constructicon.Proofs.Session.Sweep

/-! What was fed earlier does not matter for what begins later. A session that has consumed some
tokens lies beside one that has just been opened, once the instances begun so far are left out of
account; and so the two stay. -/
namespace Constructicon

open Network (Part)

namespace Session

variable {tokens : List Token} {joined : List Nat} {session : Session}

theorem Full.begun (full : session.Full tokens joined) {listener : Listener}
    (active : listener ∈ session.active) :
    listener.anchor ≤ listener.readyAt ∧ listener.anchor ≤ tokens.length := by
  have planted := full.sound.active.subset active
  obtain ⟨position, found⟩ := List.mem_iff_getElem?.mp planted
  -- a seed waits for the tick at which it was planted, and every other listener goes on from an event
  cases (full.sound.arena position listener found).grounded with
  | entry origin start =>
    have anchor : listener.anchor = listener.readyAt := by rw [Listener.anchor, start]; rfl
    have ready : listener.readyAt ≤ session.time :=
      (full.tick.thorough.begun listener planted origin).1
    have now := full.now
    omega
  | @after cause _ before _ earlier _ start adjacent =>
    have anchor : listener.anchor = before.start := by rw [Listener.anchor, start]; rfl
    have sound := full.sound.log cause before earlier
    have spans := sound.spans
    have past := sound.past
    omega

theorem Full.start_le (full : session.Full tokens joined) {event : Event}
    (logged : event ∈ session.log.toList) : event.start ≤ tokens.length := by
  obtain ⟨position, found⟩ := List.mem_iff_getElem?.mp logged
  have sound := full.sound.log position event found
  exact Nat.le_trans sound.spans sound.past

/-- Apart from what has begun so far, the session is as if it started anew. -/
theorem Full.beside {automata : List Automaton} (full : session.Full tokens joined)
    (going : session.aborted = false) (laid : session.network.Laid automata) :
    session.Beside ⟨fun _ => true, tokens.length⟩ session.reset := by
  rw [Session.reset, full.unified]
  have all : automata.filter (fun _ => true) = automata := List.filter_eq_self.mpr fun _ _ => rfl
  have parted : Part (fun _ => true) session.network session.network automata :=
    ⟨laid, by rwa [all], fun _ _ _ _ _ => rfl⟩
  refine ⟨⟨⟨automata, parted⟩, full.unified, rfl, ?_, ?_, ?_, .nil, fun done none => by cases none⟩,
    rfl, going, rfl⟩
  · exact full.now.trans (Nat.zero_add _).symm
  · refine Excerpt.nothing fun event logged => ?_
    simp [Cut.keeps, full.start_le logged]
  · exact Excerpt.nothing fun listener active =>
      ⟨(full.begun active).1, .inl (full.begun active).2⟩

theorem accepted_cons {sweep : Session → Session} {token : Token} {rest : List Token} :
    (∀ answer ∈ (session.run sweep ((token :: rest).map .feed)).1, answer.accepted = true) ↔
      (session.feedWith sweep token).1.isOk = true ∧
        ∀ answer ∈ ((session.feedWith sweep token).2.run sweep (rest.map .feed)).1,
          answer.accepted = true := by
  rw [List.map_cons, Session.run]
  exact List.forall_mem_cons

theorem Full.run (full : session.Full tokens joined) (going : session.aborted = false)
    (fed : List Token)
    (accepted : ∀ answer ∈ (session.run id (fed.map .feed)).1, answer.accepted = true) :
    let after := (session.run id (fed.map .feed)).2
    after.Full (tokens ++ fed) joined ∧ after.aborted = false ∧ after.basis = session.basis := by
  induction fed generalizing session tokens with
  | nil =>
    rw [List.append_nil]
    exact ⟨full, going, rfl⟩
  | cons token rest ih =>
    obtain ⟨here, later⟩ := accepted_cons.mp accepted
    obtain ⟨_, settled⟩ := feedWith_isOk.mp here
    have next : (session.feedWith id token).2.Full (tokens ++ [token]) joined := by
      rw [feedWith_settled going settled]
      exact full.feed settled
    have goes : (session.feedWith id token).2.aborted = false := by
      rw [feedWith_settled going settled]
      exact (aborted_of_frame (session.tick_frame token)).trans going
    obtain ⟨whole, stays, basis⟩ := ih next goes later
    rw [List.append_cons]
    exact ⟨whole, stays, basis.trans (feedWith_basis dropping_id session token)⟩

theorem Beside.run {cut : Cut} {whole part : Session} (beside : whole.Beside cut part)
    (sound : whole.Sound tokens) (now : whole.time = tokens.length) (fed : List Token)
    (accepted : ∀ answer ∈ (whole.run id (fed.map .feed)).1, answer.accepted = true) :
    (∀ answer ∈ (part.run id (fed.map .feed)).1, answer.accepted = true) ∧
      (whole.run id (fed.map .feed)).2.Beside cut (part.run id (fed.map .feed)).2 := by
  induction fed generalizing whole part tokens with
  | nil => exact ⟨by simp [Session.run], beside⟩
  | cons token rest ih =>
    obtain ⟨here, later⟩ := accepted_cons.mp accepted
    obtain ⟨accepted', next⟩ := beside.feed sound now here
    obtain ⟨sound, now⟩ := sound_feedWith dropping_id token beside.going sound now
    obtain ⟨all, final⟩ := ih next sound (by simp [now]) later
    exact ⟨accepted_cons.mpr ⟨accepted', all⟩, final⟩

/-- Position independence: whatever tokens came first, the constructions that begin after them are
those that are found in the other tokens alone, as much later as these come. -/
theorem position_independent {grammar : Grammar} {limits : Limits} {session : Session}
    (opened : ofGrammar grammar limits = .ok session) (before after : List Token)
    (accepted : ∀ answer ∈ (session.run sweepUnified ((before ++ after).map .feed)).1,
      answer.accepted = true) :
    let cut : Cut := { inside := fun _ => true, since := before.length }
    let whole := (session.run sweepUnified ((before ++ after).map .feed)).2
    let (answers, alone) := session.run sweepUnified (after.map .feed)
    cut.Closed whole.events ∧ (∀ answer ∈ answers, answer.accepted = true) ∧
      alone.events = cut.excerpt whole.events := by
  intro cut whole
  obtain ⟨network, built, ok⟩ := bind_success opened
  cases ok
  obtain ⟨automata, compiled, composed⟩ := bind_success built
  have composition : network.Composition := .grammar built
  have fed (tokens : List Token) : ∀ call ∈ tokens.map Call.feed, call.Compiled := by
    simp [Call.Compiled]
  obtain ⟨answers, log⟩ := run_unswept (.composed composition) limits _ (fed (before ++ after))
  obtain ⟨answers', log'⟩ := run_unswept (.composed composition) limits _ (fed after)
  rw [← answers, List.map_append, run_append] at accepted
  obtain ⟨first, rest⟩ := List.forall_mem_append.mp accepted
  obtain ⟨sound, composes⟩ := composition.sound
  obtain ⟨full, going, basis⟩ := (full_unified sound composes limits).run rfl before first
  have laid : network.Laid automata := (Network.Alike.refl network).laid sound
    (fun automaton member => (Grammar.compile_compiled compiled automaton member).sound) composed
  have beside := full.beside going (by rw [network_of_basis basis]; exact laid)
  rw [reset_of_basis basis] at beside
  obtain ⟨all, final⟩ := beside.run full.sound full.now after rest
  have logs : cut.selection.Logs whole.events
      ((unified network limits).run sweepUnified (after.map .feed)).2.events := by
    rw [events, events, ← log, ← log', List.map_append, run_append]
    exact final.rest.log
  exact ⟨logs.closed, answers' ▸ all, logs.eq_excerpt⟩

/-- A first number goes into many sums, all of which begin with it. -/
theorem position_independent_sums :
    let cut : Cut := { inside := fun _ => true, since := 1 }
    let tokens : List Token := [⟨"N", "0"⟩] ++ numbers
    let whole := ((unified sumsNetwork {}).run sweepUnified (tokens.map .feed)).2
    let (answers, alone) := (unified sumsNetwork {}).run sweepUnified (numbers.map .feed)
    whole.events.length = 48 ∧ alone.events.length = 21 ∧ cut.Closed whole.events ∧
      (∀ answer ∈ answers, answer.accepted = true) ∧ alone.events = cut.excerpt whole.events := by
  have opened : ofGrammar sums {} = .ok (unified sumsNetwork {}) := by
    unfold ofGrammar
    rw [sums_network]
    rfl
  exact ⟨by decide +kernel, by decide +kernel,
    position_independent opened [⟨"N", "0"⟩] numbers (by decide +kernel)⟩

end Session

end Constructicon
