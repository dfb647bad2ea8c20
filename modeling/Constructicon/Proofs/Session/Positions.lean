import Constructicon.Proofs.Session.Later
import Constructicon.Proofs.Session.Onset

/-! Over patterns without references, unified mode is isolated mode started at every position. No
such session ever refuses a token, and what a unified session finds from some position on is what
an isolated session finds in the tokens from there. -/
namespace Constructicon

open Network (Paired)

namespace Session

variable {since : Nat} {whole part : Session} {tokens : List Token}

theorem accepted_flat {sweep : Session → Session} (dropping : Dropping sweep) {session : Session}
    (flat : session.network.Flat) (going : session.aborted = false) (fed : List Token) :
    ∀ answer ∈ (session.run sweep (fed.map .feed)).1, answer.accepted = true := by
  induction fed generalizing session with
  | nil => simp [Session.run]
  | cons token rest ih =>
    have settled := tick_flat flat token
    refine accepted_cons.mpr ⟨feedWith_isOk.mpr ⟨going, settled⟩, ih ?_ ?_⟩
    · rw [network_of_basis (feedWith_basis dropping session token)]
      exact flat
    · exact aborted_feedWith dropping going settled

/-- All that has begun so far is left out of account, and what begins now is what an isolated
session is opened with. -/
theorem Full.onset {joined : List Nat} {apart : Network} (full : whole.Full tokens joined)
    (going : whole.aborted = false) (paired : whole.network.Paired apart) (limits : Limits) :
    whole.Onset tokens.length (start apart .isolated limits) := by
  have opened : start apart .isolated limits =
      Session.grow { network := apart, mode := .isolated, limits }
        (listenersAt 0 1 none none (allOpenings apart)) := seedAll_eq _ 1
  obtain ⟨automata, parted⟩ := paired.parted
  have now := full.now
  rw [opened]
  refine ⟨paired, full.unified, rfl, going, rfl, now.trans (Nat.zero_add _).symm, ?_, ?_⟩
  · refine Excerpt.nothing fun event logged => ?_
    have early := full.start_le logged
    have other : event.start ≠ tokens.length + 1 := by omega
    simp [Selection.beginning, other]
  · have old : Excerpt (·.anchor ≠ tokens.length + 1)
        (Tick.Onset.Mirrors tokens.length whole.network apart whole.log.toList) whole.active [] := by
      refine Excerpt.nothing fun listener active => ?_
      have begun := (full.begun active).2
      omega
    refine old.append ?_
    simp only [seeds, full.unified]
    exact Tick.Onset.planted _ _ parted.allOpenings (by omega) rfl (by simp [now]) (.none _)

theorem Onset.run (onset : whole.Onset since part) (sound : whole.Sound tokens)
    (now : whole.time = tokens.length) (fed : List Token) :
    (whole.run id (fed.map .feed)).2.Onset since (part.run sweepUnified (fed.map .feed)).2 := by
  induction fed generalizing whole part tokens with
  | nil => exact onset
  | cons token rest ih =>
    obtain ⟨soundNext, nowNext⟩ := sound_feedWith dropping_id token onset.going sound now
    have final := ih (onset.feed sound now token) soundNext (by simp [nowNext])
    exact final

/-- What begins right after some tokens is the log of an isolated session that is fed the others. -/
theorem logs_after {network apart : Network} (composition : network.Composition)
    (paired : network.Paired apart) (limits limits' : Limits) (before after : List Token) :
    (Selection.beginning (before.length + 1)).Logs
      ((unified network limits).run sweepUnified ((before ++ after).map .feed)).2.events
      ((start apart .isolated limits').run sweepUnified (after.map .feed)).2.events := by
  obtain ⟨sound, composes⟩ := composition.sound
  obtain ⟨full, going, basis⟩ := (full_unified sound composes limits).run rfl before
    (accepted_flat dropping_id paired.flat rfl before)
  have onset := full.onset going (by rw [network_of_basis basis]; exact paired) limits'
  have final := onset.run full.sound full.now after
  have fed : ∀ call ∈ (before ++ after).map Call.feed, call.Compiled := by
    intro call member
    obtain ⟨token, _, rfl⟩ := List.mem_map.mp member
    exact trivial
  have unswept := (run_unswept (.composed composition) limits _ fed).2
  rw [events, events, ← unswept, List.map_append, run_append]
  exact final.log

/-- Unified mode is isolated mode started at every position: over patterns that refer to none, a
unified session consumes whatever tokens there are, and of its log the instances that begin at any
one position, numbered anew and timed from there, are the whole log of an isolated session that is
fed the tokens from that position on. -/
theorem unified_by_position {automata : List Automaton}
    (compiled : ∀ automaton ∈ automata, automaton.Compiled)
    (distinct : (automata.map (·.name)).Nodup)
    (plain : ∀ automaton ∈ automata, automaton.references = []) (limits limits' : Limits)
    (tokens : List Token) :
    ∃ network alone, Network.compose automata = .ok network ∧
      Session.isolated automata limits' = .ok alone ∧
      let (answers, whole) := (unified network limits).run sweepUnified (tokens.map .feed)
      (∀ answer ∈ answers, answer.accepted = true) ∧
      ∀ position, 1 ≤ position → position ≤ tokens.length →
        let (answers', part) := alone.run sweepUnified ((tokens.drop (position - 1)).map .feed)
        (∀ answer ∈ answers', answer.accepted = true) ∧
          (Selection.beginning position).Closed whole.events ∧
          part.events = (Selection.beginning position).excerpt whole.events := by
  have sound : ∀ automaton ∈ automata, automaton.Sound :=
    fun automaton member => (compiled automaton member).sound
  obtain ⟨network, apart, composed, sideBySide, paired⟩ :=
    Network.exists_paired sound distinct plain
  have opened : Session.isolated automata limits' = .ok (start apart .isolated limits') := by
    rw [Session.isolated, sideBySide]
    rfl
  have flat : (start apart .isolated limits').network.Flat := by
    rw [start_network]
    exact paired.flat'
  refine ⟨network, _, composed, opened,
    accepted_flat dropping_sweepUnified paired.flat rfl tokens, fun position first last => ?_⟩
  obtain ⟨before, after, rfl, rfl⟩ :
      ∃ before after, tokens = before ++ after ∧ position = before.length + 1 := by
    refine ⟨tokens.take (position - 1), tokens.drop (position - 1), by simp, ?_⟩
    rw [List.length_take]
    omega
  have rest : (before ++ after).drop (before.length + 1 - 1) = after := List.drop_left
  rw [rest]
  have logs := logs_after (.compose compiled composed) paired limits limits' before after
  exact ⟨accepted_flat dropping_sweepUnified flat (aborted_start ..) after, logs.closed,
    logs.eq_excerpt⟩

end Session

/-- As many A as there are before a B, and A twice: wherever A follows A, instances overlap. -/
def stretches : Grammar :=
  Grammar.ofPatterns [
    { name := "stretch"
      nodes := Table.ofList [("start", { kind := .start }), ("a", Node.consuming "A"),
        ("b", Node.consuming "B"), ("end", { kind := .finish })]
      edges := [{ source := "start", target := "a" }, { source := "a", target := "a" },
        { source := "a", target := "b" }, { source := "b", target := "end" }] },
    Pattern.sequence "twice" ["A", "A"]]

def stretchAutomata : List Automaton :=
  stretches.compile.toOption.getD []

theorem stretches_compile : stretches.compile = .ok stretchAutomata :=
  eq_ok_of_isOk (by decide +kernel) []

namespace Session

/-- What begins with the second A, seven events out of nineteen, is all that is found from there. -/
theorem unified_by_position_stretches :
    let letters : List Token := [⟨"A", "1"⟩, ⟨"A", "2"⟩, ⟨"A", "3"⟩, ⟨"B", "4"⟩]
    (stretchAutomata.map (·.name)).Nodup ∧
      (∀ automaton ∈ stretchAutomata, automaton.references = []) ∧
      ∃ network alone, Network.compose stretchAutomata = .ok network ∧
        Session.isolated stretchAutomata {} = .ok alone ∧
        let whole := ((unified network {}).run sweepUnified (letters.map .feed)).2
        let (answers, part) := alone.run sweepUnified ((letters.drop 1).map .feed)
        whole.events.length = 19 ∧ part.events.length = 7 ∧
          (∀ answer ∈ answers, answer.accepted = true) ∧
          (Selection.beginning 2).Closed whole.events ∧
          part.events = (Selection.beginning 2).excerpt whole.events := by
  intro letters
  have distinct : (stretchAutomata.map (·.name)).Nodup := by decide +kernel
  have plain : ∀ automaton ∈ stretchAutomata, automaton.references = [] := by decide +kernel
  obtain ⟨network, alone, composed, opened, _, positions⟩ :=
    unified_by_position (Grammar.compile_compiled stretches_compile) distinct plain {} {} letters
  obtain ⟨accepted, closed, same⟩ := positions 2 (by decide) (by decide)
  refine ⟨distinct, plain, network, alone, composed, opened, ?_, ?_, accepted, closed, same⟩
  · have known : network = stretches.composed := by
      have built : stretches.network = .ok stretches.composed :=
        Grammar.network_composed (by decide +kernel)
      rw [Grammar.network, stretches_compile] at built
      exact Except.ok.inj (composed.symm.trans built)
    rw [known]
    decide +kernel
  · have counted : (Session.isolated stretchAutomata {}).toOption.map (fun session =>
        (session.run sweepUnified ((letters.drop 1).map .feed)).2.events.length) = some 7 := by
      decide +kernel
    rw [opened] at counted
    exact Option.some.inj counted

end Session

end Constructicon
