import Constructicon.Proofs.Automaton.Sequence
import Constructicon.Proofs.Session.Anchored

/-! A list of steps in an isolated session. No token is refused. A pattern whose automaton reads
just one list of types completes once if the tokens begin with these types, at the last of them,
and not at all otherwise; such is the pattern of every list of steps. -/
namespace Constructicon

namespace Session

variable {session : Session} {tokens : List Token} {roster : List (Automaton × Nat)}
  {automaton : Automaton}

/-- No token is refused, and what held before the tokens holds after them. -/
theorem Anchored.feedAll (anchored : session.Anchored tokens roster) (more : List Token) :
    (∃ reports, (session.feedAll more).1 = .ok reports) ∧
      (session.feedAll more).2.network = session.network ∧
      (session.feedAll more).2.Anchored (tokens ++ more) roster := by
  induction more generalizing session tokens with
  | nil =>
    rw [List.append_nil]
    exact ⟨⟨[], rfl⟩, rfl, anchored⟩
  | cons token more ih =>
    obtain ⟨⟨reports, accepted⟩, kept, after⟩ := ih (anchored.feed token)
    have network : (session.feed token).2.network = session.network :=
      network_of_basis (feedWith_basis dropping_sweepUnified session token)
    have step : session.feedAll (token :: more) = (.ok ((session.tick token).report :: reports),
        ((session.feed token).2.feedAll more).2) := by
      rw [Session.feedAll]
      rw [anchored.feed_eq token] at accepted ⊢
      dsimp only at accepted ⊢
      cases fed : Session.feedAll _ more with
      | mk outcome final =>
        rw [fed] at accepted
        cases accepted
        rfl
    rw [step, List.append_cons]
    exact ⟨⟨_, rfl⟩, kept.trans network, after⟩

/-- If a session has one pattern, all completions are those of the pattern. -/
theorem completions_sole {name : String} (sound : session.Sound tokens)
    (sole : session.network.members.map (·.name) = [name]) :
    session.events.filter (·.kind = .complete) = session.completionsOf name := by
  refine List.filter_congr fun event member => ?_
  obtain ⟨position, found⟩ := List.mem_iff_getElem?.mp member
  obtain ⟨node, place⟩ := (sound.log position event found).place
  obtain ⟨owner, _, index, _⟩ := sound.network.find?_eq_some.mp place
  obtain ⟨other, registered, named⟩ := Network.Sound.member_of_memberIndex? index
  have known : event.pattern ∈ session.network.members.map (·.name) :=
    List.mem_map.mpr ⟨other, List.mem_of_getElem? registered, named⟩
  rw [sole, List.mem_singleton] at known
  simp [known]

theorem typesSince_zero (tokens : List Token) :
    typesSince tokens 0 = tokens.map (·.elementType) := by
  rw [typesSince, List.drop_zero]

section Sole

variable {owner base : Nat} {wanted way : List String}
  (follows : session.Follows tokens automaton 0 owner base) (sound : session.Sound tokens)
  (reads : ∀ types, automaton.readings automaton.entryClosure types =
    if types = wanted then [way] else [])

include follows sound reads

/-- A completion tells that the tokens up to its time have the types of a reading. -/
theorem Follows.take_eq {event : Event} (member : event ∈ session.completionsOf automaton.name) :
    (tokens.map (·.elementType)).take event.time = wanted := by
  obtain ⟨position, found⟩ := List.mem_iff_getElem?.mp (List.mem_filter.mp member).1
  have counted := follows.counted event.time (follows.begun event member).2
    (sound.log position event found).past
  rw [typesSince_zero, Nat.sub_zero, reads] at counted
  by_contra other
  rw [if_neg other, List.length_nil, List.length_eq_zero_iff, List.filter_eq_nil_iff] at counted
  exact counted event member (by simp)

/-- Tokens that begin with the types that are read complete the pattern once, at the last. -/
theorem Follows.completes (filled : wanted ≠ []) (begins : wanted <+: tokens.map (·.elementType)) :
    ∃ event, session.completionsOf automaton.name = [event] ∧ event.start = 1 ∧
      event.time = wanted.length := by
  have past : wanted.length ≤ tokens.length := by simpa using begins.length_le
  have counted := follows.counted wanted.length (List.length_pos_iff.mpr filled) past
  have same := List.prefix_iff_eq_take.mp begins
  rw [typesSince_zero, Nat.sub_zero, reads, if_pos same.symm] at counted
  have timely : ∀ event ∈ session.completionsOf automaton.name, event.time = wanted.length := by
    intro event member
    obtain ⟨position, found⟩ := List.mem_iff_getElem?.mp (List.mem_filter.mp member).1
    have bound := (sound.log position event found).past
    have length := congrArg List.length (follows.take_eq sound reads member)
    simp only [List.length_take, List.length_map] at length
    omega
  rw [List.filter_eq_self.mpr fun event member => by simp [timely event member]] at counted
  obtain ⟨event, sole⟩ := List.length_eq_one_iff.mp counted
  have member : event ∈ session.completionsOf automaton.name := by simp [sole]
  exact ⟨event, sole, (follows.begun event member).1, timely event member⟩

theorem Follows.incomplete
    (other : ¬ wanted <+: tokens.map (·.elementType)) :
    session.completionsOf automaton.name = [] := by
  rw [List.eq_nil_iff_forall_not_mem]
  intro event member
  rw [← follows.take_eq sound reads member] at other
  exact other (List.take_prefix _ _)

end Sole

/-- A session opened with one automaton, which reads one list of types. -/
theorem Anchored.completions_eq (anchored : session.Anchored [] [(automaton, 0)])
    (sole : session.network.members.map (·.name) = [automaton.name]) {wanted way : List String}
    (reads : ∀ types, automaton.readings automaton.entryClosure types =
      if types = wanted then [way] else []) (filled : wanted ≠ []) (tokens : List Token) :
    (wanted <+: tokens.map (·.elementType) →
      ∃ event, (session.feedAll tokens).2.events.filter (·.kind = .complete) = [event] ∧
        event.start = 1 ∧ event.time = wanted.length) ∧
    (¬ wanted <+: tokens.map (·.elementType) →
      (session.feedAll tokens).2.events.filter (·.kind = .complete) = []) := by
  obtain ⟨_, network, after⟩ := anchored.feedAll tokens
  obtain ⟨owner, base, follows⟩ := after.follows (automaton, 0) (List.mem_singleton_self _)
  rw [completions_sole after.sound (network.symm ▸ sole)]
  exact ⟨follows.completes after.sound reads filled, follows.incomplete after.sound reads⟩

end Session

namespace Pattern

/-- A list of steps means what it says. It compiles unless a step is a reference that does not say
what it refers to. In an isolated session it then completes just once, from the first token on, at
as many tokens as there are steps, if the tokens have the types of the steps, where a reference has
the name of its pattern; else it does not complete. It refers to the patterns that its steps name
after an at sign. -/
theorem sequence_exact (name other : String) (steps : List String) (filled : steps ≠ []) :
    (((sequence name steps).compile other).isOk = true ↔ referenceType ∉ steps) ∧
    (∀ automaton, (sequence name steps).compile other = .ok automaton →
      ∀ limits, ∃ session, Session.isolated [automaton] limits = .ok session ∧
        ∀ tokens, (∃ reports, (session.feedAll tokens).1 = .ok reports) ∧
          (steps.map Node.bare <+: tokens.map (·.elementType) →
            ∃ event, (session.feedAll tokens).2.events.filter (·.kind = .complete) = [event] ∧
              event.start = 1 ∧ event.time = steps.length) ∧
          (¬ steps.map Node.bare <+: tokens.map (·.elementType) →
            (session.feedAll tokens).2.events.filter (·.kind = .complete) = [])) ∧
    (sequence name steps).references.Pairwise (· < ·) ∧
    ∀ pattern, pattern ∈ (sequence name steps).references ↔
      ∃ step ∈ steps, step.toList = '@' :: pattern.toList := by
  refine ⟨compile_sequence_isOk, ?_, references_sequence⟩
  intro automaton compiled limits
  obtain ⟨_, same⟩ := compile_sequence.mp compiled
  have alone : ([automaton].map (·.name)).Nodup := List.nodup_singleton _
  have built := Network.isolated_eq_ok.mpr ⟨alone, rfl⟩
  refine ⟨Session.start (Network.joinAll {} none [automaton]) .isolated limits, ?_, ?_⟩
  · rw [Session.isolated, built]
    rfl
  intro tokens
  have opened := Session.anchored_start limits
    (List.forall_mem_singleton.mpr ⟨_, _, compiled⟩) alone
  have sole : (Session.start (Network.joinAll {} none [automaton]) .isolated
      limits).network.members.map (·.name) = [automaton.name] := by
    rw [Session.start_network]
    exact Network.names_joinAll [automaton]
  have reads : ∀ types, automaton.readings automaton.entryClosure types =
      if types = steps.map Node.bare then [(stops steps).map (·.1)] else [] :=
    same ▸ readings_strand
  have completions := opened.completions_eq sole reads (by simpa using filled) tokens
  rw [List.length_map] at completions
  exact ⟨(opened.feedAll tokens).1, completions⟩

/-- Eleven steps; in the order of the keys the last stands before the third. -/
def letters : List String :=
  ["A", "@B", "C", "D", "E", "F", "G", "H", "I", "J", "@K"]

def lettersRead : List Token :=
  ["A", "B", "C", "D", "E", "F", "G", "H", "I", "J", "K", "L"].map (⟨·, ""⟩)

def lettersByKey : List Token :=
  ["A", "B", "K", "C", "D", "E", "F", "G", "H", "I", "J"].map (⟨·, ""⟩)

theorem sequence_exact_letters :
    letters ≠ [] ∧ ((sequence "letters" letters).compile "letters").isOk = true ∧
      (∃ automaton session, (sequence "letters" letters).compile "letters" = .ok automaton ∧
        Session.isolated [automaton] {} = .ok session ∧
        (∃ event, (session.feedAll lettersRead).2.events.filter (·.kind = .complete) = [event] ∧
          event.start = 1 ∧ event.time = 11) ∧
        (session.feedAll lettersByKey).2.events.filter (·.kind = .complete) = []) ∧
      "K" ∈ (sequence "letters" letters).references := by
  have filled : letters ≠ [] := by decide
  obtain ⟨compiles, means, _, refers⟩ := sequence_exact "letters" "letters" letters filled
  have compiled := compiles.mpr (by decide)
  obtain ⟨automaton, known⟩ := exists_ok_iff.mp compiled
  obtain ⟨session, opened, recognises⟩ := means automaton known {}
  obtain ⟨_, once, _⟩ := recognises lettersRead
  obtain ⟨_, _, never⟩ := recognises lettersByKey
  exact ⟨filled, compiled,
    ⟨automaton, session, known, opened, once (by decide), never (by decide)⟩,
    (refers "K").mpr ⟨"@K", by decide, by decide⟩⟩

end Pattern

end Constructicon
