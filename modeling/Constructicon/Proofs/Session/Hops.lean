import Constructicon.Proofs.Session.Derivation
import Constructicon.Proofs.Session.History
import Constructicon.Proofs.Session.Once
import Mathlib.Data.List.Chain

/-! Cascades hop by hop. A completion that feeds a reference whose firing reaches the end leads to
the next completion. Along such a hop the start moves back, or else the reference is entered and
left at once: what waits for a completion either began before it or is a first element. All
completions of one depth lie equally many hops from the token. -/
namespace Constructicon

namespace Network

/-- An element of `outer` stands for `inner`. -/
def Feeds (network : Network) (inner outer : Nat) : Prop :=
  ∃ (node : Nat) (site : Site), network.sites[node]? = some site ∧ site.pattern = some outer ∧
    network.Refers node inner

/-- A first element of `outer` stands for `inner` and the end is reached from it, so that every
completion of `inner` is one of `outer`. -/
def ZeroWidth (network : Network) (inner outer : Nat) : Prop :=
  ∃ (member : Member) (node : Nat), network.members[outer]? = some member ∧
    node ∈ member.entryNodes ∧ network.Refers node inner ∧
    (network.closureAfter node).reachesEnd = true

instance (network : Network) (node inner : Nat) : Decidable (network.Refers node inner) :=
  decidable_of_iff (∃ site ∈ network.sites[node]?, ∃ member ∈ network.members[inner]?,
    site.reference = some member.name)
    ⟨fun ⟨site, here, member, registered, names⟩ => ⟨site, member, here, registered, names⟩,
      fun ⟨site, member, here, registered, names⟩ => ⟨site, here, member, registered, names⟩⟩

instance (network : Network) (inner outer : Nat) : Decidable (network.ZeroWidth inner outer) :=
  decidable_of_iff (∃ member ∈ network.members[outer]?, ∃ node ∈ member.entryNodes,
    network.Refers node inner ∧ (network.closureAfter node).reachesEnd = true)
    ⟨fun ⟨member, registered, node, facts⟩ => ⟨member, node, registered, facts⟩,
      fun ⟨member, node, registered, facts⟩ => ⟨member, registered, node, facts⟩⟩

end Network

namespace Completion

/-- The firing that leads to `next` consumed `done`. -/
structure Hop (network : Network) (done next : Completion) : Prop where
  feeds : network.Feeds done.pattern next.pattern
  begins : next.start < done.start ∨
    next.start = done.start ∧ network.ZeroWidth done.pattern next.pattern
  path : next.path = done.path ++ [network.ownerName (some next.pattern)]

/-- A completion of a registered pattern that began by the tick `time`. -/
structure Within (network : Network) (time : Nat) (done : Completion) : Prop where
  pattern : done.pattern < network.members.length
  begins : 1 ≤ done.start
  past : done.start ≤ time

/-- A cascade up to a completion, the latest first. -/
structure Cascade (network : Network) (time : Nat) (chain : List Completion) : Prop where
  hops : chain.IsChain fun next done => Hop network done next
  within : ∀ done ∈ chain, done.Within network time

theorem Grounded.within {network : Network} {mode : Mode} {tokens : List Token} {log : List Event}
    {time : Nat} {done : Completion} (sound : SoundLog network mode tokens log)
    (grounded : done.Grounded network log time) : done.Within network time := by
  obtain ⟨member, registered⟩ := grounded.member
  obtain ⟨before, found, _, together, start, _⟩ := grounded
  have event := sound _ before found
  have begins := event.begins
  have spans := event.spans
  exact ⟨(List.getElem?_eq_some_iff.mp registered).1, by omega, by omega⟩

end Completion

namespace Tick
open Session

variable {tokens : List Token} {tick : Tick} {done next : Completion}

/-- The completions that the firings of `listeners` lead to. -/
theorem mem_pending_foldl_fire (position : Nat) (elementType value : String) (sub : Option Nat)
    (path : List String) (listeners : List Listener)
    (waits : next ∈ (listeners.foldl (fun t listener =>
      t.fire listener position elementType value sub path) tick).pending) :
    next ∈ tick.pending ∨ ∃ listener ∈ listeners,
      (tick.session.network.closureAfter listener.node).reachesEnd = true ∧
        next.pattern = listener.pattern ∧ next.start = listener.start.getD position ∧
        next.path = path ++ [tick.session.network.ownerName (some next.pattern)] := by
  induction listeners generalizing tick with
  | nil => exact .inl waits
  | cons first rest ih =>
    rcases ih waits with before | ⟨listener, member, facts⟩
    · rw [fire_pending] at before
      rcases List.mem_append.mp before with old | new
      · exact .inl old
      · obtain ⟨ends, rfl⟩ := mem_reached.mp new
        exact .inr ⟨first, List.mem_cons_self, ends, rfl, rfl, rfl⟩
    · rw [fire_network] at facts
      exact .inr ⟨listener, List.mem_cons_of_mem _ member, facts⟩

/-- What waits for a completion began before it or is a first element of its pattern. -/
theorem Sound.begins_of_feedable (sound : tick.Sound tokens) {member : Member}
    {listener : Listener}
    (found : tick.session.network.members[done.pattern]? = some member)
    (waits : listener ∈ tick.session.feedable member done.start)
    (ends : (tick.session.network.closureAfter listener.node).reachesEnd = true) :
    tick.session.network.Feeds done.pattern listener.pattern ∧
      (listener.start.getD done.start < done.start ∨ listener.start.getD done.start = done.start ∧
        tick.session.network.ZeroWidth done.pattern listener.pattern) := by
  obtain ⟨active, target, ready⟩ := mem_feedable.mp waits
  obtain ⟨site, here, names⟩ := sound.session.network.reference_of_mem_refTargets found target
  have refers : tick.session.network.Refers listener.node done.pattern :=
    ⟨site, member, here, found, names⟩
  obtain ⟨_, grounded⟩ := sound.grounded (sound.session.active.subset active)
  obtain ⟨_, same, _, owned⟩ := grounded.site sound.session.network
  cases here.symm.trans same
  refine ⟨⟨_, site, here, owned, refers⟩, ?_⟩
  cases grounded with
  | entry origin start registered opens =>
    exact .inr ⟨by rw [start, Option.getD_none], _, _, registered, opens, refers, ends⟩
  | after origin recorded fired start adjacent =>
    -- the instance had consumed something before the completion began
    have spans := (sound.session.log _ _ recorded).spans
    rw [start, Option.getD_some]
    exact .inl (by omega)

theorem hop_complete (sound : tick.Sound tokens) (unified : tick.session.mode = .unified)
    (grounded : done.Grounded tick.session.network tick.session.log.toList tick.report.time)
    (waits : next ∈ (tick.complete done).pending) :
    next ∈ tick.pending ∨ done.Hop tick.session.network next := by
  obtain ⟨member, found⟩ := grounded.member
  have early := (completing_grounded sound found grounded).2.2
  rw [complete_unified found unified early] at waits
  rcases mem_pending_foldl_fire done.start referenceType member.name _ done.path _ waits with
    old | ⟨listener, fed, ends, pattern, start, path⟩
  · exact .inl old
  · obtain ⟨feeds, begins⟩ := sound.begins_of_feedable found fed ends
    rw [← start, ← pattern] at begins
    rw [← pattern] at feeds
    exact .inr ⟨feeds, begins, path⟩

/-- What a round of completions leaves to be settled lies one hop beyond them. -/
theorem hop_foldl_complete (queue : List Completion) (sound : tick.Sound tokens)
    (unified : tick.session.mode = .unified)
    (grounded : ∀ done ∈ queue,
      done.Grounded tick.session.network tick.session.log.toList tick.report.time) :
    let after := queue.foldl complete tick
    after.Sound tokens ∧ tick.Onward after ∧ ∀ next ∈ after.pending,
      next ∈ tick.pending ∨ ∃ done ∈ queue, done.Hop tick.session.network next := by
  induction queue generalizing tick with
  | nil => exact ⟨sound, .refl tick, fun _ => .inl⟩
  | cons first rest ih =>
    have now := grounded first List.mem_cons_self
    have onward := onward_complete tick first
    obtain ⟨soundAll, onwardAll, hops⟩ := ih (sound_complete sound now)
      (onward.mode.trans unified) (fun done later => by
        rw [onward.network, onward.time]
        exact (grounded done (List.mem_cons_of_mem _ later)).extend onward.log)
    refine ⟨soundAll, onward.trans onwardAll, fun next waits => ?_⟩
    rw [onward.network] at hops
    rcases hops next waits with before | ⟨done, later, hop⟩
    · exact (hop_complete sound unified now before).imp_right fun hop =>
        ⟨first, List.mem_cons_self, hop⟩
    · exact .inr ⟨done, List.mem_cons_of_mem _ later, hop⟩

/-- Everything that is to be settled ends a cascade of so many hops. -/
def AtDepth (depth : Nat) (tick : Tick) : Prop :=
  ∀ done ∈ tick.pending, done.path.length = depth + 1 ∧ ∃ earlier : List Completion,
    earlier.length = depth ∧
      Completion.Cascade tick.session.network tick.report.time (done :: earlier)

theorem AtDepth.settle {depth : Nat} (deep : tick.AtDepth depth) (sound : tick.Sound tokens)
    (unified : tick.session.mode = .unified) (depths : Nat) :
    (tick.settle depths).AtDepth (depth + depths) := by
  induction depths generalizing tick depth with
  | zero =>
    rw [settle_zero]
    exact deep
  | succ depths ih =>
    have emptied : Sound tokens { tick with pending := [] } :=
      ⟨sound.session, sound.time, fun _ none => by cases none⟩
    obtain ⟨after, onward, hops⟩ :=
      hop_foldl_complete tick.pending emptied unified sound.pending
    have further : depth + (depths + 1) = depth + 1 + depths := by omega
    rw [settle_succ, further]
    apply ih _ after (onward.mode.trans unified)
    intro next waits
    obtain ⟨done, settled, hop⟩ := (hops next waits).resolve_left (by simp)
    obtain ⟨length, earlier, size, cascade⟩ := deep done settled
    have within := (after.pending next waits).within after.session.log
    rw [onward.network] at within ⊢
    rw [onward.time] at within ⊢
    refine ⟨by simp [hop.path, length], done :: earlier, by simp [size], ?_, ?_⟩
    · exact cascade.hops.cons fun other first => by
        cases first
        exact hop
    · exact List.forall_mem_cons.mpr ⟨within, cascade.within⟩

end Tick

namespace Session
open Tick

variable {tokens : List Token} {session : Session}

/-- The tick of a token that has fired what takes it, with nothing settled yet. -/
def struck (session : Session) (token : Token) : Tick :=
  (session.seeded.matching (session.time + 1) token.elementType).foldl (fun t listener =>
    t.fire listener (session.time + 1) token.elementType token.value none []) session.opened

/-- The completions of a tick that lie `depth` hops from its token, however deep cascades may go. -/
def completionsAt (session : Session) (token : Token) (depth : Nat) : List Completion :=
  ((session.struck token).settle depth).pending

theorem tick_eq_struck (session : Session) (token : Token) :
    session.tick token = (session.struck token).settle (session.limits.maxCascadeDepth + 1) :=
  session.tick_eq token

theorem sound_struck (token : Token) (sound : session.Sound tokens)
    (now : session.time = tokens.length) : (session.struck token).Sound (tokens ++ [token]) :=
  sound_foldl_fire [] _ (sound_opened token sound now) (matching_fed token sound now)

theorem onward_struck (session : Session) (token : Token) :
    session.opened.Onward (session.struck token) :=
  onward_foldl (fun t listener => onward_fire t listener _ _ _ _ _) _ _

theorem struck_atDepth (token : Token) (sound : session.Sound tokens)
    (now : session.time = tokens.length) : (session.struck token).AtDepth 0 := by
  have struck := sound_struck token sound now
  have onward := session.onward_struck token
  intro done waits
  have within := (struck.pending done waits).within struck.session.log
  rcases mem_pending_foldl_fire _ _ _ _ [] _ waits with none | ⟨_, _, _, _, _, path⟩
  · cases none
  · refine ⟨by simp [path], [], rfl, ?_, ?_⟩
    · exact .singleton done
    · simpa using within

/-- A completion at some depth ends a cascade of that many hops. -/
theorem cascade_of_completionsAt {token : Token} {depth : Nat} {done : Completion}
    (sound : session.Sound tokens) (now : session.time = tokens.length)
    (unified : session.mode = .unified) (waits : done ∈ session.completionsAt token depth) :
    done.path.length = depth + 1 ∧ ∃ earlier : List Completion, earlier.length = depth ∧
      Completion.Cascade session.network (session.time + 1) (done :: earlier) := by
  have onward := session.onward_struck token
  have struck := sound_struck token sound now
  have settled := (struck_atDepth token sound now).settle struck
    (onward.mode.trans ((opened_mode session).trans unified)) depth done waits
  have frame := (session.struck token).settle_frame depth
  have time := (sound_settle depth struck).time
  rw [Nat.zero_add, network_of_frame frame, onward.network, opened_network, time] at settled
  simpa [now] using settled

end Session

end Constructicon
