import Constructicon.Proofs.Automaton.Activation
import Constructicon.Proofs.Network.Origin
import Constructicon.Proofs.Session.Rest

/-! No instance gets stuck. Every element of a compiled pattern leads on to the end, and so does
its node in every network the pattern is embedded in. A firing therefore plants a listener or
queues a completion, and an active listener always has a way to complete its pattern, whatever the
elements on that way fire for. -/
namespace Constructicon

/-- What a listener fires for. -/
structure Occasion where
  position : Nat
  elementType : String
  value : String
  subEvent : Option Nat
  path : List String

namespace Automaton
open Closure

variable {automaton : Automaton} {key next : String}

theorem known_of_follows (sound : automaton.Sound)
    (follows : Follows automaton.closureAfter key next) : key ∈ automaton.nodes.keys := by
  obtain ⟨_, seed, left, _⟩ := mem_closureFrom.mp follows
  obtain ⟨edge, present, rfl, _⟩ := mem_successors.mp left
  exact (sound.edges edge present).1

theorem entryClosure_goesOn (trim : automaton.Trim)
    (known : automaton.start ∈ automaton.nodes.keys) : automaton.entryClosure.GoesOn := by
  have leads : automaton.Leads automaton.start := leads_of_path trim (trim.leads _ known)
  rcases leads.closureFrom trim (List.mem_singleton_self _) with ends | ⟨key, opens, _⟩
  · exact .inr ends
  · exact .inl (List.ne_nil_of_mem opens)

end Automaton

namespace Network
open Closure

variable {network : Network} {automaton : Automaton} {node : Nat}

theorem Carries.finishes {owner base : Nat} {key : String}
    (carries : network.Carries automaton owner base) (known : key ∈ automaton.nodes.keys)
    (finishes : Finishes automaton.closureAfter key) :
    Finishes network.closureAfter (automaton.spot base key) := by
  obtain ⟨last, chain, ends⟩ := finishes
  have there : last ∈ automaton.nodes.keys := by
    rcases Relation.ReflTransGen.cases_tail chain with rfl | ⟨_, _, follows⟩
    · exact known
    · exact Automaton.mem_keys_of_kindOf (Automaton.element_of_follows follows)
  have step (a b : String) (follows : Follows automaton.closureAfter a b) :
      Follows network.closureAfter (automaton.spot base a) (automaton.spot base b) := by
    rw [Follows, carries.after a (Automaton.known_of_follows carries.compiled follows)]
    exact List.mem_map_of_mem follows
  refine ⟨automaton.spot base last, chain.lift (automaton.spot base) step, ?_⟩
  rw [carries.after last there]
  exact ends

theorem Built.finishes (built : network.Built) {site : Site}
    (found : network.sites[node]? = some site) (element : site.role = .element) :
    Finishes network.closureAfter node := by
  obtain ⟨automata, origin⟩ := built.origin
  obtain ⟨owner, owned⟩ := Option.isSome_iff_exists.mp
    (built.sound.elements node site found element).1
  obtain ⟨automaton, member, base, holds, entry, present, rfl, rfl⟩ :=
    origin.origin_site found owned (by simp [element])
  have known : entry.1 ∈ automaton.nodes.keys := List.mem_map.mpr ⟨entry, present, rfl⟩
  have kind : automaton.kindOf entry.1 = .element := by
    rw [Automaton.kindOf, Automaton.node?_eq_some.mpr present, Option.map_some, Option.getD_some,
      ← kind_siteOf owner entry.1, element]
    rfl
  exact holds.carries.finishes known
    (Automaton.finishes_of_element (origin.compiled automaton member).trim kind)

end Network

namespace Tick
open Session Closure

variable {tick : Tick} {listener : Listener} {id : Nat}

def fireFor (tick : Tick) (occasion : Occasion) (listener : Listener) : Tick :=
  tick.fire listener occasion.position occasion.elementType occasion.value occasion.subEvent
    occasion.path

/-- Whatever it fires for, and whatever those after it do, `listener` queues a completion of its
pattern or plants a listener of it that does. -/
inductive Completable : Tick → Listener → Prop where
  | ends {tick : Tick} {listener : Listener} (queues : ∀ occasion, ∃ done,
      done ∈ (tick.fireFor occasion listener).pending ∧ done.pattern = listener.pattern ∧
        done.cause = tick.session.log.size) : Completable tick listener
  | goesOn {tick : Tick} {listener : Listener} (next : Occasion → Listener)
      (plants : ∀ occasion, next occasion ∈ (tick.fireFor occasion listener).session.active ∧
        (next occasion).pattern = listener.pattern ∧
        (next occasion).origin = some tick.session.log.size)
      (rest : ∀ occasion, Completable (tick.fireFor occasion listener) (next occasion)) :
      Completable tick listener

theorem exists_follower {next : Nat} (position : Nat)
    (follows : Follows tick.session.network.closureAfter listener.node next) :
    ∃ follower ∈ tick.followers listener position, follower.node = next ∧
      follower.pattern = listener.pattern ∧ follower.origin = some tick.session.log.size := by
  have spot : (listener.pattern, next) ∈
      (tick.session.network.closureAfter listener.node).elements.map (listener.pattern, ·) :=
    List.mem_map_of_mem follows
  obtain ⟨follower, member, pattern, node⟩ := exists_listenersAt spot
  exact ⟨follower, member, node, pattern, (mem_listenersAt member).2.2.2.2⟩

theorem completable_of_finishes {node : Nat} (here : listener.node = node)
    (finishes : Finishes tick.session.network.closureAfter node) : tick.Completable listener := by
  generalize known : tick.session.network = network at finishes
  obtain ⟨last, chain, ends⟩ := finishes
  induction chain using Relation.ReflTransGen.head_induction_on generalizing tick listener with
  | refl =>
    have ends : (tick.session.network.closureAfter listener.node).reachesEnd = true := by
      rwa [known, here]
    refine .ends fun occasion => ?_
    rw [fireFor, fire_pending]
    exact ⟨_, List.mem_append_right _ (mem_reached.mpr ⟨ends, rfl⟩), rfl, rfl⟩
  | @head _ later follows _ ih =>
    have follows : Follows tick.session.network.closureAfter listener.node later := by
      rwa [known, here]
    have planted (occasion : Occasion) := exists_follower occasion.position follows
    choose next member place pattern origin using planted
    refine .goesOn next (fun occasion => ⟨?_, pattern occasion, origin occasion⟩) fun occasion => ?_
    · rw [fireFor, fire_active]
      exact List.mem_append_right _ (member occasion)
    · exact ih (place occasion) (by rw [fireFor, fire_network, known])

/-- What a firing has led to: a listener, or a completion, recorded or still to be settled. -/
def Moves (tick : Tick) (id : Nat) : Prop :=
  (∃ listener ∈ tick.session.arena.toList, listener.origin = some id) ∨
    (∃ done ∈ tick.pending, done.cause = id) ∨
    ∃ event ∈ tick.session.log.toList, event.kind = .complete ∧ event.cause = some id

theorem Moves.mono {later : Tick} (moves : tick.Moves id)
    (arena : tick.session.arena.toList ⊆ later.session.arena.toList)
    (pending : tick.pending ⊆ later.pending)
    (log : tick.session.log.toList ⊆ later.session.log.toList) : later.Moves id := by
  rcases moves with ⟨listener, planted, origin⟩ | ⟨done, queued, cause⟩ | ⟨event, recorded, said⟩
  · exact .inl ⟨listener, arena planted, origin⟩
  · exact .inr (.inl ⟨done, pending queued, cause⟩)
  · exact .inr (.inr ⟨event, log recorded, said⟩)

def Pursued (tick : Tick) : Prop :=
  ∀ (id : Nat) (event : Event), tick.session.log.toList[id]? = some event → event.kind = .fire →
    tick.Moves id

theorem Pursued.fire {position : Nat} {elementType value : String} {subEvent : Option Nat}
    {path : List String} (pursued : tick.Pursued)
    (goesOn : (tick.session.network.closureAfter listener.node).GoesOn) :
    (tick.fire listener position elementType value subEvent path).Pursued := by
  intro id event found fired
  rw [fire_log] at found
  rcases getElem?_concat_cases found with old | ⟨rfl, -⟩
  · exact (pursued id event old fired).mono (by simp) (by simp) (by simp)
  · rw [Moves, fire_arena, fire_pending]
    rcases goesOn with some | ends
    · obtain ⟨next, follows⟩ := List.exists_mem_of_ne_nil _ some
      obtain ⟨follower, member, _, _, origin⟩ := exists_follower position follows
      exact .inl ⟨follower, List.mem_append_right _ member, by simpa using origin⟩
    · exact .inr (.inl ⟨_, List.mem_append_right _ (mem_reached.mpr ⟨ends, rfl⟩), by simp⟩)

theorem Pursued.foldl_fire {position : Nat} {elementType value : String} {subEvent : Option Nat}
    {path : List String} (listeners : List Listener) (pursued : tick.Pursued)
    (goesOn : ∀ listener ∈ listeners, (tick.session.network.closureAfter listener.node).GoesOn) :
    (listeners.foldl (fun t listener => t.fire listener position elementType value subEvent path)
      tick).Pursued := by
  induction listeners generalizing tick with
  | nil => exact pursued
  | cons first rest ih =>
    refine ih (pursued.fire (goesOn first List.mem_cons_self)) fun listener member => ?_
    rw [fire_network]
    exact goesOn listener (List.mem_cons_of_mem _ member)

/-- A completion is queued until it is recorded. -/
theorem Pursued.tell {done : Completion} {rest : List Completion} (member : Member)
    (pursued : tick.Pursued) (waits : tick.pending = done :: rest) :
    (Tick.tell { tick with pending := rest } member done).Pursued := by
  intro id event found fired
  rw [Moves, tell_log]
  rw [tell_log] at found
  rcases getElem?_concat_cases found with old | ⟨_, rfl⟩
  · rcases pursued id event old fired with planted | ⟨queued, waiting, cause⟩ | recorded
    · exact .inl planted
    · rw [waits] at waiting
      rcases List.mem_cons.mp waiting with rfl | later
      · exact .inr (.inr ⟨_, List.mem_append_right _ (List.mem_singleton_self _), rfl,
          congrArg some cause⟩)
      · exact .inr (.inl ⟨queued, later, cause⟩)
    · exact .inr (.inr (recorded.imp fun _ facts => ⟨List.mem_append_left _ facts.1, facts.2⟩))
  · cases fired

variable {tokens : List Token}

theorem Sound.goesOn (sound : tick.Sound tokens) (built : tick.session.network.Built)
    (planted : listener ∈ tick.session.arena.toList) :
    (tick.session.network.closureAfter listener.node).GoesOn := by
  obtain ⟨site, found, element, _⟩ := (sound.grounded planted).2.site sound.session.network
  exact (built.finishes found element).goesOn

theorem Pursued.complete {member : Member} {done : Completion} (sound : tick.Sound tokens)
    (built : tick.session.network.Built)
    (grounded : done.Grounded tick.session.network tick.session.log.toList tick.report.time)
    (found : tick.session.network.members[done.pattern]? = some member)
    (told : (tick.tell member done).Pursued) : (tick.complete done).Pursued := by
  cases mode : tick.session.mode with
  | isolated => rwa [complete_isolated found mode]
  | unified =>
    rw [complete_unified found mode (completing_grounded sound found grounded).2.2]
    refine told.foldl_fire _ fun listener waiting => ?_
    exact sound.goesOn built (sound.session.active.subset (mem_feedable.mp waiting).1)

theorem Pursued.settle (depths : Nat) (sound : tick.Sound tokens)
    (built : tick.session.network.Built) (pursued : tick.Pursued) :
    (tick.settle depths).Pursued := by
  have settled : (tick.settle depths).Sound tokens ∧ (tick.settle depths).session.network.Built ∧
      (tick.settle depths).Pursued := by
    refine settle_induction (P := fun t => t.Sound tokens ∧ t.session.network.Built ∧ t.Pursued)
      (fun t done rest waits holds => ?_) depths ⟨sound, built, pursued⟩
    obtain ⟨sound, built, pursued⟩ := holds
    have grounded := sound.pending done (waits ▸ List.mem_cons_self)
    obtain ⟨member, found⟩ := grounded.member
    have popped := sound.pop waits
    refine ⟨sound_complete popped grounded, ?_, ?_⟩
    · rwa [network_of_frame (complete_frame { t with pending := rest } done)]
    · exact Pursued.complete popped built grounded found (pursued.tell member waits)
  exact settled.2.2

end Tick

namespace Session

variable {session : Session} {tokens : List Token}

theorem pursued_tick (token : Token) (sound : session.Sound tokens)
    (now : session.time = tokens.length) (built : session.network.Built)
    (pursued : session.atRest.Pursued) : (session.tick token).Pursued := by
  have opened : session.opened.Pursued := by
    intro id event found fired
    rw [opened_log] at found
    exact (pursued id event found fired).mono (by simp [atRest]) (List.nil_subset _)
      (by simp [atRest])
  have fed := matching_fed token sound now
  have begun := sound_opened token sound now
  have known : session.opened.session.network.Built := by rwa [opened_network]
  rw [tick_eq]
  refine Tick.Pursued.settle _ (Tick.sound_foldl_fire [] _ begun fed) ?_
    (opened.foldl_fire _ fun listener member => begun.goesOn known (fed listener member).1)
  rwa [network_of_frame (Tick.foldl_frame _ _ fun t listener => Tick.fire_frame ..)]

/-- A session that took over all that a settled tick led to. -/
theorem pursued_atRest {tick : Tick} (pursued : tick.Pursued) (settled : tick.pending = [])
    (log : session.log = tick.session.log)
    (arena : tick.session.arena.toList <+: session.arena.toList) : session.atRest.Pursued := by
  intro id event found fired
  change session.log.toList[id]? = some event at found
  rw [log] at found
  exact (pursued id event found fired).mono arena.subset (by simp [settled])
    (by simp [atRest, log])

theorem pursued_start (network : Network) (mode : Mode) (limits : Limits) :
    (start network mode limits).atRest.Pursued := by
  intro id event found
  have none : (start network mode limits).log = #[] := by
    cases mode with
    | unified => rfl
    | isolated => simp only [start, seedAll_eq]; rfl
  change (start network mode limits).log.toList[id]? = some event at found
  simp [none] at found

end Session

namespace Course
open Session

variable {course : Course}

theorem Reached.built (reached : course.Reached Opening sweepUnified) :
    course.session.network.Built := by
  induction reached with
  | start opening =>
    cases opening with
    | isolated compiled ok =>
      obtain ⟨network, built, ok⟩ := bind_success ok
      cases ok
      exact (start_network network _ _).symm ▸ .sideBySide compiled built
    | unified built => exact built
  | @call course _ call compiled ih =>
    cases call with
    | feed token =>
      have same := network_of_basis (feedWith_basis dropping_sweepUnified course.session token)
      exact same ▸ ih
    | register automaton =>
      simp only [Course.call, Session.call]
      split
      · exact ih
      · obtain ⟨network, listeners, attached, rfl⟩ := register_grows ‹_›
        exact ih.attached compiled attached
    | reset => exact (start_network course.session.network _ _).symm ▸ ih

theorem Reached.pursued (reached : course.Reached Opening sweepUnified)
    (going : course.session.aborted = false) : course.session.atRest.Pursued := by
  induction reached with
  | start opening =>
    obtain ⟨network, mode, limits, same, _⟩ := opening.starts
    exact same ▸ pursued_start network mode limits
  | @call course reached call compiled ih =>
    cases call with
    | feed token =>
      obtain ⟨sound, now⟩ := reached.sound (fun _ opening => opening.starts) dropping_sweepUnified
      change (course.session.feedWith sweepUnified token).2.aborted = false at going
      change (course.session.feedWith sweepUnified token).2.atRest.Pursued
      cases before : course.session.aborted with
      | true => simp [feedWith_refused token before, before] at going
      | false =>
        have ticked := pursued_tick token sound now reached.built (ih before)
        cases waits : (course.session.tick token).pending with
        | nil =>
          obtain ⟨kept, aborted, _, fed⟩ := feedWith_ticked dropping_sweepUnified token before
          rw [fed]
          exact pursued_atRest ticked waits rfl (List.prefix_refl _)
        | cons deepest rest =>
          rw [feedWith_deep before waits] at going
          cases going
    | register automaton =>
      simp only [Course.call, Session.call] at going ⊢
      split at going
      · exact ih going
      · obtain ⟨network, listeners, _, rfl⟩ := register_grows ‹_›
        exact pursued_atRest (ih going) rfl rfl (by simp [grow, atRest])
    | reset => exact pursued_start _ _ _

/-- Every element of a compiled pattern leads on to the end of it. In a session, at every point of
every course, every firing of the next tick and every one before it has planted a listener or queued
a completion, and every active listener has a way to complete its pattern. -/
theorem never_stuck :
    (∀ automaton : Automaton, automaton.Compiled →
      automaton.entryClosure.GoesOn ∧ ∀ key, automaton.kindOf key = .element →
        (automaton.closureAfter key).GoesOn ∧ Closure.Finishes automaton.closureAfter key) ∧
    ∀ course : Course, course.Reached Opening sweepUnified →
      (course.session.aborted = false → ∀ token, (course.session.tick token).Pursued) ∧
      ∀ listener ∈ course.session.active,
        Closure.Finishes course.session.network.closureAfter listener.node ∧
        ∀ tick : Tick, tick.session = course.session → tick.Completable listener := by
  refine ⟨fun automaton compiled => ⟨?_, fun key element => ?_⟩, fun course reached => ?_⟩
  · obtain ⟨node, start⟩ := compiled.sound.start
    exact Automaton.entryClosure_goesOn compiled.trim (List.mem_map.mpr ⟨_, start, rfl⟩)
  · have finishes := Automaton.finishes_of_element compiled.trim element
    exact ⟨finishes.goesOn, finishes⟩
  · obtain ⟨sound, now⟩ := reached.sound (fun _ opening => opening.starts) dropping_sweepUnified
    refine ⟨fun going token => pursued_tick token sound now reached.built (reached.pursued going),
      fun listener active => ?_⟩
    obtain ⟨position, found⟩ := List.mem_iff_getElem?.mp (sound.active.subset active)
    obtain ⟨site, here, element, _⟩ := (sound.arena position listener found).grounded.site
      sound.network
    have finishes := reached.built.finishes here element
    refine ⟨finishes, fun tick same => ?_⟩
    exact Tick.completable_of_finishes rfl (same ▸ finishes)

/-- Ten listeners of the sums are active after three numbers, and one more number is to come. -/
theorem never_stuck_sums :
    Closure.Finishes pairsAutomaton.closureAfter "e0" ∧
      (sumsCourse {} numbers).session.active.length = 10 ∧
      (∀ listener ∈ (sumsCourse {} numbers).session.active,
        Closure.Finishes (sumsCourse {} numbers).session.network.closureAfter listener.node ∧
        Tick.Completable (sumsCourse {} numbers).session.atRest listener) ∧
      ((sumsCourse {} numbers).session.tick ⟨"N", "4"⟩).Pursued := by
  obtain ⟨elements, courses⟩ := never_stuck
  obtain ⟨_, leads⟩ := elements pairsAutomaton pairs_compiled
  have opening : Opening (Session.unified sumsNetwork {}) :=
    .unified (.composed (.grammar sums_network))
  obtain ⟨pursued, completable⟩ := courses (sumsCourse {} numbers)
    (sumsCourse_reached {} numbers opening)
  refine ⟨(leads "e0" (by decide +kernel)).2, by decide +kernel, fun listener active => ?_,
    pursued (by decide +kernel) _⟩
  obtain ⟨finishes, all⟩ := completable listener active
  exact ⟨finishes, all _ rfl⟩

end Course

end Constructicon
