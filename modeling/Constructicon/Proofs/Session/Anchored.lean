import Constructicon.Proofs.Automaton.Accepts
import Constructicon.Proofs.Network.Assembly
import Constructicon.Proofs.Session.Share

/-! Isolated sessions accept what their automata accept. A pattern is tried once, on the tokens
after it joined; every token moves its listeners on as it moves the automaton, and a pattern
completes in as many ways as its automaton accepts. Patterns do not disturb one another. -/
namespace Constructicon

/-- Isolated sessions that start once, with the tokens consumed and each automaton with the time at
which it joined. -/
inductive Isolated : Session → List Token → List (Automaton × Nat) → Prop where
  | opened {automata : List Automaton} {limits : Limits} {session : Session}
      (compiled : ∀ automaton ∈ automata, automaton.Compiled)
      (ok : Session.isolated automata limits = .ok session) :
      Isolated session [] (automata.map (·, 0))
  | fed {session : Session} {tokens : List Token} {roster : List (Automaton × Nat)}
      (before : Isolated session tokens roster) (token : Token) :
      Isolated (session.feed token).2 (tokens ++ [token]) roster
  | registered {session after : Session} {tokens : List Token} {roster : List (Automaton × Nat)}
      {automaton : Automaton} (before : Isolated session tokens roster)
      (compiled : automaton.Compiled) (ok : session.register automaton = .ok after) :
      Isolated after tokens (roster ++ [(automaton, session.time)])

def typesSince (tokens : List Token) (since : Nat) : List String :=
  (tokens.drop since).map (·.elementType)

theorem typesSince_concat {tokens : List Token} {since : Nat} (past : since ≤ tokens.length)
    (token : Token) :
    typesSince (tokens ++ [token]) since = typesSince tokens since ++ [token.elementType] := by
  rw [typesSince, List.drop_append_of_le_length past, List.map_append]
  rfl

namespace Automaton

variable {automaton : Automaton}

/-- The elements where listeners wait after some tokens. -/
def waiting (automaton : Automaton) (types : List String) : List String :=
  types.foldl automaton.step automaton.entryClosure.elements

theorem waiting_concat (types : List String) (type : String) :
    automaton.waiting (types ++ [type]) = automaton.step (automaton.waiting types) type :=
  List.foldl_concat ..

theorem mem_keys_of_waiting {types : List String} {key : String}
    (member : key ∈ automaton.waiting types) : key ∈ automaton.nodes.keys := by
  induction types using List.reverseRecOn with
  | nil => exact mem_keys_of_closureFrom member
  | append_singleton types type ih =>
    rw [waiting_concat] at member
    obtain ⟨before, _, after⟩ := List.mem_flatMap.mp member
    exact mem_keys_of_closureFrom after

end Automaton

namespace Session
open Tick

/-- The session holds an automaton, which joined at `since`, at `owner` with its nodes from `base`
on: its listeners wait where the automaton does, and its completions are counted by readings. -/
structure Follows (tokens : List Token) (automaton : Automaton) (since owner base : Nat)
    (session : Session) : Prop where
  carried : session.network.Carries automaton owner base
  past : since ≤ tokens.length
  waiting : (session.listenersOf owner).map (·.node) =
    (automaton.waiting (typesSince tokens since)).map (automaton.spot base)
  anchored : ∀ listener ∈ session.listenersOf owner, listener.anchor = since + 1
  begun : ∀ event ∈ session.completionsOf automaton.name, event.start = since + 1 ∧ since < event.time
  counted : ∀ time, since < time → time ≤ tokens.length →
    ((session.completionsOf automaton.name).filter (·.time = time)).length =
      (automaton.readings automaton.entryClosure
        ((typesSince tokens since).take (time - since))).length

variable {session : Session} {tokens : List Token} {automaton : Automaton} {since owner base : Nat}

theorem Follows.fired (follows : session.Follows tokens automaton since owner base)
    (elementType : String) :
    ((session.listenersOf owner).filter (session.matchTypeOf ·.node = some elementType)).map (·.node) =
      (automaton.matching (automaton.waiting (typesSince tokens since)) elementType).map
        (automaton.spot base) := by
  calc
    _ = ((session.listenersOf owner).map (·.node)).filter
        (session.matchTypeOf · = some elementType) := (List.filter_map ..).symm
    _ = _ := by
      rw [follows.waiting, List.filter_map, Automaton.matching]
      congr 1
      apply List.filter_congr
      intro key member
      have type : session.matchTypeOf (automaton.spot base key) = automaton.matchType key :=
        follows.carried.matchType (Automaton.mem_keys_of_waiting member)
      rw [Function.comp_apply, type]

theorem Follows.after (follows : session.Follows tokens automaton since owner base) {key type : String}
    (member : key ∈ automaton.matching (automaton.waiting (typesSince tokens since)) type) :
    session.network.closureAfter (automaton.spot base key) =
      (automaton.closureAfter key).map (automaton.spot base) :=
  follows.carried.after key
    (Automaton.mem_keys_of_waiting (Automaton.mem_matching.mp member).1)

theorem Follows.moved (follows : session.Follows tokens automaton since owner base) (type : String) :
    (((session.listenersOf owner).filter (session.matchTypeOf ·.node = some type)).flatMap
      fun listener => (session.network.closureAfter listener.node).elements) =
      (automaton.step (automaton.waiting (typesSince tokens since)) type).map (automaton.spot base) := by
  have moved := List.flatMap_map (fun listener : Listener => listener.node)
    (fun node => (session.network.closureAfter node).elements)
    (l := (session.listenersOf owner).filter (session.matchTypeOf ·.node = some type))
  rw [follows.fired, List.flatMap_map] at moved
  rw [← moved, Automaton.step, List.map_flatMap]
  apply List.flatMap_congr
  intro key member
  rw [follows.after member]
  rfl

theorem Follows.ended (follows : session.Follows tokens automaton since owner base) (type : String) :
    (((session.listenersOf owner).filter (session.matchTypeOf ·.node = some type)).countP
      fun listener => (session.network.closureAfter listener.node).reachesEnd) =
      automaton.endings (automaton.waiting (typesSince tokens since)) type := by
  have counted := List.countP_map (p := fun node => (session.network.closureAfter node).reachesEnd)
    (f := fun listener : Listener => listener.node) (l := (session.listenersOf owner).filter (session.matchTypeOf ·.node = some type))
  rw [follows.fired, List.countP_map] at counted
  refine counted.symm.trans (List.countP_congr fun key member => ?_)
  rw [Function.comp_apply, follows.after member]
  rfl

theorem Follows.tick (follows : session.Follows tokens automaton since owner base)
    (sound : session.Sound tokens) (now : session.time = tokens.length)
    (isolated : session.mode = .isolated) (token : Token) :
    (session.tick token).session.Follows (tokens ++ [token]) automaton since owner base := by
  obtain ⟨member, registered, name, _⟩ := follows.carried.member
  have share := sound.tick_share now isolated registered follows.anchored token
  simp only [follows.moved, follows.ended, name] at share
  obtain ⟨new, recorded, size, facts⟩ := share.recorded
  have types := typesSince_concat follows.past token
  have grown : (tokens ++ [token]).length = tokens.length + 1 := by simp
  constructor
  case carried =>
    rw [network_of_frame share.frame]
    exact follows.carried
  case past => exact grown ▸ Nat.le_succ_of_le follows.past
  case waiting => rw [share.waiting, types, Automaton.waiting_concat]
  case anchored => exact share.anchored
  case begun =>
    rw [recorded]
    intro event member
    rcases List.mem_append.mp member with old | last
    · exact follows.begun event old
    · have past := follows.past
      obtain ⟨time, start⟩ := facts event last
      exact ⟨start, by omega⟩
  case counted =>
    intro time later past
    rw [recorded, List.filter_append, List.length_append, types]
    have length : (typesSince tokens since).length = tokens.length - since := by simp [typesSince]
    by_cases last : time = tokens.length + 1
    · have old : (session.completionsOf automaton.name).filter (·.time = time) = [] := by
        rw [List.filter_eq_nil_iff]
        intro event member same
        obtain ⟨position, found⟩ := List.mem_iff_getElem?.mp (List.mem_filter.mp member).1
        have bound := (sound.log position event found).past
        have same := of_decide_eq_true same
        omega
      have all : new.filter (·.time = time) = new := by
        rw [List.filter_eq_self]
        intro event member
        simp [(facts event member).1, now, last]
      rw [old, all, size, List.take_of_length_le (by simp [length]; omega),
        Automaton.length_readings]
      exact Nat.zero_add _
    · have none : new.filter (·.time = time) = [] := by
        rw [List.filter_eq_nil_iff]
        intro event member same
        have time := (facts event member).1
        have same := of_decide_eq_true same
        omega
      rw [none, List.take_append_of_le_length (by omega)]
      exact follows.counted time later (by omega)

/-- What holds of an isolated session at every point. -/
structure Anchored (tokens : List Token) (roster : List (Automaton × Nat)) (session : Session) :
    Prop where
  sound : session.Sound tokens
  now : session.time = tokens.length
  isolated : session.mode = .isolated
  going : session.aborted = false
  follows : ∀ entry ∈ roster, ∃ owner base, session.Follows tokens entry.1 entry.2 owner base

section Calls

variable {roster : List (Automaton × Nat)}

theorem Anchored.feed_eq (anchored : session.Anchored tokens roster) (token : Token) :
    session.feed token = (.ok (session.tick token).report,
      { (session.tick token).session with time := (session.tick token).report.time }) := by
  have mode : (session.tick token).session.mode = .isolated :=
    (mode_of_frame (session.tick_frame token)).trans anchored.isolated
  rw [feed, feedWith_settled anchored.going (tick_settled anchored.isolated token), sweepUnified]
  simp only [mode]

theorem Anchored.feed (anchored : session.Anchored tokens roster) (token : Token) :
    (session.feed token).2.Anchored (tokens ++ [token]) roster := by
  have frame := session.tick_frame token
  have ticked := sound_tick token anchored.sound anchored.now
  rw [anchored.feed_eq token]
  refine ⟨ticked.session.withActive (.refl _) _ _, ticked.time, ?_, ?_, fun entry member => ?_⟩
  · exact (mode_of_frame frame).trans anchored.isolated
  · exact (aborted_of_frame frame).trans anchored.going
  · obtain ⟨owner, base, follows⟩ := anchored.follows entry member
    obtain ⟨carried, past, waiting, anchored', begun, counted⟩ :=
      follows.tick anchored.sound anchored.now anchored.isolated token
    exact ⟨owner, base, carried, past, waiting, anchored', begun, counted⟩

/-- An isolated session with one more pattern, which is tried from the next token on. -/
def enrol (session : Session) (automaton : Automaton) : Session :=
  seed { session with network := session.network.join none automaton } (session.time + 1)
    session.network.members.length

theorem register_isolated (isolated : session.mode = .isolated) {after : Session} :
    session.register automaton = .ok after ↔
      session.network.has automaton.name = false ∧ after = session.enrol automaton := by
  obtain ⟨member, members, _⟩ := Network.join_members session.network none automaton
  have last : (session.network.join none automaton).members.length - 1 =
      session.network.members.length := by simp [members]
  unfold register Network.attach
  rw [isolated]
  cases known : session.network.has automaton.name with
  | true => simp [bind, Except.bind]
  | false =>
    simp only [Bool.false_eq_true, if_false, reduceCtorEq, decide_false, true_and]
    change Except.ok _ = _ ↔ _
    rw [Except.ok.injEq, last, eq_comm, enrol, isolated]

theorem listenersOf_enrol (owner : Nat) : (session.enrol automaton).listenersOf owner =
    session.listenersOf owner ++ if session.network.members.length = owner then
      listenersAt session.arena.size (session.time + 1) none none
        (openings (session.network.join none automaton) owner) else [] := by
  rw [enrol, listenersOf_seed]
  split <;> simp [*] <;> rfl

theorem enrol_eq : session.enrol automaton =
    grow { session with network := session.network.join none automaton }
      (listenersAt session.arena.size (session.time + 1) none none
        (openings (session.network.join none automaton) session.network.members.length)) :=
  seed_eq ..

theorem Follows.enrol {other : Automaton}
    (follows : session.Follows tokens automaton since owner base)
    (sound : session.network.Sound) :
    (session.enrol other).Follows tokens automaton since owner base := by
  have bound : session.network.members.length ≠ owner := by
    obtain ⟨member, registered, _⟩ := follows.carried.member
    have bound := (List.getElem?_eq_some_iff.mp registered).1
    omega
  have listeners : (session.enrol other).listenersOf owner = session.listenersOf owner := by
    rw [listenersOf_enrol, if_neg bound, List.append_nil]
  have completions : (session.enrol other).completionsOf = session.completionsOf := by
    rw [enrol_eq]
    rfl
  obtain ⟨carried, past, waiting, anchored, begun, counted⟩ := follows
  refine ⟨?_, past, listeners ▸ waiting, listeners ▸ anchored, completions ▸ begun,
    completions ▸ counted⟩
  rw [enrol_eq]
  exact carried.grow sound Network.grows_join

theorem completionsOf_fresh (sound : session.Sound tokens) {name : String}
    (fresh : session.network.has name = false) : session.completionsOf name = [] := by
  rw [completionsOf, List.filter_eq_nil_iff]
  intro event member same
  obtain ⟨position, found⟩ := List.mem_iff_getElem?.mp member
  obtain ⟨node, place⟩ := (sound.log position event found).place
  obtain ⟨owner, _, index, _⟩ := sound.network.find?_eq_some.mp place
  obtain ⟨other, registered, named⟩ := Network.Sound.member_of_memberIndex? index
  have same : event.pattern = name := (of_decide_eq_true same).2
  have known : name ∈ session.network.members.map (·.name) :=
    List.mem_map.mpr ⟨other, List.mem_of_getElem? registered, named.trans same⟩
  rw [Network.has_iff.mpr known] at fresh
  cases fresh

theorem Anchored.joins (anchored : session.Anchored tokens roster) (compiled : automaton.Compiled)
    (fresh : session.network.has automaton.name = false) :
    (session.enrol automaton).Follows tokens automaton session.time session.network.members.length
      session.network.sites.length := by
  have carries : (session.network.join none automaton).Carries automaton _ _ :=
    Network.carries_join anchored.sound.network compiled.sound
  obtain ⟨member, registered, _, _, entryNodes⟩ := carries.member
  have idle : session.listenersOf session.network.members.length = [] := by
    rw [listenersOf, List.filter_eq_nil_iff]
    intro listener member same
    obtain ⟨position, found⟩ :=
      List.mem_iff_getElem?.mp (anchored.sound.active.subset member)
    have bound := (anchored.sound.arena position listener found).grounded.pattern_lt
    have same := of_decide_eq_true same
    omega
  have listeners : (session.enrol automaton).listenersOf session.network.members.length = _ :=
    listenersOf_enrol _
  rw [idle, List.nil_append, if_pos rfl] at listeners
  have completions : (session.enrol automaton).completionsOf automaton.name = [] := by
    rw [enrol_eq]
    exact completionsOf_fresh anchored.sound fresh
  constructor
  case carried =>
    rw [enrol_eq]
    exact carries
  case past => exact Nat.le_of_eq anchored.now
  case waiting =>
    rw [listeners, nodes_listenersAt, openings, registered, anchored.now]
    simp [entryNodes, typesSince, Automaton.waiting]
  case anchored =>
    rw [listeners]
    intro listener planted
    obtain ⟨_, _, ready, start, _⟩ := mem_listenersAt planted
    rw [Listener.anchor, start, ready]
    rfl
  case begun =>
    rw [completions]
    intro event member
    cases member
  case counted =>
    intro time later past
    have now := anchored.now
    omega

theorem Anchored.register {after : Session} (anchored : session.Anchored tokens roster)
    (compiled : automaton.Compiled) (ok : session.register automaton = .ok after) :
    after.Anchored tokens (roster ++ [(automaton, session.time)]) := by
  obtain ⟨sound, now⟩ := sound_register compiled ok anchored.sound anchored.now
  obtain ⟨fresh, rfl⟩ := (register_isolated anchored.isolated).mp ok
  refine ⟨sound, now, ?_, ?_, fun entry member => ?_⟩
  · rw [enrol_eq]
    exact anchored.isolated
  · rw [enrol_eq]
    exact anchored.going
  · rcases List.mem_append.mp member with old | new
    · obtain ⟨owner, base, follows⟩ := anchored.follows entry old
      exact ⟨owner, base, follows.enrol anchored.sound.network⟩
    · cases List.mem_singleton.mp new
      exact ⟨_, _, anchored.joins compiled fresh⟩

end Calls

/-- To open a session with one more automaton is to enrol it at once. -/
theorem start_join (network : Network) (limits : Limits) (automaton : Automaton) :
    start (network.join none automaton) .isolated limits =
      (start network .isolated limits).enrol automaton := by
  obtain ⟨member, members, _⟩ := Network.join_members network none automaton
  have before : (List.range network.members.length).flatMap
      (openings (network.join none automaton)) = allOpenings network := by
    apply List.flatMap_congr
    intro pattern bound
    rw [openings, openings, members, List.getElem?_append_left (List.mem_range.mp bound)]
  have spots : allOpenings (network.join none automaton) = allOpenings network ++
      openings (network.join none automaton) network.members.length := by
    rw [allOpenings, members, List.length_append, List.length_singleton, List.range_succ,
      List.flatMap_append, List.flatMap_singleton, before]
  rw [enrol_eq]
  simp only [start, seedAll_eq, spots, listenersAt_append]
  simp [grow, length_listenersAt]

theorem anchored_start {automata : List Automaton} (limits : Limits)
    (compiled : ∀ automaton ∈ automata, automaton.Compiled)
    (distinct : (automata.map (·.name)).Nodup) :
    (start (Network.joinAll {} none automata) .isolated limits).Anchored [] (automata.map (·, 0)) := by
  induction automata using List.reverseRecOn with
  | nil => exact ⟨sound_start Network.sound_empty _ _, rfl, rfl, rfl, by simp⟩
  | append_singleton automata automaton ih =>
    have before := ih (fun other member => compiled other (List.mem_append_left _ member))
      (distinct.sublist ((List.sublist_append_left _ _).map _))
    have compiled := compiled automaton (List.mem_append_right _ (List.mem_singleton_self _))
    obtain ⟨time, network⟩ := start_time (Network.joinAll {} none automata) .isolated limits
    have names : (Network.joinAll {} none automata).members.map (·.name) = automata.map (·.name) :=
      Network.names_joinAll automata
    rw [List.map_append, ← names] at distinct
    have fresh := Network.fresh_of_nodup distinct
    have next := before.register compiled
      ((register_isolated before.isolated).mpr ⟨network.symm ▸ fresh, rfl⟩)
    rw [time, ← start_join] at next
    rw [Network.joinAll, List.foldl_append, List.map_append]
    exact next

end Session

/-- Isolated recognition is anchored acceptance: no token is refused, every pattern begins at the
token after it joined, and at each token it completes once for every way in which its automaton
accepts the tokens since then. No other pattern has a part in it. -/
theorem Isolated.accepts {session : Session} {tokens : List Token} {roster : List (Automaton × Nat)}
    (isolated : Isolated session tokens roster) :
    session.time = tokens.length ∧ (∀ token, ∃ report, (session.feed token).1 = .ok report) ∧
      ∀ (automaton : Automaton) (since : Nat), (automaton, since) ∈ roster →
        (∀ event ∈ session.completionsOf automaton.name,
          event.start = since + 1 ∧ since < event.time ∧ event.time ≤ session.time) ∧
        ∀ time, since < time → time ≤ session.time →
          ((session.completionsOf automaton.name).filter (·.time = time)).length =
            {keys | automaton.Accepts automaton.entryClosure
              ((typesSince tokens since).take (time - since)) keys}.encard := by
  have anchored : session.Anchored tokens roster := by
    induction isolated with
    | opened compiled ok =>
      obtain ⟨network, built, ok⟩ := bind_success ok
      cases ok
      obtain ⟨distinct, rfl⟩ := Network.isolated_eq_ok.mp built
      exact Session.anchored_start _ compiled distinct
    | fed _ token ih => exact ih.feed token
    | registered _ compiled ok ih => exact ih.register compiled ok
  refine ⟨anchored.now, fun token => ⟨_, by rw [anchored.feed_eq token]⟩, ?_⟩
  intro automaton since member
  obtain ⟨owner, base, follows⟩ := anchored.follows _ member
  constructor
  · intro event member
    obtain ⟨start, later⟩ := follows.begun event member
    obtain ⟨position, found⟩ := List.mem_iff_getElem?.mp (List.mem_filter.mp member).1
    exact ⟨start, later, anchored.now ▸ (anchored.sound.log position event found).past⟩
  · intro time later past
    have counted := follows.counted time later (anchored.now ▸ past)
    rw [counted, Automaton.encard_accepts]
    exact nodup_closure_elements _ _ _

/-- Pairs join after a number; two tokens that bear the name of a sum are then a pair in one way. -/
theorem Isolated.accepts_pairs :
    let before := ((Session.start (Network.joinAll {} none sumsAutomata) .isolated {}).feed
      ⟨"N", "1"⟩).2
    let session := (((before.enrol pairsAutomaton).feed ⟨"sum", "a"⟩).2.feed ⟨"sum", "b"⟩).2
    (∀ event ∈ session.completionsOf "pair", event.start = 2 ∧ 1 < event.time ∧ event.time ≤ 3) ∧
      ((session.completionsOf "pair").filter (·.time = 3)).length = 1 ∧
      {keys | pairsAutomaton.Accepts pairsAutomaton.entryClosure ["sum", "sum"] keys}.encard = 1 := by
  intro before session
  have opened : Session.isolated sumsAutomata {} =
      .ok (Session.start (Network.joinAll {} none sumsAutomata) .isolated {}) := by
    have built := Network.isolated_eq_ok.mpr
      ⟨by decide +kernel, (rfl : Network.joinAll {} none sumsAutomata = _)⟩
    rw [Session.isolated, built]
    rfl
  have joined : before.register pairsAutomaton = .ok (before.enrol pairsAutomaton) :=
    (Session.register_isolated (by decide +kernel)).mpr ⟨by decide +kernel, rfl⟩
  have isolated : Isolated session _ _ :=
    .fed (.fed (.registered (.fed (.opened (Grammar.compile_compiled sums_compile) opened) ⟨"N", "1"⟩)
      pairs_compiled joined) ⟨"sum", "a"⟩) ⟨"sum", "b"⟩
  obtain ⟨now, _, recognised⟩ := isolated.accepts
  have time : before.time = 1 := by decide +kernel
  obtain ⟨begun, counted⟩ := recognised pairsAutomaton before.time
    (List.mem_append_right _ (List.mem_singleton_self _))
  have once : ((session.completionsOf "pair").filter (·.time = 3)).length = 1 := by decide +kernel
  rw [time] at begun counted
  rw [now] at begun counted
  refine ⟨begun, once, ?_⟩
  have ways := counted 3 (by decide) (by simp)
  exact ways.symm.trans (congrArg Nat.cast once)

end Constructicon
