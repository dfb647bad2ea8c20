import Constructicon.Proofs.Session.History

/-! One pattern in a tick of an isolated session. The token fires the listeners of every pattern,
but a pattern's own firings alone decide where its listeners wait next and how often it completes:
each firing moves its share on, and settling only turns what is pending into completions. -/
namespace Constructicon

namespace Session

/-- The recorded completions of the patterns called `name`. -/
def completionsOf (session : Session) (name : String) : List Event :=
  session.events.filter fun event => event.kind = .complete ∧ event.pattern = name

def listenersOf (session : Session) (owner : Nat) : List Listener :=
  session.active.filter (·.pattern = owner)

/-- Sorted by pattern, the listeners of each pattern are still all there and in order. -/
theorem filter_byPattern (listeners : List Listener) (owner bound : Nat) :
    ((List.range bound).flatMap fun pattern => listeners.filter (·.pattern = pattern)).filter
      (·.pattern = owner) = if owner < bound then listeners.filter (·.pattern = owner) else [] := by
  induction bound with
  | zero => rfl
  | succ bound ih =>
    rw [List.range_succ, List.flatMap_append, List.filter_append, ih, List.flatMap_singleton,
      List.filter_filter]
    by_cases last : owner = bound
    · subst last
      simp
    · have none : listeners.filter (fun listener =>
          decide (listener.pattern = owner) && decide (listener.pattern = bound)) = [] := by
        rw [List.filter_eq_nil_iff]
        intro listener _
        simp only [Bool.and_eq_true, decide_eq_true_eq]
        omega
      rw [none, List.append_nil]
      simp only [Nat.lt_succ_iff_lt_or_eq, last, or_false]

theorem nodes_listenersAt (first readyAt : Nat) (start origin : Option Nat)
    (spots : List (Nat × Nat)) :
    (listenersAt first readyAt start origin spots).map (·.node) = spots.map (·.2) := by
  induction spots generalizing first with
  | nil => rfl
  | cons spot rest ih => rw [listenersAt_cons, List.map_cons, List.map_cons, ih]

theorem filter_listenersAt {first readyAt pattern owner : Nat} {start origin : Option Nat}
    {nodes : List Nat} :
    (listenersAt first readyAt start origin (nodes.map (pattern, ·))).filter (·.pattern = owner) =
      if pattern = owner then listenersAt first readyAt start origin (nodes.map (pattern, ·))
      else [] := by
  have owned : ∀ listener ∈ listenersAt first readyAt start origin (nodes.map (pattern, ·)),
      listener.pattern = pattern := by
    intro listener member
    obtain ⟨node, _, same⟩ := List.mem_map.mp (mem_listenersAt member).1
    exact (Prod.mk.inj same).1.symm
  split
  · rename_i own
    exact List.filter_eq_self.mpr fun listener member => by simp [owned listener member, own]
  · rename_i other
    exact List.filter_eq_nil_iff.mpr fun listener member => by simp [owned listener member, other]

theorem listenersOf_seed (session : Session) (readyAt pattern owner : Nat) :
    (session.seed readyAt pattern).listenersOf owner = session.listenersOf owner ++
      if pattern = owner then
        listenersAt session.arena.size readyAt none none (openings session.network pattern)
      else [] := by
  rw [seed_eq, listenersOf, grow, List.filter_append, openings, filter_listenersAt]
  rfl

end Session

namespace Tick
open Session

/-- A tick as far as the pattern `name` at `owner` goes, whose instances begin at `begins`: where
its listeners wait, how many completions are still to be settled and how many were recorded. -/
structure Share (session : Session) (name : String) (owner begins : Nat) (nodes : List Nat)
    (ended told : Nat) (tick : Tick) : Prop where
  frame : tick.session.frame = session.frame
  time : tick.report.time = session.time + 1
  waiting : (tick.session.listenersOf owner).map (·.node) = nodes
  anchored : ∀ listener ∈ tick.session.listenersOf owner, listener.anchor = begins
  ended : (tick.pending.filter (·.pattern = owner)).length = ended
  begun : ∀ done ∈ tick.pending.filter (·.pattern = owner), done.start = begins
  recorded : ∃ new, tick.session.completionsOf name = session.completionsOf name ++ new ∧
    new.length = told ∧ ∀ event ∈ new, event.time = session.time + 1 ∧ event.start = begins

section Fire

variable (tick : Tick) (listener : Listener) (position : Nat) (elementType value : String)
  (subEvent : Option Nat) (path : List String)

theorem fire_listenersOf (owner : Nat) :
    (tick.fire listener position elementType value subEvent path).session.listenersOf owner =
      tick.session.listenersOf owner ++
        if listener.pattern = owner then tick.followers listener position else [] := by
  rw [listenersOf, fire_active, List.filter_append, followers, filter_listenersAt]
  rfl

theorem nodes_followers : (tick.followers listener position).map (·.node) =
    (tick.session.network.closureAfter listener.node).elements := by
  rw [followers, nodes_listenersAt, List.map_map]
  exact List.map_id _

theorem fire_completionsOf (name : String) :
    (tick.fire listener position elementType value subEvent path).session.completionsOf name =
      tick.session.completionsOf name := by
  simp [completionsOf, events, firing]

theorem fire_pendingOf (owner : Nat) :
    (tick.fire listener position elementType value subEvent path).pending.filter (·.pattern = owner) =
      tick.pending.filter (·.pattern = owner) ++
        if listener.pattern = owner then tick.reached listener position path else [] := by
  rw [fire_pending, List.filter_append, reached]
  split <;> split <;> simp [*]

end Fire

theorem tell_completionsOf {tick : Tick} {member : Member} {done : Completion}
    (sound : tick.session.network.Sound)
    (found : tick.session.network.members[done.pattern]? = some member) (name : String) :
    (tick.tell member done).session.completionsOf name = tick.session.completionsOf name ++
      if member.name = name then [tick.completing member done] else [] := by
  rw [completionsOf, events, tell_log, List.filter_append, List.filter_cons,
    completing_pattern sound found]
  split <;> split <;> simp_all [completing, completionsOf, events]

theorem pending_settle {tick : Tick} (isolated : tick.session.mode = .isolated) (depths : Nat) :
    (tick.settle (depths + 1)).pending = [] := by
  refine (settle_once (fun t done same => ?_) depths).2
  cases found : t.session.network.members[done.pattern]? with
  | none => rw [complete_none found]
  | some member =>
    rw [complete_isolated found ((mode_of_frame same).trans isolated)]
    rfl

namespace Share

variable {session : Session} {name : String} {owner begins ended told position : Nat}
  {nodes : List Nat} {tick : Tick} {listener : Listener} (elementType value : String)
  (subEvent : Option Nat) (path : List String)

theorem fire_other (share : tick.Share session name owner begins nodes ended told)
    (other : listener.pattern ≠ owner) :
    (tick.fire listener position elementType value subEvent path).Share session name owner begins
      nodes ended told := by
  constructor
  case frame => exact (fire_frame ..).trans share.frame
  case time => rw [fire_time, share.time]
  case waiting => rw [fire_listenersOf, if_neg other, List.append_nil, share.waiting]
  case anchored => rw [fire_listenersOf, if_neg other, List.append_nil]; exact share.anchored
  case ended => rw [fire_pendingOf, if_neg other, List.append_nil, share.ended]
  case begun => rw [fire_pendingOf, if_neg other, List.append_nil]; exact share.begun
  case recorded => rw [fire_completionsOf]; exact share.recorded

theorem fire_own (share : tick.Share session name owner begins nodes ended told)
    (own : listener.pattern = owner) (starts : listener.start.getD position = begins) :
    let after := session.network.closureAfter listener.node
    (tick.fire listener position elementType value subEvent path).Share session name owner begins
      (nodes ++ after.elements) (ended + if after.reachesEnd then 1 else 0) told := by
  intro after
  have closure : tick.session.network.closureAfter listener.node = after :=
    congrFun (congrArg Network.closureAfter (network_of_frame share.frame)) _
  constructor
  case frame => exact (fire_frame ..).trans share.frame
  case time => rw [fire_time, share.time]
  case waiting =>
    rw [fire_listenersOf, if_pos own, List.map_append, share.waiting, nodes_followers, closure]
  case anchored =>
    rw [fire_listenersOf, if_pos own]
    intro next member
    rcases List.mem_append.mp member with old | new
    · exact share.anchored next old
    · rw [Listener.anchor, (mem_listenersAt new).2.2.2.1]
      exact starts
  case ended =>
    rw [fire_pendingOf, if_pos own, List.length_append, share.ended, reached, closure]
    split <;> rfl
  case begun =>
    rw [fire_pendingOf, if_pos own]
    intro done member
    rcases List.mem_append.mp member with old | new
    · exact share.begun done old
    · rw [(mem_reached.mp new).2]
      exact starts
  case recorded => rw [fire_completionsOf]; exact share.recorded

theorem foldl_fire (listeners : List Listener)
    (share : tick.Share session name owner begins nodes ended told)
    (starts : ∀ listener ∈ listeners, listener.pattern = owner →
      listener.start.getD position = begins) :
    (listeners.foldl (fun t listener => t.fire listener position elementType value subEvent path)
      tick).Share session name owner begins
        (nodes ++ (listeners.filter (·.pattern = owner)).flatMap fun listener =>
          (session.network.closureAfter listener.node).elements)
        (ended + (listeners.filter (·.pattern = owner)).countP fun listener =>
          (session.network.closureAfter listener.node).reachesEnd) told := by
  induction listeners generalizing tick nodes ended with
  | nil => simpa using share
  | cons first rest ih =>
    have later := fun listener member => starts listener (List.mem_cons_of_mem first member)
    rw [List.foldl_cons, List.filter_cons]
    split
    · rename_i own
      have own := of_decide_eq_true own
      rw [List.flatMap_cons, List.countP_cons, Nat.add_comm (List.countP _ _), ← Nat.add_assoc,
        ← List.append_assoc]
      exact ih (share.fire_own elementType value subEvent path own
        (starts first List.mem_cons_self own)) later
    · rename_i other
      exact ih (share.fire_other elementType value subEvent path (by simpa using other)) later

section Settle

variable {member : Member} {done : Completion} {rest : List Completion}

theorem pop_other (share : tick.Share session name owner begins nodes ended told)
    (waits : tick.pending = done :: rest) (other : done.pattern ≠ owner) :
    Share session name owner begins nodes ended told { tick with pending := rest } := by
  obtain ⟨frame, time, waiting, anchored, ended, begun, recorded⟩ := share
  rw [waits, List.filter_cons_of_neg (by simpa using other)] at ended begun
  exact ⟨frame, time, waiting, anchored, ended, begun, recorded⟩

theorem pop_own (share : tick.Share session name owner begins nodes ended told)
    (waits : tick.pending = done :: rest) (own : done.pattern = owner) : done.start = begins ∧
      ∃ fewer, fewer + 1 = ended ∧
        Share session name owner begins nodes fewer told { tick with pending := rest } := by
  obtain ⟨frame, time, waiting, anchored, ended, begun, recorded⟩ := share
  rw [waits, List.filter_cons_of_pos (by simpa using own)] at ended begun
  exact ⟨begun done List.mem_cons_self, _, ended, frame, time, waiting, anchored, rfl,
    fun done member => begun done (List.mem_cons_of_mem _ member), recorded⟩

variable (share : tick.Share session name owner begins nodes ended told)
  (sound : session.network.Sound) (isolated : session.mode = .isolated)
  (registered : session.network.members[owner]? = some member) (named : member.name = name)
include share sound isolated registered named

theorem complete_other (other : done.pattern ≠ owner) :
    (tick.complete done).Share session name owner begins nodes ended told := by
  have network : tick.session.network = session.network := network_of_frame share.frame
  have frame := (complete_frame tick done).trans share.frame
  cases found : tick.session.network.members[done.pattern]? with
  | none => rwa [complete_none found]
  | some completed =>
    rw [complete_isolated found ((mode_of_frame share.frame).trans isolated)] at frame ⊢
    have differ : completed.name ≠ name := by
      intro same
      have index := sound.memberIndex?_eq (network ▸ found)
      rw [same, ← named, sound.memberIndex?_eq registered] at index
      exact other (Option.some.inj index).symm
    refine ⟨frame, share.time, share.waiting, share.anchored, share.ended, share.begun, ?_⟩
    rw [tell_completionsOf (network ▸ sound) found, if_neg differ, List.append_nil]
    exact share.recorded

theorem complete_own (own : done.pattern = owner) (starts : done.start = begins) :
    (tick.complete done).Share session name owner begins nodes ended (told + 1) := by
  have network : tick.session.network = session.network := network_of_frame share.frame
  have frame := (complete_frame tick done).trans share.frame
  have found : tick.session.network.members[done.pattern]? = some member := by
    rw [network, own, registered]
  obtain ⟨new, recorded, size, facts⟩ := share.recorded
  rw [complete_isolated found ((mode_of_frame share.frame).trans isolated)] at frame ⊢
  refine ⟨frame, share.time, share.waiting, share.anchored, share.ended, share.begun,
    new ++ [tick.completing member done], ?_, ?_, ?_⟩
  · rw [tell_completionsOf (network ▸ sound) found, if_pos named, recorded, List.append_assoc]
  · rw [List.length_append, size, List.length_singleton]
  · intro event member
    rcases List.mem_append.mp member with old | last
    · exact facts event old
    · rw [List.mem_singleton.mp last]
      exact ⟨share.time, starts⟩

theorem settle (depths : Nat) :
    (tick.settle (depths + 1)).Share session name owner begins nodes 0 (ended + told) := by
  obtain ⟨fewer, more, total, after⟩ := settle_induction
    (P := fun t => ∃ fewer more, fewer + more = ended + told ∧
      t.Share session name owner begins nodes fewer more)
    (fun t done rest waits before => by
      obtain ⟨fewer, more, total, before⟩ := before
      by_cases own : done.pattern = owner
      · obtain ⟨starts, fewer', same, popped⟩ := before.pop_own waits own
        exact ⟨fewer', more + 1, by omega,
          popped.complete_own sound isolated registered named own starts⟩
      · exact ⟨fewer, more, total,
          (before.pop_other waits own).complete_other sound isolated registered named own⟩)
    (depths + 1) ⟨ended, told, rfl, share⟩
  have none : fewer = 0 := by
    rw [← after.ended, pending_settle ((mode_of_frame share.frame).trans isolated)]
    rfl
  rw [none, Nat.zero_add] at total
  rwa [none, total] at after

end Settle

end Share

end Tick

namespace Session
open Tick

variable {tokens : List Token} {session : Session}

/-- Every listener of an isolated session consumes the next token or is superseded. -/
theorem Sound.isDue (sound : session.Sound tokens) (now : session.time = tokens.length)
    (isolated : session.mode = .isolated) {listener : Listener} (member : listener ∈ session.active) :
    listener.readyAt = session.time + 1 ∧ session.isDue (session.time + 1) listener = true := by
  obtain ⟨position, found⟩ := List.mem_iff_getElem?.mp (sound.active.subset member)
  obtain ⟨site, here, role, _⟩ := (sound.arena position listener found).grounded.site sound.network
  have consumes := (consumesTokens_iff here).mpr ⟨role, .inr isolated⟩
  have ready : listener.readyAt = session.time + 1 := by
    rw [now]
    exact (sound.ready listener member).2 consumes
  exact ⟨ready, by simp [Session.isDue, consumes, ready]⟩

theorem Sound.opened_isolated (sound : session.Sound tokens) (now : session.time = tokens.length)
    (isolated : session.mode = .isolated) : session.opened.session.active = [] := by
  have unseeded : session.seeds = [] := by
    unfold seeds
    rw [isolated]
  rw [opened_active, unseeded, List.append_nil, List.filter_eq_nil_iff]
  intro listener member
  simp [(sound.isDue now isolated member).2]

theorem Sound.matching_isolated (sound : session.Sound tokens) (now : session.time = tokens.length)
    (isolated : session.mode = .isolated) {owner : Nat}
    (registered : owner < session.network.members.length) (elementType : String) :
    (session.seeded.matching (session.time + 1) elementType).filter (·.pattern = owner) =
      (session.listenersOf owner).filter (session.matchTypeOf ·.node = some elementType) := by
  have unseeded : session.seeds = [] := by
    unfold seeds
    rw [isolated]
  rw [seeded_matching, filter_byPattern, if_pos registered, unseeded, List.append_nil, listenersOf,
    List.filter_filter, List.filter_filter]
  apply List.filter_congr
  intro listener member
  simp [(sound.isDue now isolated member).2, Bool.and_comm]

theorem tick_settled (isolated : session.mode = .isolated) (token : Token) :
    (session.tick token).pending = [] := by
  rw [tick_eq]
  refine pending_settle ?_ _
  rw [mode_of_frame (foldl_frame _ _ fun t listener => fire_frame ..), opened_mode, isolated]

/-- What the next token does to one pattern. -/
theorem Sound.tick_share (sound : session.Sound tokens) (now : session.time = tokens.length)
    (isolated : session.mode = .isolated) {owner begins : Nat} {member : Member}
    (registered : session.network.members[owner]? = some member)
    (anchored : ∀ listener ∈ session.listenersOf owner, listener.anchor = begins) (token : Token) :
    let fired := (session.listenersOf owner).filter
      (session.matchTypeOf ·.node = some token.elementType)
    (session.tick token).Share session member.name owner begins
      (fired.flatMap fun listener => (session.network.closureAfter listener.node).elements) 0
      (fired.countP fun listener => (session.network.closureAfter listener.node).reachesEnd) := by
  intro fired
  have matched : (session.seeded.matching (session.time + 1) token.elementType).filter
      (·.pattern = owner) = fired :=
    sound.matching_isolated now isolated (List.getElem?_eq_some_iff.mp registered).1 _
  have starts : ∀ listener ∈ session.seeded.matching (session.time + 1) token.elementType,
      listener.pattern = owner → listener.start.getD (session.time + 1) = begins := by
    intro listener member own
    have found : listener ∈ fired := matched ▸ List.mem_filter.mpr ⟨member, by simpa using own⟩
    have listening := (List.mem_filter.mp found).1
    rw [← anchored listener listening, Listener.anchor,
      (sound.isDue now isolated (List.mem_filter.mp listening).1).1]
  have idle := sound.opened_isolated now isolated
  have opened : session.opened.Share session member.name owner begins [] 0 0 := by
    refine ⟨?_, rfl, ?_, ?_, rfl, by simp [Session.opened], [], ?_, rfl, by simp⟩
    · rw [opened_eq]
      rfl
    · simp [listenersOf, idle]
    · simp [listenersOf, idle]
    · rw [completionsOf, events, opened_log, List.append_nil]
      rfl
  have fires := opened.foldl_fire token.elementType token.value none [] _ starts
  rw [matched, List.nil_append, Nat.zero_add] at fires
  have settled := fires.settle sound.network isolated registered rfl session.limits.maxCascadeDepth
  rwa [← tick_eq, Nat.add_zero] at settled

end Session

end Constructicon
