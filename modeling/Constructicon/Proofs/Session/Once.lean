import Constructicon.Proofs.Session.Soundness

/-! Everything happens once, and nothing is left out. No listener is planted twice, none fires
twice for the same token or completion, and no firing completes its pattern twice; a firing leaves
a listener wherever the instance may go on, and a completion if it may end. Each firing and each
record of a completion preserves both, provided that the firing is new. -/
namespace Constructicon

theorem eq_of_key {arena : List Listener} (distinct : (arena.map Listener.key).Nodup)
    {a b : Listener} (first : a ∈ arena) (second : b ∈ arena) (same : a.key = b.key) : a = b := by
  induction arena with
  | nil => cases first
  | cons listener rest ih =>
    rw [List.map_cons, List.nodup_cons] at distinct
    rcases List.mem_cons.mp first with rfl | later
    · rcases List.mem_cons.mp second with rfl | later
      · rfl
      · exact absurd (List.mem_map.mpr ⟨b, later, same.symm⟩) distinct.1
    · rcases List.mem_cons.mp second with rfl | later'
      · exact absurd (List.mem_map.mpr ⟨a, later, same⟩) distinct.1
      · exact ih distinct.2 later later'

/-- A listener fired at `time`, for a token or for the completion `sub`. -/
structure FiredAs (network : Network) (listener : Listener) (time : Nat) (sub : Option Nat)
    (event : Event) : Prop where
  kind : event.kind = .fire
  cause : event.cause = listener.origin
  place : network.find? event.pattern event.node = some listener.node
  pattern : network.memberIndex? event.pattern = some listener.pattern
  consumed : event.subEvent = sub
  start : event.start = listener.anchor
  time : event.time = time

def Fired (network : Network) (log : List Event) (listener : Listener) (time : Nat)
    (sub : Option Nat) : Prop :=
  ∃ (id : Nat) (event : Event), log[id]? = some event ∧ FiredAs network listener time sub event

structure Tick.Once (tick : Tick) : Prop where
  listeners : (tick.session.arena.toList.map Listener.key).Nodup
  fires : ∀ (a b : Nat) (e f : Event), tick.session.log.toList[a]? = some e →
    tick.session.log.toList[b]? = some f → e.kind = .fire → f.kind = .fire →
    e.pattern = f.pattern → e.node = f.node → e.cause = f.cause → e.subEvent = f.subEvent →
    e.time = f.time → a = b
  completes : ∀ (a b : Nat) (e f : Event), tick.session.log.toList[a]? = some e →
    tick.session.log.toList[b]? = some f → e.kind = .complete → f.kind = .complete →
    e.cause = f.cause → a = b
  pending : (tick.pending.map (·.cause)).Nodup
  unsettled : ∀ done ∈ tick.pending, ∀ (id : Nat) (event : Event),
    tick.session.log.toList[id]? = some event → event.kind = .complete →
    event.cause ≠ some done.cause

structure Tick.Thorough (joined : List Nat) (tick : Tick) : Prop where
  active : ∀ listener ∈ tick.session.arena.toList, listener ∈ tick.session.active ∨
    tick.session.consumesTokens listener.node = true ∧ listener.readyAt ≤ tick.report.time
  follows : ∀ (id : Nat) (event : Event) (node : Nat),
    tick.session.log.toList[id]? = some event → event.kind = .fire →
    tick.session.network.find? event.pattern event.node = some node →
    ∀ next ∈ (tick.session.network.closureAfter node).elements,
      ∃ listener ∈ tick.session.arena.toList, listener.origin = some id ∧ listener.node = next ∧
        listener.readyAt = event.time + 1 ∧ listener.start = some event.start
  ends : ∀ (id : Nat) (event : Event) (node : Nat),
    tick.session.log.toList[id]? = some event → event.kind = .fire →
    tick.session.network.find? event.pattern event.node = some node →
    (tick.session.network.closureAfter node).reachesEnd = true →
    (∃ (other : Nat) (completion : Event), tick.session.log.toList[other]? = some completion ∧
      completion.kind = .complete ∧ completion.cause = some id) ∨
    ∃ done ∈ tick.pending, done.cause = id
  begun : ∀ listener ∈ tick.session.arena.toList, listener.origin = none →
    listener.readyAt ≤ tick.report.time ∧
      ∃ since, joined[listener.pattern]? = some since ∧ since < listener.readyAt
  began : ∀ (id : Nat) (event : Event), tick.session.log.toList[id]? = some event →
    event.kind = .fire → event.cause = none → ∃ pattern since,
      tick.session.network.memberIndex? event.pattern = some pattern ∧
        joined[pattern]? = some since ∧ since < event.start

namespace Tick
open Session

variable {tokens : List Token} {joined : List Nat} {tick : Tick}

/-- A listener that has not fired yet, for this token or this completion. -/
def Fresh (tick : Tick) (listener : Listener) (sub : Option Nat) : Prop :=
  ∀ (id : Nat) (event : Event), tick.session.log.toList[id]? = some event → event.kind = .fire →
    event.cause = listener.origin →
    tick.session.network.find? event.pattern event.node = some listener.node →
    event.subEvent = sub → event.time ≠ tick.report.time

theorem Sound.cause_lt (sound : tick.Sound tokens) {id cause : Nat} {event : Event}
    (found : tick.session.log.toList[id]? = some event) (caused : event.cause = some cause) :
    cause < tick.session.log.toList.length := by
  have bound := (List.getElem?_eq_some_iff.mp found).1
  exact Nat.lt_trans ((sound.session.log id event found).cause_lt caused) bound

theorem Sound.origin_lt (sound : tick.Sound tokens) {listener : Listener} {origin : Nat}
    (planted : listener ∈ tick.session.arena.toList) (follows : listener.origin = some origin) :
    origin < tick.session.log.toList.length := by
  cases (sound.grounded planted).2 with
  | entry first => cases follows.symm.trans first
  | after other found =>
    rw [follows] at other
    cases other
    exact (List.getElem?_eq_some_iff.mp found).1

theorem Sound.pending_lt (sound : tick.Sound tokens) {done : Completion}
    (waits : done ∈ tick.pending) : done.cause < tick.session.log.toList.length := by
  obtain ⟨_, found, _⟩ := sound.pending done waits
  exact (List.getElem?_eq_some_iff.mp found).1

section Fire

variable {listener : Listener} {position : Nat} {elementType value : String} {sub : Option Nat}
  {path : List String}

theorem Once.nodup_followers (sound : tick.Sound tokens) (once : tick.Once) (listener : Listener)
    (position : Nat) : ((tick.session.arena.toList ++ tick.followers listener position).map
      Listener.key).Nodup := by
  rw [List.map_append, List.nodup_append]
  refine ⟨once.listeners, ?_, fun key old other new same => ?_⟩
  · rw [followers, keys_listenersAt, List.map_map, List.Nodup, List.pairwise_map]
    exact (Network.nodup_closureAfter listener.node).imp fun differ same =>
      differ (Prod.mk.inj (Prod.mk.inj same).2).1
  · subst same
    obtain ⟨before, planted, rfl⟩ := List.mem_map.mp old
    obtain ⟨after, member, same⟩ := List.mem_map.mp new
    have origin := (mem_listenersAt member).2.2.2.2
    have follows : before.origin = some tick.session.log.size := by
      rw [← origin]
      exact (congrArg Prod.fst same).symm
    have earlier := sound.origin_lt planted follows
    simp at earlier

theorem Once.fire (elementType value : String) (path : List String) (sound : tick.Sound tokens)
    (once : tick.Once) (planted : listener ∈ tick.session.arena.toList)
    (fresh : tick.Fresh listener sub) :
    (tick.fire listener position elementType value sub path).Once := by
  obtain ⟨_, place⟩ := sound.place planted
  have new {id : Nat} {event : Event} (found : tick.session.log.toList[id]? = some event)
      (fired : event.kind = .fire) (pattern : event.pattern = (tick.session.placeOf listener.node).pattern)
      (node : event.node = (tick.session.placeOf listener.node).node)
      (cause : event.cause = listener.origin) (consumed : event.subEvent = sub)
      (time : event.time = tick.report.time) : False :=
    fresh id event found fired cause (by rw [pattern, node, place]) consumed time
  constructor
  case listeners =>
    rw [fire_arena]
    exact once.nodup_followers sound listener position
  case fires =>
    rw [fire_log]
    intro a b e f first second firedE firedF pattern node cause consumed time
    rcases getElem?_concat_cases first with oldE | ⟨rfl, rfl⟩
    · rcases getElem?_concat_cases second with oldF | ⟨rfl, rfl⟩
      · exact once.fires a b e f oldE oldF firedE firedF pattern node cause consumed time
      · exact (new oldE firedE pattern node cause consumed time).elim
    · rcases getElem?_concat_cases second with oldF | ⟨rfl, rfl⟩
      · exact (new oldF firedF pattern.symm node.symm cause.symm consumed.symm time.symm).elim
      · rfl
  case completes =>
    rw [fire_log]
    intro a b e f first second completedE completedF cause
    rcases getElem?_concat_cases first with oldE | ⟨rfl, rfl⟩
    · rcases getElem?_concat_cases second with oldF | ⟨rfl, rfl⟩
      · exact once.completes a b e f oldE oldF completedE completedF cause
      · cases completedF
    · cases completedE
  case pending =>
    rw [fire_pending, List.map_append, List.nodup_append]
    refine ⟨once.pending, ?_, fun cause old other new same => ?_⟩
    · unfold reached
      split <;> simp
    · subst same
      obtain ⟨done, waits, rfl⟩ := List.mem_map.mp old
      have earlier := sound.pending_lt waits
      obtain ⟨after, member, same⟩ := List.mem_map.mp new
      rw [← same, (mem_reached.mp member).2] at earlier
      simp at earlier
  case unsettled =>
    rw [fire_pending, fire_log]
    intro done waits id event found completed
    rcases getElem?_concat_cases found with old | ⟨rfl, rfl⟩
    · rcases List.mem_append.mp waits with before | after
      · exact once.unsettled done before id event old completed
      · intro caused
        have earlier := sound.cause_lt old caused
        rw [(mem_reached.mp after).2] at earlier
        simp at earlier
    · cases completed

theorem Thorough.fire (elementType value : String) (path : List String) (sound : tick.Sound tokens)
    (thorough : tick.Thorough joined) (planted : listener ∈ tick.session.arena.toList)
    (ready : listener.readyAt = position) :
    (tick.fire listener position elementType value sub path).Thorough joined := by
  obtain ⟨index, place⟩ := sound.place planted
  constructor
  case active =>
    rw [fire_arena, fire_active, fire_time]
    rw [fire_consumesTokens]
    intro other member
    rcases List.mem_append.mp member with old | new
    · exact (thorough.active other old).imp_left (List.mem_append_left _)
    · exact .inl (List.mem_append_right _ new)
  case follows =>
    rw [fire_log, fire_network, fire_arena]
    intro id event node found fired here next follows
    rcases getElem?_concat_cases found with old | ⟨rfl, rfl⟩
    · obtain ⟨other, member, rest⟩ := thorough.follows id event node old fired here next follows
      exact ⟨other, List.mem_append_left _ member, rest⟩
    · have at' : node = listener.node := Option.some.inj (here.symm.trans place)
      rw [at'] at follows
      have spot : (listener.pattern, next) ∈ (tick.session.network.closureAfter
          listener.node).elements.map (listener.pattern, ·) :=
        List.mem_map.mpr ⟨next, follows, rfl⟩
      obtain ⟨other, member, _, onNode⟩ := exists_listenersAt spot
      obtain ⟨_, _, readyAt, start, origin⟩ := mem_listenersAt member
      exact ⟨other, List.mem_append_right _ member, by simp [origin], onNode, readyAt, start⟩
  case ends =>
    rw [fire_log, fire_network, fire_pending]
    intro id event node found fired here ends
    rcases getElem?_concat_cases found with old | ⟨rfl, rfl⟩
    · rcases thorough.ends id event node old fired here ends with
        ⟨other, completion, recorded, rest⟩ | ⟨done, waits, cause⟩
      · exact .inl ⟨other, completion, getElem?_extend (List.prefix_append _ _) recorded, rest⟩
      · exact .inr ⟨done, List.mem_append_left _ waits, cause⟩
    · have at' : node = listener.node := Option.some.inj (here.symm.trans place)
      rw [at'] at ends
      exact .inr ⟨_, List.mem_append_right _ (mem_reached.mpr ⟨ends, rfl⟩), by simp⟩
  case begun =>
    rw [fire_arena, fire_time]
    intro other member first
    rcases List.mem_append.mp member with old | new
    · exact thorough.begun other old first
    · rw [(mem_listenersAt new).2.2.2.2] at first
      cases first
  case began =>
    rw [fire_log, fire_network]
    intro id event found fired first
    rcases getElem?_concat_cases found with old | ⟨rfl, rfl⟩
    · exact thorough.began id event old fired first
    · obtain ⟨_, since, known, before⟩ := thorough.begun listener planted first
      have start : listener.start = none := by
        cases (sound.grounded planted).2 with
        | entry _ start => exact start
        | after origin => cases first.symm.trans origin
      have begins : listener.start.getD position = position := by rw [start, Option.getD_none]
      exact ⟨listener.pattern, since, index, known, by simp only [firing]; omega⟩

end Fire

section Tell

variable {member : Member} {done : Completion} {rest : List Completion}

theorem Once.tell (waits : tick.pending = done :: rest) (once : tick.Once) :
    (({ tick with pending := rest } : Tick).tell member done).Once := by
  have causes := once.pending
  rw [waits, List.map_cons, List.nodup_cons] at causes
  have unsettled : ∀ other ∈ rest, ∀ (id : Nat) (event : Event),
      tick.session.log.toList[id]? = some event → event.kind = .complete →
      event.cause ≠ some other.cause :=
    fun other later => once.unsettled other (waits ▸ List.mem_cons_of_mem _ later)
  constructor
  case listeners => exact once.listeners
  case fires =>
    rw [tell_log]
    intro a b e f first second firedE firedF
    rcases getElem?_concat_cases first with oldE | ⟨_, rfl⟩
    · rcases getElem?_concat_cases second with oldF | ⟨_, rfl⟩
      · exact once.fires a b e f oldE oldF firedE firedF
      · cases firedF
    · cases firedE
  case completes =>
    rw [tell_log]
    have fresh := once.unsettled done (waits ▸ List.mem_cons_self)
    intro a b e f first second completedE completedF cause
    rcases getElem?_concat_cases first with oldE | ⟨rfl, rfl⟩
    · rcases getElem?_concat_cases second with oldF | ⟨rfl, rfl⟩
      · exact once.completes a b e f oldE oldF completedE completedF cause
      · exact absurd cause (fresh a e oldE completedE)
    · rcases getElem?_concat_cases second with oldF | ⟨rfl, rfl⟩
      · exact absurd cause.symm (fresh b f oldF completedF)
      · rfl
  case pending => exact causes.2
  case unsettled =>
    rw [tell_log]
    intro other later id event found completed
    rcases getElem?_concat_cases found with old | ⟨_, rfl⟩
    · exact unsettled other later id event old completed
    · intro same
      exact causes.1 (List.mem_map.mpr ⟨other, later, (Option.some.inj same).symm⟩)

theorem Thorough.tell (waits : tick.pending = done :: rest) (thorough : tick.Thorough joined) :
    (({ tick with pending := rest } : Tick).tell member done).Thorough joined := by
  constructor
  case active => exact thorough.active
  case follows =>
    rw [tell_log]
    intro id event node found fired
    rcases getElem?_concat_cases found with old | ⟨_, rfl⟩
    · exact thorough.follows id event node old fired
    · cases fired
  case ends =>
    rw [tell_log]
    intro id event node found fired here ends
    rcases getElem?_concat_cases found with old | ⟨_, rfl⟩
    · rcases thorough.ends id event node old fired here ends with
        ⟨other, completion, recorded, facts⟩ | ⟨other, later, cause⟩
      · exact .inl ⟨other, completion, getElem?_extend (List.prefix_append _ _) recorded, facts⟩
      · rcases List.mem_cons.mp (waits ▸ later) with rfl | later
        · refine .inl ⟨_, _, List.getElem?_concat_length, rfl, ?_⟩
          exact congrArg some cause
        · exact .inr ⟨other, later, cause⟩
    · cases fired
  case begun => exact thorough.begun
  case began =>
    rw [tell_log]
    intro id event found fired first
    rcases getElem?_concat_cases found with old | ⟨_, rfl⟩
    · exact thorough.began id event old fired first
    · cases fired

end Tell

/-- What firings leave as it was, and when what they plant will be ready. -/
structure Onward (before after : Tick) : Prop where
  network : after.session.network = before.session.network
  mode : after.session.mode = before.session.mode
  time : after.report.time = before.report.time
  log : before.session.log.toList <+: after.session.log.toList
  arena : before.session.arena.toList <+: after.session.arena.toList
  planted : ∀ listener ∈ after.session.arena.toList, listener ∈ before.session.arena.toList ∨
    listener.readyAt = before.report.time + 1

theorem Onward.refl (tick : Tick) : tick.Onward tick :=
  ⟨rfl, rfl, rfl, List.prefix_refl _, List.prefix_refl _, fun _ => .inl⟩

theorem Onward.trans {before middle after : Tick} (first : before.Onward middle)
    (second : middle.Onward after) : before.Onward after where
  network := second.network.trans first.network
  mode := second.mode.trans first.mode
  time := second.time.trans first.time
  log := first.log.trans second.log
  arena := first.arena.trans second.arena
  planted listener member := by
    rcases second.planted listener member with old | new
    · exact first.planted listener old
    · exact .inr (new.trans (by rw [first.time]))

theorem onward_fire (tick : Tick) (listener : Listener) (position : Nat) (elementType value : String)
    (sub : Option Nat) (path : List String) :
    tick.Onward (tick.fire listener position elementType value sub path) := by
  refine ⟨fire_network .., fire_mode .., fire_time .., ?_, ?_, fun other member => ?_⟩
  · rw [fire_log]
    exact List.prefix_append _ _
  · rw [fire_arena]
    exact List.prefix_append _ _
  · rw [fire_arena] at member
    rcases List.mem_append.mp member with old | new
    · exact .inl old
    · exact .inr (mem_listenersAt new).2.2.1

theorem onward_tell (tick : Tick) (rest : List Completion) (member : Member) (done : Completion) :
    tick.Onward (({ tick with pending := rest } : Tick).tell member done) := by
  refine ⟨rfl, rfl, rfl, ?_, List.prefix_refl _, fun _ => .inl⟩
  rw [tell_log]
  exact List.prefix_append _ _

theorem onward_foldl {α : Type} {step : Tick → α → Tick}
    (onward : ∀ (tick : Tick) item, tick.Onward (step tick item)) (items : List α) (tick : Tick) :
    tick.Onward (items.foldl step tick) := by
  induction items generalizing tick with
  | nil => exact .refl tick
  | cons item rest ih => exact (onward tick item).trans (ih _)

theorem onward_complete (tick : Tick) (done : Completion) : tick.Onward (tick.complete done) := by
  cases found : tick.session.network.members[done.pattern]? with
  | none =>
    rw [complete_none found]
    exact .refl tick
  | some member =>
    have told := onward_tell tick tick.pending member done
    cases mode : tick.session.mode with
    | isolated =>
      rw [complete_isolated found mode]
      exact told
    | unified =>
      simp only [complete, found, mode]
      exact told.trans (onward_foldl (fun t target => onward_foldl
        (fun t listener => onward_fire ..) _ t) _ _)

end Tick

theorem Fired.onward {before after : Tick} (onward : before.Onward after) {listener : Listener}
    {time : Nat} {sub : Option Nat}
    (fired : Fired before.session.network before.session.log.toList listener time sub) :
    Fired after.session.network after.session.log.toList listener time sub := by
  obtain ⟨id, event, found, facts⟩ := fired
  rw [onward.network]
  exact ⟨id, event, getElem?_extend onward.log found, facts⟩

namespace Tick
open Session

variable {tokens : List Token} {joined : List Nat} {tick : Tick}

theorem Fresh.fire {listener other : Listener} {position : Nat} {elementType value : String}
    {sub : Option Nat} {path : List String} (sound : tick.Sound tokens) (once : tick.Once)
    (planted : listener ∈ tick.session.arena.toList)
    (planted' : other ∈ tick.session.arena.toList) (together : listener.readyAt = other.readyAt)
    (differ : listener ≠ other) (fresh : tick.Fresh other sub) :
    (tick.fire listener position elementType value sub path).Fresh other sub := by
  unfold Fresh
  rw [fire_log, fire_network, fire_time]
  intro id event found fired cause place
  rcases getElem?_concat_cases found with old | ⟨_, rfl⟩
  · exact fresh id event old fired cause place
  · have node : listener.node = other.node :=
      Option.some.inj ((sound.place planted).2.symm.trans place)
    have key : listener.key = other.key := by
      rw [Listener.key, Listener.key, node, together, show listener.origin = other.origin from cause]
    exact (differ (eq_of_key once.listeners planted planted' key)).elim

end Tick

end Constructicon
