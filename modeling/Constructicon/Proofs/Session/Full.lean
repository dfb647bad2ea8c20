import Constructicon.Proofs.Session.Once
import Constructicon.Proofs.Session.Sweep

/-! Sessions that miss nothing. In a composed network, and as long as nothing is swept away, every
pattern is seeded at every tick after it joined, every token fires all elements that take it, and
every completion feeds all references that wait where it begins. A session at rest is a tick with
nothing to settle; what a tick preserves is shown for its opening, for the firings of the token
and for each completion settled. -/
namespace Constructicon

/-- Whatever could have fired by now did, the tokens up to `taken` being consumed. -/
structure Tick.Full (tokens : List Token) (joined : List Nat) (taken : Nat) (tick : Tick) : Prop where
  once : tick.Once
  thorough : tick.Thorough joined
  seeded : ∀ (pattern node ready since : Nat) (member : Member),
    tick.session.network.members[pattern]? = some member → node ∈ member.entryNodes →
    joined[pattern]? = some since → since < ready → ready ≤ tick.report.time →
    ∃ listener ∈ tick.session.arena.toList, listener.pattern = pattern ∧ listener.node = node ∧
      listener.readyAt = ready ∧ listener.start = none ∧ listener.origin = none
  tokens : ∀ listener ∈ tick.session.arena.toList, ∀ token : Token,
    tick.session.consumesTokens listener.node = true → listener.readyAt ≤ taken →
    tokens[listener.readyAt - 1]? = some token →
    tick.session.matchTypeOf listener.node = some token.elementType →
    Fired tick.session.network tick.session.log.toList listener listener.readyAt none
  references : ∀ (id : Nat) (completion : Event) (listener : Listener) (site : Site),
    tick.session.log.toList[id]? = some completion → completion.kind = .complete →
    listener ∈ tick.session.arena.toList →
    tick.session.network.sites[listener.node]? = some site →
    site.reference = some completion.pattern → listener.readyAt = completion.start →
    Fired tick.session.network tick.session.log.toList listener completion.time (some id)

namespace Tick
open Session

variable {tokens : List Token} {joined : List Nat} {tick : Tick} {taken : Nat}

theorem fired_fire {listener : Listener} {position : Nat} (elementType value : String)
    (sub : Option Nat) (path : List String) (sound : tick.Sound tokens)
    (planted : listener ∈ tick.session.arena.toList) (ready : listener.readyAt = position) :
    let after := tick.fire listener position elementType value sub path
    Fired after.session.network after.session.log.toList listener tick.report.time sub := by
  intro after
  obtain ⟨index, place⟩ := sound.place planted
  refine ⟨tick.session.log.toList.length, tick.firing listener position elementType value sub, ?_, ?_⟩
  · rw [fire_log]
    exact List.getElem?_concat_length
  · rw [fire_network]
    refine ⟨rfl, rfl, place, index, rfl, ?_, rfl⟩
    rw [Listener.anchor, ready]
    rfl

theorem once_foldl_fire (path : List String) (listeners : List Listener) {position : Nat}
    {elementType value : String} {sub : Option Nat} (sound : tick.Sound tokens) (once : tick.Once)
    (thorough : tick.Thorough joined)
    (fed : ∀ listener ∈ listeners, listener ∈ tick.session.arena.toList ∧
      listener.readyAt = position ∧
      Fed tick.session tokens tick.report.time listener position elementType value sub)
    (distinct : listeners.Nodup) (fresh : ∀ listener ∈ listeners, tick.Fresh listener sub) :
    let after := listeners.foldl (fun t listener =>
      t.fire listener position elementType value sub path) tick
    after.Once ∧ after.Thorough joined ∧ tick.Onward after ∧ ∀ listener ∈ listeners,
      Fired after.session.network after.session.log.toList listener tick.report.time sub := by
  induction listeners generalizing tick with
  | nil => exact ⟨once, thorough, .refl tick, by simp⟩
  | cons first rest ih =>
    obtain ⟨planted, ready, now⟩ := fed first List.mem_cons_self
    rw [List.nodup_cons] at distinct
    have onward := onward_fire tick first position elementType value sub path
    obtain ⟨onceAll, thoroughAll, onwardAll, firedAll⟩ := ih
      (sound_fire path sound planted ready now)
      (once.fire elementType value path sound planted (fresh first List.mem_cons_self))
      (thorough.fire elementType value path sound planted ready)
      (fun listener member => by
        obtain ⟨planted, ready, later⟩ := fed listener (List.mem_cons_of_mem _ member)
        rw [fire_time, fire_arena]
        exact ⟨List.mem_append_left _ planted, ready, fed_fire path later⟩)
      distinct.2
      (fun listener member => by
        obtain ⟨planted', ready', _⟩ := fed listener (List.mem_cons_of_mem _ member)
        refine Fresh.fire sound once planted planted' (ready.trans ready'.symm) ?_
          (fresh listener (List.mem_cons_of_mem _ member))
        intro same
        subst same
        exact distinct.1 member)
    refine ⟨onceAll, thoroughAll, onward.trans onwardAll, fun listener member => ?_⟩
    rcases List.mem_cons.mp member with rfl | later
    · exact (fired_fire elementType value sub path sound planted ready).onward onwardAll
    · have fired := firedAll listener later
      rwa [fire_time] at fired

theorem Onward.consumesTokens {before after : Tick} (onward : before.Onward after) :
    after.session.consumesTokens = before.session.consumesTokens := by
  funext node
  simp only [Session.consumesTokens, onward.network, onward.mode]

theorem Onward.matchTypeOf {before after : Tick} (onward : before.Onward after) :
    after.session.matchTypeOf = before.session.matchTypeOf := by
  funext node
  simp only [Session.matchTypeOf, onward.network]

theorem complete_of_foldl_fire (path : List String) (listeners : List Listener) {position : Nat}
    {elementType value : String} {sub : Option Nat} {id : Nat} {event : Event}
    (found : (listeners.foldl (fun t listener => t.fire listener position elementType value sub path)
      tick).session.log.toList[id]? = some event) (completed : event.kind = .complete) :
    tick.session.log.toList[id]? = some event := by
  induction listeners generalizing tick with
  | nil => exact found
  | cons first rest ih =>
    have before := ih found
    rw [fire_log] at before
    rcases getElem?_concat_cases before with old | ⟨_, rfl⟩
    · exact old
    · cases completed

/-- Firings miss nothing if they feed what waits for the completions recorded meanwhile. -/
theorem Full.onward {before after : Tick} (full : before.Full tokens joined taken)
    (sound : after.Sound tokens) (onward : before.Onward after) (once : after.Once)
    (thorough : after.Thorough joined) (bound : taken ≤ before.report.time)
    (fed : ∀ (id : Nat) (completion : Event) (listener : Listener) (site : Site),
      after.session.log.toList[id]? = some completion → completion.kind = .complete →
      before.session.log.toList.length ≤ id → listener ∈ before.session.arena.toList →
      before.session.network.sites[listener.node]? = some site →
      site.reference = some completion.pattern → listener.readyAt = completion.start →
      Fired after.session.network after.session.log.toList listener completion.time (some id)) :
    after.Full tokens joined taken where
  once := once
  thorough := thorough
  seeded pattern node ready since member found entry known later past := by
    rw [onward.network] at found
    rw [onward.time] at past
    obtain ⟨listener, planted, facts⟩ :=
      full.seeded pattern node ready since member found entry known later past
    exact ⟨listener, onward.arena.subset planted, facts⟩
  tokens listener planted token consumes past current agrees := by
    rw [onward.consumesTokens] at consumes
    rw [onward.matchTypeOf] at agrees
    rcases onward.planted listener planted with old | new
    · exact (full.tokens listener old token consumes past current agrees).onward onward
    · omega
  references id completion listener site found completed planted here names ready := by
    rw [onward.network] at here
    rcases onward.planted listener planted with old | new
    · by_cases before : id < before.session.log.toList.length
      · rw [getElem?_restrict onward.log before] at found
        exact (full.references id completion listener site found completed old here names
          ready).onward onward
      · exact fed id completion listener site found completed (by omega) old here names ready
    · have event := sound.session.log id completion found
      have spans := event.spans
      have past := event.past
      have time := sound.time
      have same := onward.time
      omega

theorem Once.nodup_arena (once : tick.Once) : tick.session.arena.toList.Nodup :=
  (List.pairwise_map.mp once.listeners).imp fun differ same => differ (congrArg Listener.key same)

theorem nodup_feedable (sound : tick.Sound tokens) (once : tick.Once)
    (composed : tick.session.network.Composed) (member : Member) (position : Nat) :
    (tick.session.feedable member position).Nodup := by
  have active : tick.session.active.Nodup := (Once.nodup_arena once).sublist sound.session.active
  refine List.pairwise_flatMap.mpr ⟨fun target _ => ?_, ?_⟩
  · exact active.sublist List.filter_sublist
  · refine (composed.nodup_refTargets member).imp fun differ first here second there same => ?_
    subst same
    obtain ⟨onFirst, _⟩ := of_decide_eq_true (List.mem_filter.mp here).2
    obtain ⟨onSecond, _⟩ := of_decide_eq_true (List.mem_filter.mp there).2
    exact differ (onFirst.symm.trans onSecond)

theorem fresh_feedable (sound : tick.Sound tokens) (member : Member) (done : Completion)
    (listener : Listener) :
    (tick.tell member done).Fresh listener (some tick.session.log.size) := by
  unfold Fresh
  rw [tell_log]
  intro id event found fired _ _ consumed
  rcases getElem?_concat_cases found with old | ⟨_, rfl⟩
  · have here := sound.session.log id event old
    have same := here.id
    have bound := (List.getElem?_eq_some_iff.mp old).1
    rw [Array.length_toList] at bound
    cases here.grounded with
    | token _ none => cases consumed.symm.trans none
    | reference _ consumes _ _ _ earlier =>
      rw [consumed] at consumes
      cases consumes
      omega
    | completion kind => cases fired.symm.trans kind
  · cases fired

section Complete

variable {done : Completion} {rest : List Completion}

/-- Settling a completion feeds every reference that waits where it begins. -/
theorem Full.complete (waits : tick.pending = done :: rest) (sound : tick.Sound tokens)
    (full : tick.Full tokens joined taken) (composed : tick.session.network.Composed)
    (unified : tick.session.mode = .unified) (bound : taken ≤ tick.report.time) :
    (Tick.complete { tick with pending := rest } done).Full tokens joined taken ∧
      tick.Onward (Tick.complete { tick with pending := rest } done) := by
  have popped := sound.pop waits
  have grounded := sound.pending done (waits ▸ List.mem_cons_self)
  obtain ⟨member, found⟩ := grounded.member
  obtain ⟨_, pattern, early⟩ := completing_grounded popped found grounded
  have told := sound_tell popped found grounded
  have fed := feedable_fed popped found grounded
  have after := sound_complete popped grounded
  have same : Tick.complete { tick with pending := rest } done = _ := complete_unified found unified early
  rw [same] at after ⊢
  obtain ⟨once, thorough, onward, fired⟩ := once_foldl_fire done.path _ told (full.once.tell waits)
    (full.thorough.tell waits) fed
    (nodup_feedable sound full.once composed member done.start)
    (fun listener _ => fresh_feedable popped member done listener)
  have whole := (onward_tell tick rest member done).trans onward
  refine ⟨full.onward after whole once thorough bound ?_, whole⟩
  intro id completion listener site recorded completed new planted here names ready
  have recorded := complete_of_foldl_fire done.path _ recorded completed
  rw [tell_log] at recorded
  rcases getElem?_concat_cases recorded with old | ⟨rfl, rfl⟩
  · have before : id < tick.session.log.toList.length := (List.getElem?_eq_some_iff.mp old).1
    omega
  · have active : listener ∈ tick.session.active := by
      apply (full.thorough.active listener planted).resolve_right
      intro consumes
      have refers := ((consumesTokens_iff here).mp consumes.1).2
      simp [names, unified] at refers
    rw [pattern] at names
    have target := composed.mem_refTargets sound.session.network here names (List.mem_of_getElem? found)
    have waiting : listener ∈ tick.session.feedable member done.start :=
      mem_feedable.mpr ⟨active, target, ready⟩
    change Fired _ _ listener tick.report.time (some tick.session.log.toList.length)
    rw [Array.length_toList]
    exact fired listener waiting

end Complete

end Tick

end Constructicon
