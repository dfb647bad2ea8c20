import Constructicon.Proofs.Session.Provenance

/-! One invariant links the log, the listeners and the completions still to be settled: everything
is grounded, ids are positions, and whatever consumes tokens waits for the very next one. Each
firing preserves it and each completion does, hence every tick, whether or not it is cut short. -/
namespace Constructicon

/-- Everything a session holds is grounded; `tokens` are those consumed, a current one included. -/
structure Session.Sound (tokens : List Token) (session : Session) : Prop where
  network : session.network.Sound
  log : SoundLog session.network session.mode tokens session.log.toList
  ordered : session.log.toList.Pairwise (·.time ≤ ·.time)
  arena : ∀ (position : Nat) (listener : Listener), session.arena.toList[position]? = some listener →
    listener.Sound session.network session.log.toList position
  active : session.active.Sublist session.arena.toList
  ready : ∀ listener ∈ session.active, listener.readyAt ≤ tokens.length + 1 ∧
    (session.consumesTokens listener.node = true → listener.readyAt = tokens.length + 1)

structure Tick.Sound (tokens : List Token) (tick : Tick) : Prop where
  session : tick.session.Sound tokens
  time : tick.report.time = tokens.length
  pending : ∀ done ∈ tick.pending,
    done.Grounded tick.session.network tick.session.log.toList tick.report.time

/-- What fires `listener` in the tick `time`: the token of that tick or a completion recorded in
it, which begins at `position`. -/
inductive Fed (session : Session) (tokens : List Token) (time : Nat) (listener : Listener)
    (position : Nat) (elementType value : String) : Option Nat → Prop where
  | token {site : Site} {token : Token} (now : position = time)
      (current : tokens[time - 1]? = some token) (isType : elementType = token.elementType)
      (isValue : value = token.value) (found : session.network.sites[listener.node]? = some site)
      (agrees : site.matchType = some token.elementType)
      (consumes : session.mode = .unified → site.reference = none) :
      Fed session tokens time listener position elementType value none
  | completion {consumed : Nat} {site : Site} {sub : Event}
      (recorded : session.log.toList[consumed]? = some sub) (completed : sub.kind = .complete)
      (together : sub.time = time) (begins : sub.start = position)
      (found : session.network.sites[listener.node]? = some site)
      (names : site.reference = some sub.pattern) (isType : elementType = referenceType)
      (isValue : value = sub.pattern) :
      Fed session tokens time listener position elementType value (some consumed)

theorem Listener.Grounded.site {network : Network} {log : List Event} {listener : Listener}
    (sound : network.Sound) (grounded : listener.Grounded network log) :
    ∃ site, network.sites[listener.node]? = some site ∧ site.role = .element ∧
      site.pattern = some listener.pattern := by
  cases grounded with
  | entry origin start registered opens => exact sound.entryNode_owner registered opens
  | after origin found fired start adjacent place pattern follows =>
    obtain ⟨owner, last, index, here, owned, _⟩ := sound.find?_eq_some.mp place
    rw [pattern] at index
    cases index
    obtain ⟨next, at', role, same⟩ := sound.closureAfter_owner here follows
    exact ⟨next, at', role, same.trans owned⟩

theorem Listener.Grounded.pattern_lt {network : Network} {log : List Event} {listener : Listener}
    (grounded : listener.Grounded network log) : listener.pattern < network.members.length := by
  cases grounded with
  | entry _ _ registered => exact (List.getElem?_eq_some_iff.mp registered).1
  | after _ _ _ _ _ _ pattern =>
    obtain ⟨_, found, _⟩ := Network.Sound.member_of_memberIndex? pattern
    exact (List.getElem?_eq_some_iff.mp found).1

namespace Session

theorem lt_size {α : Type} {items : Array α} {i : Nat} {item : α}
    (found : items.toList[i]? = some item) : i < items.size := by
  simpa using (List.getElem?_eq_some_iff.mp found).1

theorem find?_placeOf {session : Session} (sound : session.network.Sound) {node owner : Nat}
    {site : Site} (found : session.network.sites[node]? = some site)
    (owned : site.pattern = some owner) (proper : site.role ≠ .pattern) :
    session.network.memberIndex? (session.placeOf node).pattern = some owner ∧
      session.network.find? (session.placeOf node).pattern (session.placeOf node).node =
        some node := by
  have bound := sound.owned node site owner found owned
  have place : session.placeOf node = ⟨session.network.members[owner].name, site.localId⟩ := by
    simp [placeOf, found, Network.ownerName, owned, List.getElem?_eq_getElem bound]
  have index := sound.memberIndex?_eq (List.getElem?_eq_getElem bound)
  rw [place]
  exact ⟨index, sound.find?_eq_some.mpr ⟨owner, site, index, found, owned, rfl, proper⟩⟩

section Growth

variable {tokens : List Token} {session : Session}

theorem Sound.log_append (sound : session.Sound tokens) {event : Event}
    (new : event.Sound session.network session.mode tokens session.log.toList
      session.log.toList.length) (position : Nat) (other : Event)
    (found : (session.log.toList ++ [event])[position]? = some other) :
    other.Sound session.network session.mode tokens (session.log.toList ++ [event]) position := by
  have extend {which : Event} (old : which.Sound session.network session.mode tokens
      session.log.toList position) :=
    old.extend sound.network sound.network (Network.grows_refl _) (List.prefix_refl tokens)
      (List.prefix_append _ [event])
  rcases getElem?_concat_cases found with before | ⟨rfl, rfl⟩
  · exact extend (sound.log position other before)
  · exact extend new

theorem Sound.ordered_append (sound : session.Sound tokens) {event : Event}
    (now : event.time = tokens.length) :
    (session.log.toList ++ [event]).Pairwise (·.time ≤ ·.time) := by
  refine List.pairwise_append.mpr ⟨sound.ordered, List.pairwise_singleton _ _, ?_⟩
  intro other earlier last same
  obtain ⟨position, found⟩ := List.mem_iff_getElem?.mp earlier
  have past := (sound.log position other found).past
  rw [List.mem_singleton.mp same]
  omega

theorem Sound.arena_extend (sound : session.Sound tokens) {log : List Event}
    (logged : session.log.toList <+: log) (position : Nat) (listener : Listener)
    (found : session.arena.toList[position]? = some listener) :
    listener.Sound session.network log position :=
  (sound.arena position listener found).extend sound.network sound.network (Network.grows_refl _)
    logged

theorem arena_append {network : Network} {log : List Event} {arena : Array Listener}
    (old : ∀ (position : Nat) (listener : Listener), arena.toList[position]? = some listener →
      listener.Sound network log position)
    {readyAt : Nat} {start origin : Option Nat} {spots : List (Nat × Nat)} (positive : 1 ≤ readyAt)
    (grounded : ∀ listener : Listener, (listener.pattern, listener.node) ∈ spots →
      listener.readyAt = readyAt → listener.start = start → listener.origin = origin →
      listener.Grounded network log) (position : Nat) (listener : Listener)
    (found : (arena.toList ++ listenersAt arena.size readyAt start origin spots)[position]? =
      some listener) : listener.Sound network log position := by
  by_cases before : position < arena.toList.length
  · rw [List.getElem?_append_left before] at found
    exact old position listener found
  · rw [List.getElem?_append_right (by omega)] at found
    obtain ⟨id, spot, born, ready, start, origin⟩ := getElem?_listenersAt found
    rw [Array.length_toList] at before id
    refine ⟨by omega, by omega, by omega, grounded listener spot ready start origin⟩

end Growth

end Session

namespace Tick
open Session

variable {tokens : List Token} {tick : Tick}

section Fire

variable {listener : Listener} {position : Nat} {elementType value : String}
  {subEvent : Option Nat} {path : List String}

theorem Sound.grounded (sound : tick.Sound tokens) (planted : listener ∈ tick.session.arena.toList) :
    1 ≤ listener.readyAt ∧
      listener.Grounded tick.session.network tick.session.log.toList := by
  obtain ⟨i, found⟩ := List.mem_iff_getElem?.mp planted
  have here := sound.session.arena i listener found
  exact ⟨here.ready, here.grounded⟩

theorem Sound.place (sound : tick.Sound tokens) {listener : Listener}
    (planted : listener ∈ tick.session.arena.toList) :
    tick.session.network.memberIndex? (tick.session.placeOf listener.node).pattern =
        some listener.pattern ∧
      tick.session.network.find? (tick.session.placeOf listener.node).pattern
        (tick.session.placeOf listener.node).node = some listener.node := by
  obtain ⟨site, here, role, owned⟩ := (sound.grounded planted).2.site sound.session.network
  exact find?_placeOf sound.session.network here owned (by simp [role])

theorem position_le (sound : tick.Sound tokens)
    (fed : Fed tick.session tokens tick.report.time listener position elementType value subEvent) :
    position ≤ tick.report.time := by
  cases fed with
  | token now => omega
  | completion recorded completed together begins =>
    have spans := (sound.session.log _ _ recorded).spans
    omega

/-- The firing of a listener goes on from what the listener was planted for. -/
theorem firing_awaited (elementType value : String) (subEvent : Option Nat)
    (sound : tick.Sound tokens) (planted : listener ∈ tick.session.arena.toList)
    (ready : listener.readyAt = position) (past : position ≤ tick.report.time) :
    let event := tick.firing listener position elementType value subEvent
    event.Awaited tick.session.network tick.session.log.toList listener.node position ∧
      1 ≤ event.start ∧ event.start ≤ event.time := by
  intro event
  obtain ⟨positive, grounded⟩ := sound.grounded planted
  obtain ⟨index, _⟩ := sound.place planted
  cases grounded with
  | entry origin start registered opens =>
    have begins : event.start = position := by simp [event, firing, start]
    refine ⟨.entry origin begins ?_ opens, ?_, ?_⟩
    · exact sound.session.network.member?_eq_some.mpr ⟨_, index, registered⟩
    · omega
    · exact begins ▸ past
  | @after cause last before origin found fired start adjacent at' pattern follows =>
    have begins : event.start = before.start := by simp [event, firing, start]
    have older := sound.session.log _ _ found
    have same : before.pattern = event.pattern :=
      Network.Sound.memberIndex?_injective pattern index
    have time : event.time = tick.report.time := rfl
    refine ⟨.after origin found ?_ fired same begins.symm (by omega) (by omega) at' follows, ?_, ?_⟩
    · exact lt_size found
    · exact begins ▸ older.begins
    · have spans := older.spans
      omega

theorem firing_grounded (sound : tick.Sound tokens)
    (planted : listener ∈ tick.session.arena.toList) (ready : listener.readyAt = position)
    (fed : Fed tick.session tokens tick.report.time listener position elementType value subEvent) :
    (tick.firing listener position elementType value subEvent).Sound tick.session.network
      tick.session.mode tokens tick.session.log.toList tick.session.log.toList.length := by
  obtain ⟨awaited, begins, spans⟩ :=
    firing_awaited elementType value subEvent sound planted ready (position_le sound fed)
  obtain ⟨_, place⟩ := sound.place planted
  refine ⟨by simp [firing], begins, spans, Nat.le_of_eq sound.time, ?_⟩
  cases fed with
  | token now current isType isValue found agrees consumes =>
    exact .token rfl rfl place found (now ▸ awaited) current (congrArg some isType)
      (congrArg some isValue) agrees consumes
  | completion recorded completed together here found names isType isValue =>
    exact .reference rfl rfl place found recorded (lt_size recorded) completed together
      (here ▸ awaited) names (congrArg some isType) (congrArg some isValue)

theorem getElem?_fire (tick : Tick) (listener : Listener) (position : Nat)
    (elementType value : String) (subEvent : Option Nat) (path : List String) :
    (tick.fire listener position elementType value subEvent path).session.log.toList[
      tick.session.log.size]? = some (tick.firing listener position elementType value subEvent) := by
  rw [fire_log]
  simp

theorem session_fire (path : List String) (sound : tick.Sound tokens)
    (planted : listener ∈ tick.session.arena.toList) (ready : listener.readyAt = position)
    (fed : Fed tick.session tokens tick.report.time listener position elementType value subEvent) :
    (tick.fire listener position elementType value subEvent path).session.Sound tokens := by
  have grounded := firing_grounded sound planted ready fed
  obtain ⟨index, place⟩ := sound.place planted
  have recorded := getElem?_fire tick listener position elementType value subEvent path
  rw [fire_log] at recorded
  constructor
  case network =>
    rw [fire_network]
    exact sound.session.network
  case log =>
    rw [fire_network, fire_mode, fire_log]
    exact sound.session.log_append grounded
  case ordered =>
    rw [fire_log]
    exact sound.session.ordered_append sound.time
  case arena =>
    rw [fire_network, fire_log, fire_arena]
    apply arena_append (sound.session.arena_extend (List.prefix_append _ _)) (Nat.le_add_left 1 _)
    intro next spot readyAt start origin
    obtain ⟨node, follows, same⟩ := List.mem_map.mp spot
    obtain ⟨pattern, rfl⟩ := Prod.mk.inj same
    exact .after origin recorded rfl start readyAt place (pattern ▸ index) follows
  case active =>
    rw [fire_active, fire_arena]
    exact sound.session.active.append (.refl _)
  case ready =>
    intro next member
    rw [fire_active] at member
    rw [fire_consumesTokens]
    rcases List.mem_append.mp member with old | new
    · exact sound.session.ready next old
    · have readyAt := (mem_listenersAt new).2.2.1
      rw [sound.time] at readyAt
      exact ⟨Nat.le_of_eq readyAt, fun _ => readyAt⟩

theorem sound_fire (path : List String) (sound : tick.Sound tokens)
    (planted : listener ∈ tick.session.arena.toList) (ready : listener.readyAt = position)
    (fed : Fed tick.session tokens tick.report.time listener position elementType value subEvent) :
    (tick.fire listener position elementType value subEvent path).Sound tokens := by
  refine ⟨session_fire path sound planted ready fed, ?_, ?_⟩
  · rw [fire_time, sound.time]
  · have recorded := getElem?_fire tick listener position elementType value subEvent path
    obtain ⟨index, place⟩ := sound.place planted
    rw [fire_log] at recorded
    rw [fire_pending, fire_network, fire_log, fire_time]
    intro done member
    rcases List.mem_append.mp member with old | new
    · exact (sound.pending done old).extend (List.prefix_append _ _)
    · obtain ⟨ends, rfl⟩ := mem_reached.mp new
      exact ⟨_, recorded, rfl, rfl, rfl, place, index, ends⟩

end Fire

theorem fed_fire {first listener : Listener} {position : Nat} {elementType value : String}
    {subEvent : Option Nat} (path : List String)
    (fed : Fed tick.session tokens tick.report.time listener position elementType value subEvent) :
    Fed (tick.fire first position elementType value subEvent path).session tokens tick.report.time
      listener position elementType value subEvent := by
  cases fed with
  | token now current isType isValue found agrees consumes =>
    exact .token now current isType isValue (by rwa [fire_network]) agrees (by rwa [fire_mode])
  | completion recorded completed together begins found names isType isValue =>
    refine .completion ?_ completed together begins (by rwa [fire_network]) names isType isValue
    rw [fire_log]
    exact getElem?_extend (List.prefix_append _ _) recorded

theorem sound_foldl_fire (path : List String) (listeners : List Listener) {position : Nat}
    {elementType value : String} {subEvent : Option Nat} (sound : tick.Sound tokens)
    (fed : ∀ listener ∈ listeners, listener ∈ tick.session.arena.toList ∧
      listener.readyAt = position ∧
      Fed tick.session tokens tick.report.time listener position elementType value subEvent) :
    (listeners.foldl (fun t listener => t.fire listener position elementType value subEvent path)
      tick).Sound tokens := by
  induction listeners generalizing tick with
  | nil => exact sound
  | cons first rest ih =>
    obtain ⟨planted, ready, now⟩ := fed first List.mem_cons_self
    apply ih (sound_fire path sound planted ready now)
    intro listener member
    obtain ⟨planted, ready, later⟩ := fed listener (List.mem_cons_of_mem _ member)
    rw [fire_time, fire_arena]
    exact ⟨List.mem_append_left _ planted, ready, fed_fire path later⟩

section Complete

variable {member : Member} {done : Completion}

theorem completing_pattern (sound : tick.session.network.Sound)
    (found : tick.session.network.members[done.pattern]? = some member) :
    (tick.completing member done).pattern = member.name := by
  obtain ⟨site, here, owned, role⟩ := (sound.placed _ _ found).finish
  obtain ⟨other, same, name⟩ :=
    Network.Sound.member_of_memberIndex? (find?_placeOf sound here owned (by simp [role])).1
  rw [found] at same
  cases same
  exact name.symm

theorem completing_grounded (sound : tick.Sound tokens)
    (found : tick.session.network.members[done.pattern]? = some member)
    (grounded : done.Grounded tick.session.network tick.session.log.toList tick.report.time) :
    (tick.completing member done).Sound tick.session.network tick.session.mode tokens
        tick.session.log.toList tick.session.log.toList.length ∧
      (tick.completing member done).pattern = member.name ∧ done.start ≤ tick.report.time := by
  obtain ⟨before, recorded, fired, together, start, last, index, ends⟩ := grounded
  obtain ⟨site, here, owned, role⟩ := (sound.session.network.placed _ _ found).finish
  obtain ⟨place, node⟩ := find?_placeOf sound.session.network here owned (by simp [role])
  have name := completing_pattern sound.session.network found
  obtain ⟨_, same, pattern⟩ := Network.Sound.member_of_memberIndex? index
  rw [found] at same
  cases same
  have older := sound.session.log _ _ recorded
  have begins := older.begins
  have spans := older.spans
  have early : done.start ≤ tick.report.time := by omega
  have positive : 1 ≤ done.start := by omega
  refine ⟨⟨by simp [completing], positive, early, Nat.le_of_eq sound.time, ?_⟩, name, early⟩
  exact .completion rfl rfl rfl rfl
    (sound.session.network.member?_eq_some.mpr ⟨_, place, found⟩) node rfl recorded
    (lt_size recorded) fired (pattern.symm.trans name.symm) start together last ends

theorem sound_tell (sound : tick.Sound tokens)
    (found : tick.session.network.members[done.pattern]? = some member)
    (grounded : done.Grounded tick.session.network tick.session.log.toList tick.report.time) :
    (tick.tell member done).Sound tokens := by
  have event := (completing_grounded sound found grounded).1
  have logged := List.prefix_append tick.session.log.toList [tick.completing member done]
  constructor
  case session =>
    constructor
    case network => exact sound.session.network
    case log =>
      rw [tell_log]
      exact sound.session.log_append event
    case ordered =>
      rw [tell_log]
      exact sound.session.ordered_append sound.time
    case arena =>
      rw [tell_log]
      exact sound.session.arena_extend logged
    case active => exact sound.session.active
    case ready => exact sound.session.ready
  case time => exact sound.time
  case pending =>
    rw [tell_log]
    intro done member
    exact (sound.pending done member).extend logged

theorem feedable_fed (sound : tick.Sound tokens)
    (found : tick.session.network.members[done.pattern]? = some member)
    (grounded : done.Grounded tick.session.network tick.session.log.toList tick.report.time)
    (listener : Listener) (waiting : listener ∈ tick.session.feedable member done.start) :
    listener ∈ (tick.tell member done).session.arena.toList ∧ listener.readyAt = done.start ∧
      Fed (tick.tell member done).session tokens tick.report.time listener done.start referenceType
        member.name (some tick.session.log.size) := by
  obtain ⟨active, target, ready⟩ := mem_feedable.mp waiting
  obtain ⟨site, here, names⟩ := sound.session.network.reference_of_mem_refTargets found target
  have pattern := (completing_grounded sound found grounded).2.1
  have recorded : (tick.tell member done).session.log.toList[tick.session.log.size]? =
      some (tick.completing member done) := by
    rw [tell_log]
    simp
  exact ⟨sound.session.active.subset active, ready, .completion recorded rfl rfl rfl here
    (names.trans (congrArg some pattern.symm)) rfl pattern.symm⟩

theorem sound_complete (sound : tick.Sound tokens)
    (grounded : done.Grounded tick.session.network tick.session.log.toList tick.report.time) :
    (tick.complete done).Sound tokens := by
  cases found : tick.session.network.members[done.pattern]? with
  | none => rwa [complete_none found]
  | some member =>
    have told := sound_tell sound found grounded
    cases mode : tick.session.mode with
    | isolated => rwa [complete_isolated found mode]
    | unified =>
      have early := (completing_grounded sound found grounded).2.2
      rw [complete_unified found mode early]
      exact sound_foldl_fire done.path _ told (feedable_fed sound found grounded)

theorem Sound.pop {rest : List Completion} (sound : tick.Sound tokens)
    (waits : tick.pending = done :: rest) : Sound tokens { tick with pending := rest } :=
  ⟨sound.session, sound.time, fun other later =>
    sound.pending other (waits ▸ List.mem_cons_of_mem _ later)⟩

end Complete

theorem sound_settle (depths : Nat) (sound : tick.Sound tokens) :
    (tick.settle depths).Sound tokens :=
  settle_induction (fun _ done _ waits before => sound_complete (before.pop waits)
    (before.pending done (waits ▸ List.mem_cons_self))) depths sound

end Tick

end Constructicon
