import Constructicon.Proofs.Session.Queue

/-! The order of a cascade. A completion lies as deep as the completions that led to it within the
tick are many. The loop of a cascade is a queue: the firings that reach an end are answered by
completions in the order in which they were recorded, and what waits lies one hop deeper than what
was settled last, or as deep. So the completions of a tick stand in order of depth, each firing that
reaches an end has its one completion unless that lies too deep, and a cascade is cut short just if
one does. -/
namespace Constructicon

namespace Log

/-- The depth of the completion with this id: none if the firing that caused it consumed a token,
else one more than that of the completion consumed. What does not come before counts for nothing. -/
def depth (log : List Event) (id : Nat) : Nat :=
  match (((log[id]?).bind (·.cause)).bind (log[·]?)).bind (·.subEvent) with
  | none => 0
  | some sub => if sub < id then depth log sub + 1 else 0
termination_by id

/-- How deep a completion is that a firing causes. -/
def height (log : List Event) (firing : Event) : Nat :=
  firing.subEvent.elim 0 (depth log · + 1)

/-- Completions of one tick, each consumed by the cause of the next; the last is the one given. -/
inductive Trail (log : List Event) (time : Nat) : List Event → Option Nat → Prop where
  | token : Trail log time [] none
  | hop {trail : List Event} {done firing : Event} {cause : Nat}
      (before : Trail log time trail firing.subEvent) (caused : done.cause = some cause)
      (found : log[cause]? = some firing) (recorded : log[done.id]? = some done)
      (completed : done.kind = .complete) (together : done.time = time) :
      Trail log time (trail ++ [done]) (some done.id)

variable {network : Network} {mode : Mode} {tokens : List Token} {log more : List Event}

/-- A completion lies as deep as its cause tells. -/
theorem depth_eq_height {id cause : Nat} {event firing : Event}
    (sound : SoundLog network mode tokens log) (recorded : log[id]? = some event)
    (caused : event.cause = some cause) (found : log[cause]? = some firing) :
    depth log id = height log firing := by
  rw [depth, recorded, Option.bind_some, caused, Option.bind_some, found, Option.bind_some, height]
  cases consumes : firing.subEvent with
  | none => rfl
  | some sub =>
    have before := (sound id event recorded).cause_lt caused
    have earlier := (sound cause firing found).sub_lt consumes
    have less : sub < id := by omega
    simp [less]

theorem depth_extend (sound : SoundLog network mode tokens log) (longer : log <+: more) {id : Nat}
    (known : id < log.length) : depth more id = depth log id := by
  induction id using Nat.strongRecOn with
  | ind id ih =>
    have recorded := List.getElem?_eq_getElem known
    rw [depth, depth, recorded, getElem?_extend longer recorded]
    cases caused : log[id].cause with
    | none => simp [caused]
    | some cause =>
      have before := (sound id _ recorded).cause_lt caused
      have found := List.getElem?_eq_getElem (Nat.lt_trans before known)
      simp only [Option.bind_some, caused, found, getElem?_extend longer found]
      cases log[cause].subEvent with
      | none => rfl
      | some sub =>
        by_cases less : sub < id
        · simp only [if_pos less, ih sub less (Nat.lt_trans less known)]
        · simp only [if_neg less]

theorem Trail.extend {time : Nat} {trail : List Event} {sub : Option Nat}
    (before : Trail log time trail sub) (longer : log <+: more) : Trail more time trail sub := by
  induction before with
  | token => exact .token
  | hop _ caused found recorded completed together ih =>
    exact .hop ih caused (getElem?_extend longer found) (getElem?_extend longer recorded) completed
      together

theorem Trail.length_eq {time : Nat} {trail : List Event} {sub : Option Nat}
    (sound : SoundLog network mode tokens log) (before : Trail log time trail sub) :
    trail.length = sub.elim 0 (depth log · + 1) := by
  induction before with
  | token => rfl
  | hop _ caused found recorded completed together ih =>
    rw [List.length_append, ih]
    exact congrArg Nat.succ (depth_eq_height sound recorded caused found).symm

end Log

/-- Whether the end of its pattern is reached from the firing that the event records. -/
def Network.reachesEnd (network : Network) (event : Event) : Bool :=
  event.kind = .fire ∧ (network.find? event.pattern event.node).any fun node =>
    (network.closureAfter node).reachesEnd

namespace Tick
open Session Log

variable {tokens : List Token} {tick : Tick} {height : Nat}

/-- The completions of the tick that are recorded. -/
def completions (tick : Tick) : List Event :=
  tick.session.log.toList.filter fun event =>
    event.kind = .complete ∧ event.time = tick.report.time

/-- The firings of the tick from which an end is reached. -/
def endings (tick : Tick) : List Event :=
  tick.session.log.toList.filter fun event =>
    tick.session.network.reachesEnd event ∧ event.time = tick.report.time

/-- What is to be settled names on its path the completions that led to it and its own pattern. -/
def Traced (tick : Tick) (done : Completion) : Prop :=
  ∃ firing trail, tick.session.log.toList[done.cause]? = some firing ∧
    Trail tick.session.log.toList tick.report.time trail firing.subEvent ∧
    done.path = trail.map (·.pattern) ++ [firing.pattern]

/-- The queue of a cascade: firings that reach an end are answered in their order, and what waits is
of the depth `height` or one less, the less deep first. -/
structure Orderly (height : Nat) (tick : Tick) : Prop where
  inTurn : tick.completions.map (·.cause) ++ tick.pending.map (some ·.cause) =
    tick.endings.map (some ·.id)
  traced : ∀ done ∈ tick.pending, tick.Traced done
  sorted : (tick.completions.map (depth tick.session.log.toList ·.id) ++
    tick.pending.map (·.depth)).Pairwise (· ≤ ·)
  told : ∀ event ∈ tick.completions, depth tick.session.log.toList event.id < height
  level : ∀ done ∈ tick.pending, done.depth ≤ height ∧ height ≤ done.depth + 1

theorem Sound.recorded (sound : tick.Sound tokens) {event : Event}
    (member : event ∈ tick.session.log.toList) :
    tick.session.log.toList[event.id]? = some event := by
  obtain ⟨position, found⟩ := List.mem_iff_getElem?.mp member
  rwa [(sound.session.log position event found).id]

theorem Sound.depth_onward (sound : tick.Sound tokens) {later : Tick} (onward : tick.Onward later)
    {event : Event} (member : event ∈ tick.completions) :
    depth later.session.log.toList event.id = depth tick.session.log.toList event.id :=
  depth_extend sound.session.log onward.log
    (List.getElem?_eq_some_iff.mp (sound.recorded (List.mem_filter.mp member).1)).1

theorem Sound.depths_onward (sound : tick.Sound tokens) {later : Tick} (onward : tick.Onward later) :
    tick.completions.map (depth later.session.log.toList ·.id) =
      tick.completions.map (depth tick.session.log.toList ·.id) :=
  List.map_congr_left fun _ member => sound.depth_onward onward member

theorem Traced.extend {later : Tick} {done : Completion} (traced : tick.Traced done)
    (onward : tick.Onward later) : later.Traced done := by
  obtain ⟨firing, trail, found, before, path⟩ := traced
  refine ⟨firing, trail, getElem?_extend onward.log found, ?_, path⟩
  rw [onward.time]
  exact before.extend onward.log

theorem Traced.depth_eq {done : Completion} (sound : tick.Sound tokens) (traced : tick.Traced done) :
    ∃ firing, tick.session.log.toList[done.cause]? = some firing ∧
      done.depth = Log.height tick.session.log.toList firing := by
  obtain ⟨firing, trail, found, before, path⟩ := traced
  refine ⟨firing, found, ?_⟩
  have length := before.length_eq sound.session.log
  simpa [Completion.depth, path, Log.height] using length

section Fire

variable {listener : Listener} {position : Nat} {elementType value : String} {sub : Option Nat}
  {path : List String}

theorem completions_fire :
    (tick.fire listener position elementType value sub path).completions = tick.completions := by
  simp [completions, List.filter_append, firing]

theorem endings_fire (sound : tick.Sound tokens)
    (planted : listener ∈ tick.session.arena.toList) :
    (tick.fire listener position elementType value sub path).endings = tick.endings ++
      if (tick.session.network.closureAfter listener.node).reachesEnd then
        [tick.firing listener position elementType value sub] else [] := by
  have place := (sound.place planted).2
  simp [endings, List.filter_append, Network.reachesEnd, firing, place, List.filter_cons]

/-- The pattern recorded with a firing is that of its listener. -/
theorem firing_pattern (sound : tick.Sound tokens)
    (planted : listener ∈ tick.session.arena.toList) :
    (tick.firing listener position elementType value sub).pattern =
      tick.session.network.ownerName (some listener.pattern) := by
  obtain ⟨member, found, name⟩ := Network.Sound.member_of_memberIndex? (sound.place planted).1
  simp [firing, Network.ownerName, found, name]

variable {trail : List Event}

theorem Orderly.fire (orderly : tick.Orderly height) (sound : tick.Sound tokens)
    (planted : listener ∈ tick.session.arena.toList)
    (before : Trail tick.session.log.toList tick.report.time trail sub)
    (named : path = trail.map (·.pattern)) (high : trail.length = height) :
    (tick.fire listener position elementType value sub path).Orderly height := by
  have onward := onward_fire tick listener position elementType value sub path
  have pending := fire_pending tick listener position elementType value sub path
  have depth_new {done : Completion} (new : done ∈ tick.reached listener position path) :
      done.depth = height := by
    obtain ⟨_, rfl⟩ := mem_reached.mp new
    simp [Completion.depth, named, high]
  constructor
  case inTurn =>
    rw [completions_fire, pending, endings_fire sound planted, List.map_append, List.map_append,
      ← List.append_assoc, orderly.inTurn]
    congr 1
    unfold reached
    split <;> simp [firing]
  case traced =>
    rw [pending]
    intro done waits
    rcases List.mem_append.mp waits with old | new
    · exact (orderly.traced done old).extend onward
    · obtain ⟨_, rfl⟩ := mem_reached.mp new
      refine ⟨_, trail, getElem?_fire .., ?_, ?_⟩
      · rw [fire_time]
        exact before.extend onward.log
      · rw [firing_pattern sound planted, named]
  case sorted =>
    rw [completions_fire, sound.depths_onward onward, pending, List.map_append,
      ← List.append_assoc, List.pairwise_append]
    refine ⟨orderly.sorted, ?_, ?_⟩
    · unfold reached
      split <;> simp
    · intro lower earlier upper later
      obtain ⟨done, new, rfl⟩ := List.mem_map.mp later
      rw [depth_new new]
      rcases List.mem_append.mp earlier with told | waits
      · obtain ⟨event, member, rfl⟩ := List.mem_map.mp told
        exact Nat.le_of_lt (orderly.told event member)
      · obtain ⟨other, member, rfl⟩ := List.mem_map.mp waits
        exact (orderly.level other member).1
  case told =>
    rw [completions_fire]
    intro event member
    rw [sound.depth_onward onward member]
    exact orderly.told event member
  case level =>
    rw [pending]
    intro done waits
    rcases List.mem_append.mp waits with old | new
    · exact orderly.level done old
    · have same := depth_new new
      omega

theorem Orderly.foldl_fire (listeners : List Listener) (orderly : tick.Orderly height)
    (sound : tick.Sound tokens)
    (fed : ∀ listener ∈ listeners, listener ∈ tick.session.arena.toList ∧
      listener.readyAt = position ∧
      Fed tick.session tokens tick.report.time listener position elementType value sub)
    (before : Trail tick.session.log.toList tick.report.time trail sub)
    (named : path = trail.map (·.pattern)) (high : trail.length = height) :
    (listeners.foldl (fun t listener => t.fire listener position elementType value sub path)
      tick).Orderly height := by
  induction listeners generalizing tick with
  | nil => exact orderly
  | cons first rest ih =>
    obtain ⟨planted, ready, now⟩ := fed first List.mem_cons_self
    have onward := onward_fire tick first position elementType value sub path
    refine ih (orderly.fire sound planted before named high) (sound_fire path sound planted ready now)
      ?_ ?_
    · intro listener member
      obtain ⟨planted, ready, later⟩ := fed listener (List.mem_cons_of_mem _ member)
      rw [fire_time]
      exact ⟨onward.arena.subset planted, ready, fed_fire path later⟩
    · rw [fire_time]
      exact before.extend onward.log

end Fire

section Settle

variable {member : Member} {done : Completion} {rest : List Completion}

theorem completions_tell :
    (tick.tell member done).completions = tick.completions ++ [tick.completing member done] := by
  have time : (tick.tell member done).report.time = tick.report.time := rfl
  simp [completions, time, List.filter_append, completing]

theorem endings_tell : (tick.tell member done).endings = tick.endings := by
  have time : (tick.tell member done).report.time = tick.report.time := rfl
  have network : (tick.tell member done).session.network = tick.session.network := rfl
  simp [endings, time, network, List.filter_append, Network.reachesEnd, completing]

theorem getElem?_tell (tick : Tick) (member : Member) (done : Completion) :
    (tick.tell member done).session.log.toList[tick.session.log.size]? =
      some (tick.completing member done) := by
  simp

/-- A completion that is settled ends the trail which its path names. -/
theorem Traced.tell (traced : tick.Traced done) (sound : tick.Sound tokens)
    (found : tick.session.network.members[done.pattern]? = some member)
    (grounded : done.Grounded tick.session.network tick.session.log.toList tick.report.time) :
    ∃ trail, trail.length = done.depth + 1 ∧ done.path = trail.map (·.pattern) ∧
      Trail (tick.tell member done).session.log.toList tick.report.time trail
        (some tick.session.log.size) := by
  obtain ⟨firing, trail, caused, before, path⟩ := traced
  have onward : tick.Onward (tick.tell member done) := onward_tell tick tick.pending member done
  have pattern : (tick.completing member done).pattern = firing.pattern := by
    obtain ⟨_, caused', _, _, _, _, index, _⟩ := grounded
    cases caused.symm.trans caused'
    obtain ⟨_, same, name⟩ := Network.Sound.member_of_memberIndex? index
    cases found.symm.trans same
    rw [completing_pattern sound.session.network found, name]
  refine ⟨trail ++ [tick.completing member done], ?_, ?_, ?_⟩
  · simp [Completion.depth, path]
  · rw [path, List.map_append, List.map_singleton, pattern]
  · exact .hop (before.extend onward.log) rfl (getElem?_extend onward.log caused)
      (getElem?_tell tick member done) rfl rfl

/-- Recorded, a completion is as deep as it was when it waited. -/
theorem Orderly.tell (orderly : tick.Orderly height) (sound : tick.Sound tokens)
    (waits : tick.pending = done :: rest)
    (found : tick.session.network.members[done.pattern]? = some member) :
    (Tick.tell { tick with pending := rest } member done).Orderly (done.depth + 1) := by
  have waiting : done ∈ tick.pending := waits ▸ List.mem_cons_self
  have grounded := sound.pending done waiting
  have onward : tick.Onward (Tick.tell { tick with pending := rest } member done) :=
    onward_tell tick rest member done
  have inTurn := orderly.inTurn
  have sorted := orderly.sorted
  rw [waits, List.map_cons, List.append_cons] at inTurn sorted
  have depth_new : depth (Tick.tell { tick with pending := rest } member done).session.log.toList
      tick.session.log.size = done.depth := by
    obtain ⟨trail, length, _, told⟩ := (orderly.traced done waiting).tell sound found grounded
    have size := told.length_eq (sound_tell sound found grounded).session.log
    exact Nat.succ.inj (size.symm.trans length)
  constructor
  case inTurn =>
    rw [completions_tell, endings_tell, List.map_append]
    exact inTurn
  case traced =>
    exact fun other later =>
      (orderly.traced other (waits ▸ List.mem_cons_of_mem _ later)).extend onward
  case sorted =>
    rw [completions_tell, List.map_append, List.map_singleton]
    exact (congrArg₂ (fun depths last => (depths ++ [last] ++ rest.map (·.depth)).Pairwise (· ≤ ·))
      (sound.depths_onward onward) depth_new).mpr sorted
  case told =>
    rw [completions_tell]
    intro event member
    rcases List.mem_append.mp member with old | new
    · rw [sound.depth_onward onward old]
      have earlier := (List.pairwise_append.mp (List.pairwise_append.mp sorted).1).2.2 _
        (List.mem_map_of_mem old) done.depth List.mem_cons_self
      omega
    · rw [List.mem_singleton.mp new]
      exact Nat.lt_succ_of_le (Nat.le_of_eq depth_new)
  case level =>
    intro other later
    have above := (List.pairwise_append.mp sorted).2.2 done.depth (by simp) other.depth
      (List.mem_map_of_mem later)
    have below := orderly.level other (waits ▸ List.mem_cons_of_mem _ later)
    have here := orderly.level done waiting
    omega

/-- A turn keeps the queue in order. -/
theorem Orderly.settles {limit : Nat} {after : Tick} (turn : Settles limit tick after)
    (orderly : tick.Orderly height) (sound : tick.Sound tokens)
    (unified : tick.session.mode = .unified) : ∃ height ≤ limit + 1, after.Orderly height := by
  cases turn with
  | @next done rest waits shallow =>
    have waiting : done ∈ tick.pending := waits ▸ List.mem_cons_self
    have grounded := sound.pending done waiting
    have popped := sound.pop waits
    obtain ⟨member, found⟩ := grounded.member
    have early := (completing_grounded sound found grounded).2.2
    have told := orderly.tell sound waits found
    obtain ⟨trail, length, named, before⟩ := (orderly.traced done waiting).tell sound found grounded
    refine ⟨done.depth + 1, by omega, ?_⟩
    have completed : complete { tick with pending := rest } done = _ :=
      complete_unified found unified early
    rw [completed]
    exact told.foldl_fire _ (sound_tell popped found grounded)
      (feedable_fed popped found grounded) before named length

end Settle

/-- A run of the loop keeps the queue in order. -/
theorem Orderly.run {limit : Nat} {after : Tick}
    (run : Relation.ReflTransGen (Settles limit) tick after) (orderly : tick.Orderly height)
    (within : height ≤ limit + 1) (sound : tick.Sound tokens)
    (unified : tick.session.mode = .unified) : ∃ height ≤ limit + 1, after.Orderly height := by
  induction run using Relation.ReflTransGen.head_induction_on generalizing height with
  | refl => exact ⟨height, within, orderly⟩
  | head turn _ ih =>
    obtain ⟨next, within, orderly⟩ := orderly.settles turn sound unified
    exact ih orderly within (turn.sound sound) ((mode_of_frame turn.frame).trans unified)

end Tick

end Constructicon
