import Mathlib.Data.List.Nodup
import Mathlib.Data.Option.Basic
import Constructicon.Proofs.Session.Circle
import Constructicon.Proofs.Session.Ranks

/-! When a cascade is cut short and what it leaves. The loop stops with nothing to settle or with
completions that all lie one hop deeper than allowed. In the first case every firing that reaches an
end has its completion; in the other all completions within the limit are recorded, and the report
names the trail of completions to one that is not. -/
namespace Constructicon

namespace Event

/-- A firing of the tick `time` from which the end of its pattern is reached. -/
def Ends (network : Network) (time : Nat) (firing : Event) : Prop :=
  firing.time = time ∧ network.reachesEnd firing = true

/-- Such a firing, of a reference, that consumed a completion of the depth `limit`. -/
def Beyond (log : List Event) (network : Network) (time limit : Nat) (firing : Event) : Prop :=
  firing.Ends network time ∧ ∃ sub, firing.subEvent = some sub ∧ Log.depth log sub = limit

end Event

namespace Log

/-- Of the completions of the tick `time` just one is caused by the firing. -/
def Answered (log : List Event) (time : Nat) (firing : Event) : Prop :=
  ∃! done, done ∈ log ∧ done.kind = .complete ∧ done.time = time ∧ done.cause = some firing.id

/-- What a log says of the tick `time`, whose completions may lie as deep as `limit`. -/
structure Cascaded (log : List Event) (network : Network) (time limit : Nat) : Prop where
  caused : ∀ done ∈ log, done.kind = .complete → ∃ firing ∈ log, firing.Ends network done.time ∧
    done.cause = some firing.id ∧ depth log done.id = height log firing
  sorted : (log.filter fun event => event.kind = .complete ∧ event.time = time).Pairwise
    fun a b => depth log a.id ≤ depth log b.id
  shallow : ∀ done ∈ log, done.kind = .complete → done.time = time → depth log done.id ≤ limit
  answered : ∀ firing ∈ log, firing.Ends network time → height log firing ≤ limit →
    Answered log time firing

end Log

namespace Tick
open Session Log

variable {tokens : List Token} {tick : Tick} {height limit : Nat} {done firing : Event}

theorem mem_completions : done ∈ tick.completions ↔ done ∈ tick.session.log.toList ∧
    done.kind = .complete ∧ done.time = tick.report.time := by
  simp [completions]

theorem mem_endings : firing ∈ tick.endings ↔ firing ∈ tick.session.log.toList ∧
    firing.Ends tick.session.network tick.report.time := by
  simp [endings, Event.Ends, and_comm]

theorem Sound.caused (sound : tick.Sound tokens) (member : done ∈ tick.session.log.toList)
    (completed : done.kind = .complete) : ∃ firing ∈ tick.session.log.toList,
      firing.Ends tick.session.network done.time ∧ done.cause = some firing.id ∧
      depth tick.session.log.toList done.id = Log.height tick.session.log.toList firing := by
  have recorded := sound.recorded member
  cases (sound.session.log _ _ recorded).grounded with
  | token fired => cases completed.symm.trans fired
  | reference fired => cases completed.symm.trans fired
  | @completion cause final before _ _ _ _ _ _ _ caused found _ fired _ _ together last ends =>
    have id := (sound.session.log cause before found).id
    refine ⟨before, List.mem_of_getElem? found, ⟨together, ?_⟩, id ▸ caused,
      depth_eq_height sound.session.log recorded caused found⟩
    simp [Network.reachesEnd, fired, last, ends]

theorem Sound.nodup_endings (sound : tick.Sound tokens) :
    (tick.endings.map (some ·.id)).Nodup := by
  have among : (tick.endings.map (·.id)).Sublist (tick.session.log.toList.map (·.id)) :=
    List.filter_sublist.map _
  rw [ids_eq_range sound.session.log] at among
  have distinct := (List.nodup_range.sublist among).map (Option.some_injective Nat)
  rwa [List.map_map] at distinct

/-- A firing that reaches an end has one completion, unless that is still to be settled. -/
theorem Orderly.answered (orderly : tick.Orderly height) (sound : tick.Sound tokens)
    (ending : firing ∈ tick.endings) (settled : ∀ done ∈ tick.pending, done.cause ≠ firing.id) :
    Answered tick.session.log.toList tick.report.time firing := by
  have listed : some firing.id ∈ tick.completions.map (·.cause) := by
    have turn : some firing.id ∈ tick.endings.map (some ·.id) := List.mem_map_of_mem ending
    rw [← orderly.inTurn, List.mem_append] at turn
    refine turn.resolve_right fun waits => ?_
    obtain ⟨done, waiting, same⟩ := List.mem_map.mp waits
    exact settled done waiting (Option.some.inj same)
  have distinct : (tick.completions.map (·.cause)).Nodup := by
    have endings := sound.nodup_endings
    rw [← orderly.inTurn] at endings
    exact (List.nodup_append.mp endings).1
  obtain ⟨done, told, caused⟩ := List.mem_map.mp listed
  obtain ⟨member, completed, together⟩ := mem_completions.mp told
  refine ⟨done, ⟨member, completed, together, caused⟩, ?_⟩
  rintro other ⟨member', completed', together', caused'⟩
  have told' := mem_completions.mpr ⟨member', completed', together'⟩
  exact List.inj_on_of_nodup_map distinct told' told (caused'.trans caused.symm)

/-- What is still to be settled is caused by a firing of this tick, and lies as deep as that tells. -/
theorem Orderly.waiting (orderly : tick.Orderly height) (sound : tick.Sound tokens)
    {next : Completion} (waits : next ∈ tick.pending) : ∃ firing ∈ tick.endings,
      firing.id = next.cause ∧ next.depth = Log.height tick.session.log.toList firing := by
  obtain ⟨firing, found, deep⟩ := (orderly.traced next waits).depth_eq sound
  have turn : some next.cause ∈ tick.endings.map (some ·.id) := by
    rw [← orderly.inTurn]
    exact List.mem_append_right _ (List.mem_map_of_mem waits)
  obtain ⟨ending, member, same⟩ := List.mem_map.mp turn
  have recorded := sound.recorded (mem_endings.mp member).1
  rw [Option.some.inj same, found] at recorded
  cases recorded
  exact ⟨firing, member, Option.some.inj same, deep⟩

/-- Of a cascade that left only what is too deep, the log says all that is not. -/
theorem Orderly.cascaded (orderly : tick.Orderly height) (within : height ≤ limit + 1)
    (deep : ∀ next ∈ tick.pending, next.depth = limit + 1) (sound : tick.Sound tokens) :
    Cascaded tick.session.log.toList tick.session.network tick.report.time limit where
  caused done member completed := sound.caused member completed
  sorted := List.pairwise_map.mp (List.pairwise_append.mp orderly.sorted).1
  shallow done member completed together := by
    have told := orderly.told done (mem_completions.mpr ⟨member, completed, together⟩)
    omega
  answered firing member ends shallow := by
    apply orderly.answered sound (mem_endings.mpr ⟨member, ends⟩)
    intro next waits same
    obtain ⟨cause, ending, id, height⟩ := orderly.waiting sound waits
    have recorded := sound.recorded member
    rw [← same, ← id, sound.recorded (mem_endings.mp ending).1] at recorded
    cases recorded
    have beyond := deep next waits
    omega

theorem beyond_iff {log : List Event} {network : Network} {time : Nat} :
    firing.Beyond log network time limit ↔
      firing.Ends network time ∧ Log.height log firing = limit + 1 := by
  unfold Event.Beyond Log.height
  cases firing.subEvent <;> simp

/-- Something is left to be settled just if a firing reaches an end too deep. -/
theorem Orderly.overrun_iff (orderly : tick.Orderly height) (within : height ≤ limit + 1)
    (deep : ∀ next ∈ tick.pending, next.depth = limit + 1) (sound : tick.Sound tokens) :
    tick.pending ≠ [] ↔ ∃ firing ∈ tick.session.log.toList,
      firing.Beyond tick.session.log.toList tick.session.network tick.report.time limit := by
  constructor
  · intro left
    obtain ⟨next, waits⟩ := List.exists_mem_of_ne_nil _ left
    obtain ⟨firing, ending, _, height⟩ := orderly.waiting sound waits
    obtain ⟨member, ends⟩ := mem_endings.mp ending
    exact ⟨firing, member, beyond_iff.mpr ⟨ends, height ▸ deep next waits⟩⟩
  · rintro ⟨firing, member, beyond⟩ none
    obtain ⟨ends, high⟩ := beyond_iff.mp beyond
    obtain ⟨done, ⟨told, completed, together, caused⟩, _⟩ :=
      orderly.answered sound (mem_endings.mpr ⟨member, ends⟩) (by simp [none])
    obtain ⟨other, present, _, same, height⟩ := sound.caused told completed
    -- the firing that caused the completion is this one, for it has the same id
    have recorded := sound.recorded present
    rw [← Option.some.inj (caused.symm.trans same), sound.recorded member] at recorded
    cases recorded
    have settled := orderly.told done (mem_completions.mpr ⟨told, completed, together⟩)
    omega

/-- What lies too deep is reported with its trail, its own pattern and its node. -/
theorem Orderly.reported (orderly : tick.Orderly height) (sound : tick.Sound tokens)
    {next : Completion} (waits : next ∈ tick.pending) (deep : next.depth = limit + 1) :
    ∃ firing ∈ tick.session.log.toList, ∃ trail,
      firing.Beyond tick.session.log.toList tick.session.network tick.report.time limit ∧
      trail.length = limit + 1 ∧
      Trail tick.session.log.toList tick.report.time trail firing.subEvent ∧
      next.path = trail.map (·.pattern) ++ [firing.pattern] ∧
      (tick.session.network.sites[next.node]?).map (·.localId) = some firing.node := by
  obtain ⟨firing, ending, id, high⟩ := orderly.waiting sound waits
  obtain ⟨member, ends⟩ := mem_endings.mp ending
  obtain ⟨_, trail, found, before, path⟩ := orderly.traced next waits
  obtain ⟨_, found', _, _, _, place, _⟩ := sound.pending next waits
  have recorded := sound.recorded member
  cases (id ▸ recorded).symm.trans found
  cases found.symm.trans found'
  obtain ⟨_, site, _, here, _, local', _⟩ := sound.session.network.find?_eq_some.mp place
  refine ⟨firing, member, trail, beyond_iff.mpr ⟨ends, by omega⟩, ?_, before, path, ?_⟩
  · rw [← deep, Completion.depth, path]
    simp
  · rw [here, Option.map_some, local']

end Tick

namespace Session
open Tick Log

variable {tokens : List Token} {session : Session} {token : Token}

theorem orderly_opened (sound : session.Sound tokens)
    (now : session.time = tokens.length) : session.opened.Orderly 0 := by
  have past : ∀ event ∈ session.opened.session.log.toList, event.time ≠ session.opened.report.time := by
    intro event member same
    rw [opened_log] at member
    obtain ⟨position, found⟩ := List.mem_iff_getElem?.mp member
    have before := (sound.log position event found).past
    rw [opened_time] at same
    omega
  have completions : session.opened.completions = [] :=
    List.eq_nil_iff_forall_not_mem.mpr fun event member =>
      past event (mem_completions.mp member).1 (mem_completions.mp member).2.2
  have endings : session.opened.endings = [] :=
    List.eq_nil_iff_forall_not_mem.mpr fun event member =>
      past event (mem_endings.mp member).1 (mem_endings.mp member).2.1
  have pending : session.opened.pending = [] := rfl
  constructor
  case inTurn => simp [completions, endings, pending]
  case traced => simp [pending]
  case sorted => simp [completions, pending]
  case told => simp [completions]
  case level => simp [pending]

/-- A tick leaves the queue of its cascade in order. -/
theorem orderly_tick (token : Token) (sound : session.Sound tokens)
    (now : session.time = tokens.length) (unified : session.mode = .unified) :
    ∃ height ≤ session.limits.maxCascadeDepth + 1, (session.tick token).Orderly height := by
  have struck : (session.struck token).Orderly 0 :=
    (orderly_opened sound now).foldl_fire _ (sound_opened token sound now)
      (matching_fed token sound now) .token rfl rfl
  exact struck.run (run_tick token sound now unified) (Nat.zero_le _) (sound_struck token sound now)
    ((mode_of_frame (session.struck_frame token)).trans unified)

/-- What is left is too deep, so it is reported, with the trail of completions that led to it. -/
theorem feed_beyond (sound : session.Sound tokens) (now : session.time = tokens.length)
    (unified : session.mode = .unified) (going : session.aborted = false)
    (left : (session.tick token).pending ≠ []) :
    let after := (session.tick token).session
    let time := (session.tick token).report.time
    let limit := session.limits.maxCascadeDepth
    ∃ firing ∈ after.events, ∃ trail, firing.Beyond after.events after.network time limit ∧
      trail.length = limit + 1 ∧ Trail after.events time trail firing.subEvent ∧
      (session.feed token).1 = .error (.compositionCycle time (limit + 1) firing.node
        (trail.map (·.pattern) ++ [firing.pattern])) := by
  obtain ⟨deepest, rest, waits⟩ := List.exists_cons_of_ne_nil left
  have first : deepest ∈ (session.tick token).pending := waits ▸ List.mem_cons_self
  have deep := depth_of_pending sound now unified first
  obtain ⟨_, _, orderly⟩ := orderly_tick token sound now unified
  obtain ⟨firing, member, trail, beyond, length, led, path, here⟩ :=
    orderly.reported (sound_tick token sound now) first deep
  refine ⟨firing, member, trail, beyond, length, led, ?_⟩
  have cycle : (session.feed token).1 = _ := congrArg Prod.fst (feedWith_deep going waits)
  rw [network_of_frame (session.tick_frame token)] at here
  rw [cycle, ← path, ← deep, here]
  rfl

end Session

/-- Every cascade ends and its report is exact, in whatever state a unified session takes a token
and however deep cascades may go. Either all that is caused within the tick is recorded, or the
session reports a trail of completions that leads one hop too deep, with all that lies less deep
recorded. -/
theorem Course.cascade_exact {course : Course}
    (reached : course.Reached Opening Session.sweepUnified)
    (unified : course.session.mode = .unified) (going : course.session.aborted = false)
    (token : Token) :
    let before := course.session
    let limit := before.limits.maxCascadeDepth
    let now := before.time + 1
    let result := (before.feed token).1
    let log := (before.feed token).2.events
    (Acc (Function.swap (Tick.Settles limit)) (before.struck token) ∧
      Relation.ReflTransGen (Tick.Settles limit) (before.struck token) (before.tick token) ∧
      ∀ next, ¬ Tick.Settles limit (before.tick token) next) ∧
    Log.Cascaded log before.network now limit ∧
    (∀ report, result = .ok report → ∀ firing ∈ log, firing.Ends before.network now →
      Log.Answered log now firing) ∧
    ((∃ depth node path, result = .error (.compositionCycle now depth node path)) ↔
      ∃ firing ∈ log, firing.Beyond log before.network now limit) ∧
    ∀ error, result = .error error → ∃ firing ∈ log, ∃ trail,
      firing.Beyond log before.network now limit ∧ trail.length = limit + 1 ∧
      Log.Trail log now trail firing.subEvent ∧
      error = .compositionCycle now (limit + 1) firing.node
        (trail.map (·.pattern) ++ [firing.pattern]) := by
  obtain ⟨opened, clock⟩ := reached.sound (fun _ opening => opening.starts)
    Session.dropping_sweepUnified
  intro before limit now result log
  have sound := Session.sound_tick token opened clock
  obtain ⟨height, within, orderly⟩ := Session.orderly_tick token opened clock unified
  have deep : ∀ next ∈ (before.tick token).pending, next.depth = limit + 1 :=
    fun next waits => Session.depth_of_pending opened clock unified waits
  have network : (before.tick token).session.network = before.network :=
    Session.network_of_frame (before.tick_frame token)
  have time : (before.tick token).report.time = now := by simp [sound.time, now, before, clock]
  have events : log = (before.tick token).session.events :=
    Session.events_feedWith Session.dropping_sweepUnified token going
  have run := Session.run_tick token opened clock unified
  have stuck : ∀ next, ¬ Tick.Settles limit (before.tick token) next :=
    Session.stuck_tick opened clock unified
  have overrun := orderly.overrun_iff within deep sound
  rw [events, ← network, ← time]
  refine ⟨⟨Tick.acc_of_stuck run stuck, run, stuck⟩, orderly.cascaded within deep sound, ?_⟩
  by_cases settled : (before.tick token).pending = []
  case pos =>
    have ok : result = .ok (before.tick token).report :=
      congrArg Prod.fst (Session.feedWith_settled going settled)
    refine ⟨fun report _ firing member ends => ?_, iff_of_false ?_ ?_, ?_⟩
    · exact orderly.answered sound (Tick.mem_endings.mpr ⟨member, ends⟩) (by simp [before, settled])
    · simp [ok]
    · exact fun beyond => overrun.mpr beyond settled
    · simp [ok]
  case neg =>
    obtain ⟨firing, member, trail, beyond, length, led, stopped⟩ :=
      Session.feed_beyond opened clock unified going settled
    have stopped : result = _ := stopped
    refine ⟨fun report ok => ?_, iff_of_true ⟨_, _, _, stopped⟩ ⟨firing, member, beyond⟩, ?_⟩
    · cases ok.symm.trans stopped
    · intro error failed
      cases failed.symm.trans stopped
      exact ⟨firing, member, trail, beyond, length, led, rfl⟩

/-- Where an `A` is a `B` and a `B` an `A`, the `A` that the second token ends is a `B` one hop on
and an `A` again two hops on, which is too deep by one. -/
theorem Course.cascade_exact_circular :
    let course := (Course.start (Session.unified Session.circular.composed { maxCascadeDepth := 1 })).call
      Session.sweepUnified (.feed ⟨"X", "x"⟩)
    let before := course.session
    let log := (before.feed ⟨"Y", "y"⟩).2.events
    before.mode = .unified ∧ before.aborted = false ∧
      (before.feed ⟨"Y", "y"⟩).1 = .error (.compositionCycle 2 2 "b" ["A", "B", "A"]) ∧
      Acc (Function.swap (Tick.Settles 1)) (before.struck ⟨"Y", "y"⟩) ∧
      Log.Cascaded log before.network 2 1 ∧
      ∃ firing ∈ log, ∃ trail, firing.Beyond log before.network 2 1 ∧
        trail.map (·.pattern) = ["A", "B"] ∧ Log.Trail log 2 trail firing.subEvent := by
  intro course before log
  have composes : Session.circular.network.isOk = true := by decide +kernel
  have opening : Opening (Session.unified Session.circular.composed { maxCascadeDepth := 1 }) :=
    .unified (.composed (.grammar (Grammar.network_composed composes)))
  have reached : course.Reached Opening Session.sweepUnified :=
    (Course.Reached.start opening).call (.feed ⟨"X", "x"⟩) trivial
  have unified : before.mode = .unified := by decide +kernel
  have going : before.aborted = false := by decide +kernel
  have cycle : (before.feed ⟨"Y", "y"⟩).1 =
      .error (.compositionCycle 2 2 "b" ["A", "B", "A"]) := by decide +kernel
  have second : course.session.time + 1 = 2 := by decide +kernel
  have limit : course.session.limits.maxCascadeDepth = 1 := by decide +kernel
  obtain ⟨⟨ends, _⟩, cascaded, _, _, errors⟩ := Course.cascade_exact reached unified going ⟨"Y", "y"⟩
  obtain ⟨firing, member, trail, beyond, _, led, stopped⟩ := errors _ cycle
  rw [limit] at ends
  rw [second, limit] at cascaded beyond
  rw [second] at led
  refine ⟨unified, going, cycle, ends, cascaded, firing, member, trail, beyond, ?_, led⟩
  have path : ["A", "B"] ++ ["A"] = trail.map (·.pattern) ++ [firing.pattern] :=
    (Error.compositionCycle.inj stopped).2.2.2
  exact (List.append_inj_left' path rfl).symm

end Constructicon
