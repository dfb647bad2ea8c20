import Constructicon.Proofs.Session.Thinned

/-! Sweeping costs nothing. An instance is doomed where no listener that was kept is anchored: it
never completes again, since whatever fires in a later tick goes on from a listener that was kept
or begins anew at that tick. A reference that is swept away is lost. So a session that is swept and
one that is not fire the same listeners at every tick, and differ in nothing but the lost references
that stay active in the latter. -/
namespace Constructicon

namespace Session
open Tick

/-- No listener of the session is anchored where the instance would begin. -/
def Doomed (session : Session) (pattern position : Nat) : Prop :=
  position ≤ session.time ∧
    ∀ listener ∈ session.active, ¬ (listener.pattern = pattern ∧ listener.anchor = position)

/-- Two unified sessions that differ in lost references at most. -/
structure Thins (whole kept : Session) : Prop where
  unified : kept.mode = .unified
  same : whole = { kept with active := whole.active }
  thinned : Thinned (Lost kept.network kept.Doomed) whole.active kept.active

variable {whole kept : Session}

theorem Thins.opened (thins : Thins whole kept) :
    Tick.Thins kept.network kept.Doomed whole.opened kept.opened := by
  have seeds : whole.seeds = kept.seeds := by rw [thins.same]; rfl
  have due : whole.isDue = kept.isDue := by rw [thins.same]; rfl
  have time : whole.time = kept.time := by rw [thins.same]
  constructor
  case shared => exact opened_network kept
  case unified => exact (opened_mode kept).trans thins.unified
  case same =>
    rw [thins.same]
    simp only [Session.opened, seeded_eq, grow, withoutDue]
    rfl
  case thinned =>
    rw [opened_active, opened_active, seeds, due, time]
    exact (thins.thinned.append _).filter _
  case active =>
    intro listener member doomed
    rcases (kept.mem_opened.mp member).1 with old | new
    · exact doomed.2 listener old ⟨rfl, rfl⟩
    · obtain ⟨ready, start, _⟩ := mem_seeds new
      have position := doomed.1
      rw [Listener.anchor, start, Option.getD_none] at position
      omega
  case pending => exact fun done none => by cases none
  case past => exact fun _ _ doomed => Nat.lt_succ_of_le doomed.1

/-- What consumes tokens is never lost, so the token fires the same listeners on both sides. -/
theorem Thins.matching (thins : Thins whole kept) (elementType : String) :
    whole.seeded.matching (whole.time + 1) elementType =
      kept.seeded.matching (kept.time + 1) elementType := by
  have seeds : whole.seeds = kept.seeds := by rw [thins.same]; rfl
  have time : whole.time = kept.time := by rw [thins.same]
  have due : whole.isDue = kept.isDue := by rw [thins.same]; rfl
  have agrees : whole.matchTypeOf = kept.matchTypeOf := by rw [thins.same]; rfl
  have network : whole.network = kept.network := by rw [thins.same]
  rw [seeded_matching, seeded_matching, seeds, time, due, agrees, network]
  have filtered := (thins.thinned.append kept.seeds).filter_eq (p := fun listener =>
    kept.isDue (kept.time + 1) listener ∧ kept.matchTypeOf listener.node = some elementType) ?_
  · rw [filtered]
  · intro listener lost
    obtain ⟨site, found, refers⟩ := lost.reference
    have waits : kept.consumesTokens listener.node = false := by
      simp [consumesTokens, found, thins.unified, Option.isSome_iff_ne_none.mp refers]
    simp [isDue, waits]

theorem Thins.tick (thins : Thins whole kept) (token : Token) :
    Tick.Thins kept.network kept.Doomed (whole.tick token) (kept.tick token) := by
  have time : whole.time = kept.time := by rw [thins.same]
  have limits : whole.limits = kept.limits := by rw [thins.same]
  rw [tick_eq, tick_eq, thins.matching, time, limits]
  apply Tick.Thins.settle
  apply List.foldl_rel thins.opened
  intro listener fires t t' firing
  refine firing.fire (fun doomed => ?_) _ _ _ _
  have early := doomed.1
  cases start : listener.start with
  | none =>
    rw [start, Option.getD_none] at early
    omega
  | some begun =>
    rw [start, Option.getD_some] at early doomed
    rcases (kept.mem_seeded_matching.mp fires).1 with old | new
    · exact doomed.2 listener old ⟨rfl, by rw [Listener.anchor, start, Option.getD_some]⟩
    · rw [(mem_seeds new).2.1] at start
      cases start

theorem Thins.ofTick {network : Network} {doomed : Nat → Nat → Prop} {whole kept : Tick}
    (thins : Tick.Thins network doomed whole kept) :
    Thins { whole.session with time := whole.report.time }
      { kept.session with time := kept.report.time } := by
  refine ⟨thins.unified, ?_, ?_⟩
  · rw [thins.same]
  · have shared := thins.shared
    subst shared
    refine thins.thinned.mono fun listener lost => ⟨lost.reference, fun pattern member found linked => ?_⟩
    have doomed := lost.hopeless pattern member found linked
    refine ⟨Nat.le_of_lt (thins.past _ _ doomed), fun other active same => ?_⟩
    obtain ⟨rfl, anchor⟩ := same
    exact thins.active other active (anchor ▸ doomed)

theorem anchor_mem_inFlight {session : Session} {listener : Listener}
    (active : listener ∈ session.active)
    (kept : session.isOverdue listener = true →
      ∃ support ∈ session.inFlight, session.support? listener = some support) :
    (listener.pattern, listener.anchor) ∈ session.inFlight := by
  cases overdue : session.isOverdue listener with
  | false =>
    refine queue_subset_search (List.mem_map.mpr ⟨listener, ?_, rfl⟩)
    exact List.mem_filter.mpr ⟨active, by simp [overdue]⟩
  | true =>
    obtain ⟨support, member, waits⟩ := kept overdue
    refine reach_closed member (List.mem_filterMap.mpr ⟨listener, ?_, by simp [waits]⟩)
    exact List.mem_filter.mpr ⟨active, overdue⟩

/-- A reference that is swept away waits for doomed instances only. -/
theorem lost_of_swept {session : Session} (sound : session.network.Sound) {listener : Listener}
    (overdue : session.isOverdue listener = true)
    (unsupported : ∀ support ∈ session.inFlight, session.support? listener ≠ some support) :
    Lost session.network session.sweep.Doomed listener := by
  simp only [isOverdue, decide_eq_true_eq] at overdue
  obtain ⟨refers, early⟩ := overdue
  unfold referenceOf at refers
  cases found : session.network.sites[listener.node]? with
  | none => simp [found] at refers
  | some site =>
    refine ⟨⟨site, found, by simpa [found] using refers⟩, fun pattern member registered linked => ?_⟩
    obtain ⟨_, here, names⟩ := sound.reference_of_mem_refTargets registered linked
    rw [found] at here
    cases here
    have waits : session.support? listener = some (pattern, listener.readyAt) := by
      simp [support?, referenceOf, found, names, sound.memberIndex?_eq registered]
    refine ⟨early, fun other active same => ?_⟩
    obtain ⟨rfl, anchor⟩ := same
    obtain ⟨active, stays⟩ := List.mem_filter.mp active
    refine unsupported _ (anchor_mem_inFlight active fun overdue => ?_) (anchor.symm ▸ waits)
    simpa [overdue, Option.any_eq_true, and_comm] using stays

theorem Thins.sweep (thins : Thins whole kept) (sound : kept.network.Sound) :
    Thins whole kept.sweepUnified := by
  have swept : kept.sweepUnified = kept.sweep := by
    simp only [sweepUnified, thins.unified]
  rw [swept]
  refine ⟨thins.unified, ?_, ?_⟩
  · rw [thins.same]
    rfl
  · have later : Thinned (Lost kept.network kept.sweep.Doomed) whole.active kept.active :=
      thins.thinned.mono fun listener lost => ⟨lost.reference, fun p m found linked =>
        (lost.hopeless p m found linked).imp_right fun none other active =>
          none other (List.mem_filter.mp active).1⟩
    apply later.trans_filter
    intro listener active dropped
    simp only [decide_eq_false_iff_not, not_or, Bool.not_eq_true] at dropped
    apply lost_of_swept sound (by simpa using dropped.1)
    intro support member waits
    simp [waits, member] at dropped

theorem Thins.abort (thins : Thins whole kept) :
    Thins { whole with aborted := true } { kept with aborted := true } :=
  ⟨thins.unified, by rw [thins.same], thins.thinned⟩

theorem Thins.feedWith (thins : Thins whole kept) (sound : kept.network.Sound) (token : Token) :
    (whole.feedWith id token).1 = (kept.feedWith sweepUnified token).1 ∧
      Thins (whole.feedWith id token).2 (kept.feedWith sweepUnified token).2 := by
  have aborted : whole.aborted = kept.aborted := by rw [thins.same]
  have time : whole.time = kept.time := by rw [thins.same]
  have network : whole.network = kept.network := by rw [thins.same]
  cases going : kept.aborted with
  | true =>
    rw [feedWith_refused token going, feedWith_refused token (aborted.trans going), time]
    exact ⟨rfl, thins⟩
  | false =>
    have ticked := thins.tick token
    have pending : (whole.tick token).pending = (kept.tick token).pending := by rw [ticked.same]
    have report : (whole.tick token).report = (kept.tick token).report := by rw [ticked.same]
    have rested := Thins.ofTick ticked
    cases waits : (kept.tick token).pending with
    | nil =>
      rw [feedWith_settled going waits,
        feedWith_settled (aborted.trans going) (pending.trans waits), report]
      rw [report] at rested
      refine ⟨rfl, rested.sweep ?_⟩
      rw [show (kept.tick token).session.network = kept.network from ticked.shared]
      exact sound
    | cons deepest rest =>
      rw [feedWith_deep going waits,
        feedWith_deep (aborted.trans going) (pending.trans waits), report, network]
      rw [report] at rested
      exact ⟨rfl, rested.abort⟩

theorem Thins.register (thins : Thins whole kept) (sound : kept.network.Sound)
    {automaton : Automaton} (compiled : automaton.Compiled) :
    (∃ error, whole.register automaton = .error error ∧ kept.register automaton = .error error) ∨
      ∃ whole' kept', whole.register automaton = .ok whole' ∧ kept.register automaton = .ok kept' ∧
        Thins whole' kept' := by
  have network : whole.network = kept.network := by rw [thins.same]
  have mode : whole.mode = .unified := by rw [thins.same]; exact thins.unified
  cases attached : kept.network.attach automaton true with
  | error error =>
    refine .inl ⟨error, ?_, ?_⟩
    · simp only [Session.register, mode, network, decide_true, attached]
      rfl
    · simp only [Session.register, thins.unified, decide_true, attached]
      rfl
  | ok grown =>
    obtain ⟨soundGrown, grows, _⟩ := Network.attach_grows sound compiled.sound attached
    refine .inr ⟨{ whole with network := grown }, { kept with network := grown }, ?_, ?_, ?_⟩
    · simp only [Session.register, mode, network, decide_true, attached]
      rfl
    · simp only [Session.register, thins.unified, decide_true, attached]
      rfl
    · refine ⟨thins.unified, by rw [thins.same], thins.thinned.mono fun listener lost => ?_⟩
      obtain ⟨site, found, refers⟩ := lost.reference
      refine ⟨⟨site, grows.site found, refers⟩, fun pattern member registered linked => ?_⟩
      obtain ⟨before, linkedBefore⟩ :=
        grows.refTargets sound soundGrown registered linked (Network.lt_of_site found)
      exact lost.hopeless pattern member before linkedBefore

theorem Thins.reset (thins : Thins whole kept) : Thins whole.reset kept.reset := by
  have same : whole.reset = kept.reset := by rw [thins.same]; rfl
  rw [same]
  exact ⟨by simp [Session.reset, start, thins.unified], rfl, .refl _ _⟩

theorem Thins.call (thins : Thins whole kept) (sound : kept.network.Sound) {call : Call}
    (compiled : call.Compiled) : (whole.call id call).1 = (kept.call sweepUnified call).1 ∧
      Thins (whole.call id call).2 (kept.call sweepUnified call).2 := by
  cases call with
  | feed token =>
    obtain ⟨answer, after⟩ := thins.feedWith sound token
    exact ⟨congrArg Answer.fed answer, after⟩
  | register automaton =>
    rcases thins.register sound compiled with ⟨error, refused, refused'⟩ | ⟨_, _, ok, ok', after⟩
    · simp only [Session.call, refused, refused']
      exact ⟨trivial, thins⟩
    · have network := congrArg Session.network after.same
      simp only [Session.call, ok, ok', network]
      exact ⟨trivial, after⟩
  | reset => exact ⟨rfl, thins.reset⟩

theorem thins_unified (network : Network) (limits : Limits) :
    Thins (unified network limits) (unified network limits) :=
  ⟨rfl, rfl, .refl _ _⟩

end Session

namespace Course
open Session

variable {course : Course}

theorem run_thins {whole : Session} (reached : course.Reached Opening sweepUnified)
    (thins : Thins whole course.session) (calls : List Call)
    (compiled : ∀ call ∈ calls, call.Compiled) :
    (whole.run id calls).1 = (course.session.run sweepUnified calls).1 ∧
      Thins (whole.run id calls).2 (course.session.run sweepUnified calls).2 := by
  induction calls generalizing whole course with
  | nil => exact ⟨rfl, thins⟩
  | cons call rest ih =>
    have sound := (reached.sound (fun _ opening => opening.starts) dropping_sweepUnified).1
    have now := compiled call List.mem_cons_self
    obtain ⟨answer, after⟩ := thins.call sound.network now
    obtain ⟨answers, final⟩ := ih (reached.call call now) after fun later member =>
      compiled later (List.mem_cons_of_mem _ member)
    simp only [run, answer]
    exact ⟨congrArg _ answers, final⟩

/-- A course that is swept runs beside one that is not. -/
theorem Reached.unswept {opened : Session → Prop}
    (unified : ∀ session, opened session → ∃ network limits, session = Session.unified network limits ∧
      network.Built)
    (reached : course.Reached opened sweepUnified) : ∃ whole : Course,
      whole.Reached opened id ∧ whole.tokens = course.tokens ∧ whole.joined = course.joined ∧
        Thins whole.session course.session := by
  induction reached with
  | @start session opening =>
    obtain ⟨network, limits, rfl, _⟩ := unified _ opening
    exact ⟨Course.start _, .start opening, rfl, rfl, thins_unified network limits⟩
  | @call course reached call compiled ih =>
    obtain ⟨whole, beside, tokens, joined, thins⟩ := ih
    have sound := (reached.sound (fun session opening => by
      obtain ⟨network, limits, rfl, built⟩ := unified session opening
      exact ⟨network, _, limits, rfl, built.sound⟩) dropping_sweepUnified).1
    refine ⟨whole.call id call, beside.call call compiled, ?_, ?_,
      (thins.call sound.network compiled).2⟩
    · have aborted : whole.session.aborted = course.session.aborted := by rw [thins.same]
      simp only [Course.call, tokens, aborted]
    · have time : whole.session.time = course.session.time := by rw [thins.same]
      cases call with
      | feed token => exact joined
      | reset => simp only [Course.call, joined]
      | register automaton =>
        rcases thins.register sound.network compiled with ⟨_, refused, refused'⟩ | ⟨_, _, ok, ok', _⟩
        · simp only [Course.call, refused, refused', joined]
        · simp only [Course.call, ok, ok', joined, time]

end Course

theorem Session.run_unswept {network : Network} (built : network.Built) (limits : Limits)
    (calls : List Call) (compiled : ∀ call ∈ calls, call.Compiled) :
    let swept := (unified network limits).run sweepUnified calls
    let whole := (unified network limits).run id calls
    whole.1 = swept.1 ∧ whole.2.log = swept.2.log := by
  intro swept whole
  obtain ⟨answers, thins⟩ := Course.run_thins (.start (.unified built))
    (thins_unified network limits) calls compiled
  have log := congrArg Session.log thins.same
  exact ⟨answers, log⟩

/-- Sweeping is transparent: over any network built, whatever calls are made and however deep
cascades may go, a session that is swept answers every call like one that is not, and differs from
it only in having fewer active listeners. -/
theorem sweep_transparent {network : Network} (built : network.Built) (limits : Limits)
    (calls : List Call) (compiled : ∀ call ∈ calls, call.Compiled) :
    let swept := (Session.unified network limits).run Session.sweepUnified calls
    let whole := (Session.unified network limits).run id calls
    swept.1 = whole.1 ∧ swept.2 = { whole.2 with active := swept.2.active } ∧
      swept.2.active.Sublist whole.2.active := by
  intro swept whole
  obtain ⟨answers, final⟩ := Course.run_thins (.start (.unified built))
    (Session.thins_unified network limits) calls compiled
  refine ⟨answers.symm, ?_, final.thinned.sublist⟩
  have same := final.same
  calc swept.2 = { swept.2 with active := swept.2.active } := rfl
    _ = { whole.2 with active := swept.2.active } := by rw [same]; rfl

/-- After a token that no sum takes, no left part waits any longer. -/
theorem sweep_transparent_stray :
    let calls : List Call := [.feed ⟨"X", ""⟩, .feed ⟨"N", "1"⟩]
    let swept := (Session.unified sumsNetwork {}).run Session.sweepUnified calls
    let whole := (Session.unified sumsNetwork {}).run id calls
    swept.2.active.length < whole.2.active.length ∧ swept.1 = whole.1 ∧
      swept.2 = { whole.2 with active := swept.2.active } ∧
      swept.2.active.Sublist whole.2.active :=
  ⟨by decide +kernel, sweep_transparent (.composed (.grammar sums_network)) {} _
    (by simp [Call.Compiled])⟩

end Constructicon
