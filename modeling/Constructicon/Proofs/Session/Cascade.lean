import Constructicon.Proofs.Session.Effects

/-! Cascades as queues. A completion that begins no later than the present tick feeds exactly the
references that waited for it before the cascade went on, since what is planted meanwhile waits
for the next tick. What each settled completion preserves is preserved by the cascade. -/
namespace Constructicon

namespace Session

/-- What no tick changes. -/
def frame (session : Session) : Network × Mode × Limits × Bool :=
  (session.network, session.mode, session.limits, session.aborted)

/-- What a session starts anew from. -/
def basis (session : Session) : Network × Mode × Limits :=
  (session.network, session.mode, session.limits)

theorem basis_of_frame {a b : Session} (same : a.frame = b.frame) : a.basis = b.basis :=
  congrArg (fun frame : Network × Mode × Limits × Bool => (frame.1, frame.2.1, frame.2.2.1)) same

theorem aborted_of_frame {a b : Session} (same : a.frame = b.frame) : a.aborted = b.aborted :=
  congrArg (·.2.2.2) same

theorem network_of_basis {a b : Session} (same : a.basis = b.basis) : a.network = b.network :=
  congrArg Prod.fst same

theorem mode_of_basis {a b : Session} (same : a.basis = b.basis) : a.mode = b.mode :=
  congrArg (·.2.1) same

theorem mode_of_frame {a b : Session} (same : a.frame = b.frame) : a.mode = b.mode :=
  mode_of_basis (basis_of_frame same)

theorem network_of_frame {a b : Session} (same : a.frame = b.frame) : a.network = b.network :=
  network_of_basis (basis_of_frame same)

theorem start_basis (network : Network) (mode : Mode) (limits : Limits) :
    (start network mode limits).basis = (network, mode, limits) := by
  cases mode with
  | unified => rfl
  | isolated => simp only [start, seedAll_eq]; rfl

theorem start_network (network : Network) (mode : Mode) (limits : Limits) :
    (start network mode limits).network = network :=
  congrArg Prod.fst (start_basis network mode limits)

theorem reset_of_basis {a b : Session} (same : a.basis = b.basis) : a.reset = b.reset :=
  congrArg (fun basis : Network × Mode × Limits => start basis.1 basis.2.1 basis.2.2) same

/-- The references that wait for a completion of `member` from `position`, target by target. -/
def feedable (session : Session) (member : Member) (position : Nat) : List Listener :=
  (session.network.refTargets member).flatMap (session.waitingAt · position)

theorem mem_feedable {session : Session} {member : Member} {position : Nat} {listener : Listener} :
    listener ∈ session.feedable member position ↔ listener ∈ session.active ∧
      listener.node ∈ session.network.refTargets member ∧ listener.readyAt = position := by
  simp only [feedable, waitingAt, List.mem_flatMap, List.mem_filter, decide_eq_true_eq]
  constructor
  · intro facts
    obtain ⟨_, target, active, rfl, ready⟩ := facts
    exact ⟨active, target, ready⟩
  · intro facts
    obtain ⟨active, target, ready⟩ := facts
    exact ⟨_, target, active, rfl, ready⟩

end Session

namespace Tick
open Session

/-- The event that records a completion. -/
def completing (tick : Tick) (member : Member) (done : Completion) : Event :=
  { id := tick.session.log.size, time := tick.report.time, start := done.start
    pattern := (tick.session.placeOf member.finish).pattern
    node := (tick.session.placeOf member.finish).node, kind := .complete
    cause := some done.cause }

/-- A completion recorded, before it feeds anything. -/
def tell (tick : Tick) (member : Member) (done : Completion) : Tick :=
  { tick with
    session := { tick.session with
      log := tick.session.log.push (tick.completing member done)
      firings := tick.session.firings.push (member.finish, ⟨tick.report.time, none⟩) }
    report := { tick.report with
      firedNodes := tick.report.firedNodes ++
        if tick.session.roleOf member.finish = some .element then
          [tick.session.placeOf member.finish] else []
      completedPatterns := tick.report.completedPatterns ++ [member.name] } }

@[simp] theorem tell_log (tick : Tick) (member : Member) (done : Completion) :
    (tick.tell member done).session.log.toList =
      tick.session.log.toList ++ [tick.completing member done] := by
  simp [tell]

/-- A completion, recorded as the event `event`, feeds `listener`. -/
def feedOne (member : Member) (done : Completion) (event : Nat) (tick : Tick)
    (listener : Listener) : Tick :=
  tick.fire listener done.start referenceType member.name (some event) done.path

theorem complete_isolated {tick : Tick} {done : Completion} {member : Member}
    (found : tick.session.network.members[done.pattern]? = some member)
    (isolated : tick.session.mode = .isolated) : tick.complete done = tick.tell member done := by
  simp only [complete, found, isolated]
  rfl

theorem complete_none {tick : Tick} {done : Completion}
    (none : tick.session.network.members[done.pattern]? = none) : tick.complete done = tick := by
  simp only [complete, none]

theorem waitingAt_fire {tick : Tick} {listener : Listener} {position target : Nat}
    {elementType value : String} {subEvent : Option Nat} {path : List String} {start : Nat}
    (early : start ≤ tick.report.time) :
    (tick.fire listener position elementType value subEvent path).session.waitingAt target start =
      tick.session.waitingAt target start := by
  have none : (tick.followers listener position).filter
      (fun planted => planted.node = target ∧ planted.readyAt = start) = [] := by
    rw [List.filter_eq_nil_iff]
    intro planted member waiting
    simp only [decide_eq_true_eq] at waiting
    have ready := (mem_listenersAt member).2.2.1
    omega
  unfold waitingAt
  rw [fire_active, List.filter_append, none, List.append_nil]

theorem foldl_feedOne_waitingAt {member : Member} {done : Completion} {event target : Nat}
    (listeners : List Listener) {tick : Tick} (early : done.start ≤ tick.report.time) :
    (listeners.foldl (feedOne member done event) tick).session.waitingAt target done.start =
      tick.session.waitingAt target done.start := by
  induction listeners generalizing tick with
  | nil => rfl
  | cons listener rest ih =>
    rw [List.foldl_cons, ih (by simpa [feedOne] using early)]
    exact waitingAt_fire early

theorem foldl_feedOne_time {member : Member} {done : Completion} {event : Nat}
    (listeners : List Listener) (tick : Tick) :
    (listeners.foldl (feedOne member done event) tick).report.time = tick.report.time := by
  induction listeners generalizing tick with
  | nil => rfl
  | cons listener rest ih => rw [List.foldl_cons, ih, feedOne, fire_time]

theorem foldl_targets {member : Member} {done : Completion} {event : Nat} (targets : List Nat)
    {tick origin : Tick} (early : done.start ≤ tick.report.time)
    (same : ∀ target, tick.session.waitingAt target done.start =
      origin.session.waitingAt target done.start) :
    targets.foldl (fun t target =>
        (t.session.waitingAt target done.start).foldl (feedOne member done event) t) tick =
      (targets.flatMap fun target => origin.session.waitingAt target done.start).foldl
        (feedOne member done event) tick := by
  induction targets generalizing tick with
  | nil => rfl
  | cons target rest ih =>
    rw [List.foldl_cons, List.flatMap_cons, List.foldl_append, same target]
    apply ih (by rwa [foldl_feedOne_time])
    intro other
    rw [foldl_feedOne_waitingAt _ early, same other]

theorem complete_unified {tick : Tick} {done : Completion} {member : Member}
    (found : tick.session.network.members[done.pattern]? = some member)
    (unified : tick.session.mode = .unified) (early : done.start ≤ tick.report.time) :
    tick.complete done = (tick.session.feedable member done.start).foldl
      (feedOne member done tick.session.log.size) (tick.tell member done) := by
  simp only [complete, found, unified]
  exact foldl_targets _ early fun _ => rfl

/-- The same tick with more completions to be settled first. -/
def await (tick : Tick) (queue : List Completion) : Tick :=
  { tick with pending := queue ++ tick.pending }

theorem fire_await (tick : Tick) (queue : List Completion) (listener : Listener) (position : Nat)
    (elementType value : String) (subEvent : Option Nat) (path : List String) :
    (tick.await queue).fire listener position elementType value subEvent path =
      (tick.fire listener position elementType value subEvent path).await queue := by
  rw [fire_eq, fire_eq]
  simp only [await, List.append_assoc]
  rfl

theorem complete_await (tick : Tick) (queue : List Completion) (done : Completion) :
    (tick.await queue).complete done = (tick.complete done).await queue := by
  have fires {α : Type} (items : List α) (step : Tick → α → Tick)
      (commutes : ∀ t item, step (t.await queue) item = (step t item).await queue) (t : Tick) :
      items.foldl step (t.await queue) = (items.foldl step t).await queue := by
    induction items generalizing t with
    | nil => rfl
    | cons item rest ih => rw [List.foldl_cons, List.foldl_cons, commutes, ih]
  cases found : tick.session.network.members[done.pattern]? with
  | none =>
    have found' : (tick.await queue).session.network.members[done.pattern]? = none := found
    rw [complete_none found, complete_none found']
  | some member =>
    have found' : (tick.await queue).session.network.members[done.pattern]? = some member := found
    cases mode : tick.session.mode with
    | isolated =>
      have mode' : (tick.await queue).session.mode = .isolated := mode
      rw [complete_isolated found mode, complete_isolated found' mode']
      rfl
    | unified =>
      have mode' : (tick.await queue).session.mode = .unified := mode
      simp only [complete, found, found', mode, mode']
      refine fires (tick.session.network.refTargets member) _ (fun t target => ?_)
        (tick.tell member done)
      exact fires _ _ (fun t listener => fire_await _ _ _ _ _ _ _ _) t

theorem foldl_complete_induction {P : Tick → Prop}
    (step : ∀ tick done rest, tick.pending = done :: rest → P tick →
      P (complete { tick with pending := rest } done))
    (queue : List Completion) {tick : Tick} (holds : P (tick.await queue)) :
    P (queue.foldl complete tick) := by
  induction queue generalizing tick with
  | nil => exact holds
  | cons done rest ih =>
    apply ih
    have next := step (tick.await (done :: rest)) done (rest ++ tick.pending) rfl holds
    rw [← complete_await]
    exact next

theorem settle_zero (tick : Tick) : tick.settle 0 = tick := by
  unfold settle
  split <;> simp_all

theorem settle_nil {tick : Tick} (none : tick.pending = []) (depths : Nat) :
    tick.settle depths = tick := by
  unfold settle
  split <;> simp_all

theorem settle_succ (tick : Tick) (depths : Nat) : tick.settle (depths + 1) =
    (tick.pending.foldl complete { tick with pending := [] }).settle depths := by
  obtain ⟨session, report, pending⟩ := tick
  cases pending with
  | nil => exact (settle_nil rfl _).trans (settle_nil rfl _).symm
  | cons done rest => rfl

theorem settle_induction {P : Tick → Prop}
    (step : ∀ tick done rest, tick.pending = done :: rest → P tick →
      P (complete { tick with pending := rest } done))
    (depths : Nat) {tick : Tick} (holds : P tick) : P (tick.settle depths) := by
  induction depths generalizing tick with
  | zero =>
    rw [settle_zero]
    exact holds
  | succ depths ih =>
    rw [settle_succ]
    refine ih (foldl_complete_induction step _ ?_)
    simpa [await] using holds

section Frame

theorem fire_frame (tick : Tick) (listener : Listener) (position : Nat)
    (elementType value : String) (subEvent : Option Nat) (path : List String) :
    (tick.fire listener position elementType value subEvent path).session.frame =
      tick.session.frame := by
  rw [fire_eq]
  rfl

theorem foldl_frame {α : Type} {step : Tick → α → Tick} (items : List α) (tick : Tick)
    (stays : ∀ t item, (step t item).session.frame = t.session.frame) :
    (items.foldl step tick).session.frame = tick.session.frame := by
  induction items generalizing tick with
  | nil => rfl
  | cons item rest ih => rw [List.foldl_cons, ih, stays]

theorem complete_frame (tick : Tick) (done : Completion) :
    (tick.complete done).session.frame = tick.session.frame := by
  cases found : tick.session.network.members[done.pattern]? with
  | none => rw [complete_none found]
  | some member =>
    cases mode : tick.session.mode with
    | isolated => rw [complete_isolated found mode]; rfl
    | unified =>
      simp only [complete, found, mode]
      exact foldl_frame _ _ fun t target => foldl_frame _ t fun t listener => fire_frame ..

theorem settle_frame (tick : Tick) (depths : Nat) :
    (tick.settle depths).session.frame = tick.session.frame :=
  settle_induction (P := fun t => t.session.frame = tick.session.frame)
    (fun _ _ _ _ before => (complete_frame ..).trans before) depths rfl

/-- Where no completion brings about another, one depth settles them all. -/
theorem settle_once {tick : Tick}
    (barren : ∀ (t : Tick) (done : Completion), t.session.frame = tick.session.frame →
      (t.complete done).pending = t.pending) (depths : Nat) :
    tick.settle (depths + 1) = tick.pending.foldl complete { tick with pending := [] } ∧
      (tick.settle (depths + 1)).pending = [] := by
  have stays (queue : List Completion) (t : Tick) (same : t.session.frame = tick.session.frame) :
      (queue.foldl complete t).pending = t.pending := by
    induction queue generalizing t with
    | nil => rfl
    | cons done rest ih =>
      rw [List.foldl_cons, ih _ ((complete_frame t done).trans same), barren t done same]
  have none := stays tick.pending { tick with pending := [] } rfl
  rw [settle_succ, settle_nil none]
  exact ⟨rfl, none⟩

end Frame

end Tick

namespace Session

theorem tick_frame (session : Session) (token : Token) :
    (session.tick token).session.frame = session.frame := by
  rw [tick_eq, Tick.settle_frame, Tick.foldl_frame _ _ fun t listener => Tick.fire_frame .., opened_eq]
  rfl

end Session

end Constructicon
