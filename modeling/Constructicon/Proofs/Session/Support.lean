import Constructicon.Proofs.Session.Circle
import Constructicon.Proofs.Session.Index

/-! What keeps a reference waiting. An instance of a pattern is alive at a position if one of its
listeners is anchored there that is not overdue, or that waits for an instance alive in turn. A
sweep keeps just the overdue references that wait for such an instance. Passes over the references
that wait, repeated until one lets nothing go, find them too, whatever the order in which they are
taken up: what one pass finds alive only grows, and what the last one leaves needs nothing found. -/
namespace Constructicon

section Passes

variable {α κ : Type} {needs : α → Option κ} {gives : α → κ} {met given : List κ}
  {items all : List α}

/-- How what is given comes to be met: from a need to what the item that has it gives. -/
def supports (needs : α → Option κ) (gives : α → κ) (items : List α) : List (κ × κ) :=
  items.filterMap fun item => (needs item).map (·, gives item)

theorem mem_supports {arc : κ × κ} : arc ∈ supports needs gives items ↔
    ∃ item ∈ items, needs item = some arc.1 ∧ gives item = arc.2 := by
  simp only [supports, List.mem_filterMap, Option.map_eq_some_iff]
  constructor
  · rintro ⟨item, member, need, has, rfl⟩
    exact ⟨item, member, has, rfl⟩
  · rintro ⟨item, member, has, same⟩
    exact ⟨item, member, arc.1, has, by rw [same]⟩

variable [DecidableEq κ]

/-- One pass over what waits. An item whose need is met goes, and what it gives meets the needs of
those after it in the same pass. -/
def pass (needs : α → Option κ) (gives : α → κ) (met : List κ) : List α → List κ × List α
  | [] => (met, [])
  | item :: rest =>
    if (needs item).any (· ∈ met) then pass needs gives (gives item :: met) rest
    else
      let after := pass needs gives met rest
      (after.1, item :: after.2)

theorem pass_sublist (met : List κ) (items : List α) :
    (pass needs gives met items).2.Sublist items := by
  induction items generalizing met with
  | nil => exact .refl _
  | cons item rest ih =>
    rw [pass]
    split
    · exact (ih _).cons item
    · exact (ih _).cons_cons item

/-- What waits for ever: passes are made until one lets nothing go. -/
def stranded (needs : α → Option κ) (gives : α → κ) (met : List κ) (items : List α) : List α :=
  let after := pass needs gives met items
  if after.2.length = items.length then after.2 else stranded needs gives after.1 after.2
termination_by items.length
decreasing_by
  rename_i fewer
  exact Nat.lt_of_le_of_ne (pass_sublist met items).length_le fewer

theorem met_subset_pass (met : List κ) (items : List α) :
    met ⊆ (pass needs gives met items).1 := by
  induction items generalizing met with
  | nil => exact List.Subset.refl _
  | cons item rest ih =>
    rw [pass]
    split
    · exact fun key member => ih _ (List.mem_cons_of_mem _ member)
    · exact ih met

/-- Whatever a pass lets go has given something. -/
theorem gives_mem_pass (met : List κ) {item : α} (member : item ∈ items) :
    item ∈ (pass needs gives met items).2 ∨ gives item ∈ (pass needs gives met items).1 := by
  induction items generalizing met with
  | nil => cases member
  | cons first rest ih =>
    rw [pass]
    rcases List.mem_cons.mp member with rfl | later
    · split
      · exact .inr (met_subset_pass _ _ List.mem_cons_self)
      · exact .inl List.mem_cons_self
    · split
      · exact ih _ later
      · exact (ih _ later).imp_left (List.mem_cons_of_mem _)

/-- A pass that lets nothing go has met no need. -/
theorem pass_eq_of_length (same : (pass needs gives met items).2.length = items.length) :
    pass needs gives met items = (met, items) ∧
      ∀ item ∈ items, (needs item).any (· ∈ met) = false := by
  induction items generalizing met with
  | nil => exact ⟨rfl, by simp⟩
  | cons item rest ih =>
    rw [pass] at same ⊢
    split at same
    · have fewer : (pass needs gives (gives item :: met) rest).2.length ≤ rest.length :=
        (pass_sublist _ rest).length_le
      simp only [List.length_cons] at same
      omega
    · rename_i unmet
      obtain ⟨rest', others⟩ := ih (Nat.succ.inj same)
      rw [if_neg unmet, rest']
      refine ⟨rfl, fun other member => ?_⟩
      rcases List.mem_cons.mp member with rfl | later
      · exact Bool.eq_false_iff.mpr unmet
      · exact others other later

/-- A state between two passes over `all`, with `given` met at the outset. -/
structure Passing (needs : α → Option κ) (gives : α → κ) (given : List κ) (all : List α)
    (met : List κ) (items : List α) : Prop where
  outset : given ⊆ met
  grounded : met ⊆ reach (supports needs gives all) given
  within : items ⊆ all
  gone : ∀ item ∈ all, item ∈ items ∨ gives item ∈ met
  kept : (items.filter fun item =>
      ¬ (needs item).any (· ∈ reach (supports needs gives all) given)) =
    all.filter fun item => ¬ (needs item).any (· ∈ reach (supports needs gives all) given)

theorem pass_grounded (known : met ⊆ reach (supports needs gives all) given)
    (within : items ⊆ all) :
    (pass needs gives met items).1 ⊆ reach (supports needs gives all) given ∧
      ((pass needs gives met items).2.filter fun item =>
        ¬ (needs item).any (· ∈ reach (supports needs gives all) given)) =
      items.filter fun item =>
        ¬ (needs item).any (· ∈ reach (supports needs gives all) given) := by
  induction items generalizing met with
  | nil => exact ⟨known, rfl⟩
  | cons item rest ih =>
    have inside := List.cons_subset.mp within
    rw [pass]
    split
    · rename_i supported
      obtain ⟨need, has, here⟩ := (Option.any_eq_true _ _).mp supported
      have needed : need ∈ reach (supports needs gives all) given :=
        known (of_decide_eq_true here)
      have arc : (need, gives item) ∈ supports needs gives all :=
        mem_supports.mpr ⟨item, inside.1, has, rfl⟩
      obtain ⟨grounded, kept⟩ := ih (List.cons_subset.mpr ⟨reach_closed needed arc, known⟩) inside.2
      refine ⟨grounded, kept.trans (List.filter_cons_of_neg ?_).symm⟩
      simp [has, needed]
    · obtain ⟨grounded, kept⟩ := ih known inside.2
      refine ⟨grounded, ?_⟩
      rw [List.filter_cons, List.filter_cons, kept]

theorem Passing.pass (passing : Passing needs gives given all met items) :
    Passing needs gives given all (pass needs gives met items).1
      (pass needs gives met items).2 := by
  obtain ⟨grounded, kept⟩ := pass_grounded passing.grounded passing.within
  constructor
  case outset => exact List.Subset.trans passing.outset (met_subset_pass met items)
  case grounded => exact grounded
  case within => exact List.Subset.trans (pass_sublist met items).subset passing.within
  case gone =>
    intro item member
    rcases passing.gone item member with waits | given
    · exact gives_mem_pass met waits
    · exact .inr (met_subset_pass met items given)
  case kept => exact kept.trans passing.kept

/-- Where no need is met, nothing else will ever be given. -/
theorem Passing.closed (passing : Passing needs gives given all met items)
    (unmet : ∀ item ∈ items, (needs item).any (· ∈ met) = false) :
    reach (supports needs gives all) given ⊆ met := by
  intro key found
  obtain ⟨seed, start, path⟩ := mem_reach.mp found
  refine path.stays (fun arc member needed => ?_) (passing.outset start)
  obtain ⟨item, waits, has, gives⟩ := mem_supports.mp member
  rcases passing.gone item waits with left | given
  · have none := unmet item left
    simp [has, needed] at none
  · exact gives ▸ given

/-- What is left in the end is what waits for something that is never given. -/
theorem Passing.stranded_eq (passing : Passing needs gives given all met items) :
    stranded needs gives met items =
      all.filter fun item => ¬ (needs item).any (· ∈ reach (supports needs gives all) given) := by
  fun_induction stranded needs gives met items with
  | case1 met items after same =>
    obtain ⟨idle, unmet⟩ := pass_eq_of_length same
    have closed := passing.closed unmet
    have left : after.2 = items := congrArg Prod.snd idle
    rw [left, ← passing.kept, eq_comm, List.filter_eq_self]
    intro item waits
    have none := unmet item waits
    simp only [Option.any_eq_false, decide_eq_false_iff_not, decide_eq_true_eq, Bool.not_eq_true]
      at none ⊢
    exact fun need has found => none need has (closed found)
  | case2 met items after fewer ih => exact ih passing.pass

/-- The passes end: there are no more of them than items, but for one that changes nothing. -/
theorem exists_passes (needs : α → Option κ) (gives : α → κ) (met : List κ) (items : List α) :
    ∃ n ≤ items.length,
    let passes := (fun state : List κ × List α => pass needs gives state.1 state.2)^[n] (met, items)
    passes.2 = stranded needs gives met items ∧ pass needs gives passes.1 passes.2 = passes := by
  fun_induction stranded needs gives met items with
  | case1 met items after same =>
    obtain ⟨idle, _⟩ := pass_eq_of_length same
    exact ⟨0, Nat.zero_le _, (congrArg Prod.snd idle).symm, idle⟩
  | case2 met items after fewer ih =>
    obtain ⟨n, bound, ends⟩ := ih
    have less : after.2.length < items.length :=
      Nat.lt_of_le_of_ne (pass_sublist met items).length_le fewer
    exact ⟨n + 1, by omega, ends⟩

end Passes

/-- The instance that a listener belongs to, as a pattern with a position. -/
def Listener.flight (listener : Listener) : Nat × Nat :=
  (listener.pattern, listener.anchor)

namespace Session

variable (session : Session)

/-- A reference that could have been fed already. -/
def Due (listener : Listener) : Prop :=
  ∃ site name, session.network.sites[listener.node]? = some site ∧ site.reference = some name ∧
    listener.readyAt ≤ session.time

/-- A reference to a registered pattern. -/
def WaitsFor (listener : Listener) (pattern : Nat) : Prop :=
  ∃ site name, session.network.sites[listener.node]? = some site ∧ site.reference = some name ∧
    session.network.memberIndex? name = some pattern

/-- The instances that are alive: the least set of patterns with positions that holds those of the
listeners that are not due, and of those that wait for an instance of the set. -/
inductive Alive : (pattern position : Nat) → Prop where
  | resting {listener : Listener} (active : listener ∈ session.active)
      (rests : ¬ session.Due listener) : Alive listener.pattern listener.anchor
  | waiting {listener : Listener} {pattern : Nat} (active : listener ∈ session.active)
      (due : session.Due listener) (waits : session.WaitsFor listener pattern)
      (support : Alive pattern listener.readyAt) : Alive listener.pattern listener.anchor

/-- The instances of the listeners that are not overdue. -/
def flying (listed : List Listener) : List (Nat × Nat) :=
  (listed.filter fun listener => ¬ session.isOverdue listener).map Listener.flight

/-- The overdue references that passes over the active listeners leave over, the listeners being
taken up in the order of `listed`. -/
def hopeless (listed : List Listener) : List Listener :=
  stranded session.support? Listener.flight (session.flying listed)
    (listed.filter session.isOverdue)

/-- The instances found alive and the references left over after a number of passes. -/
def passes (listed : List Listener) (number : Nat) : List (Nat × Nat) × List Listener :=
  (fun state => pass session.support? Listener.flight state.1 state.2)^[number]
    (session.flying listed, listed.filter session.isOverdue)

/-- Drops what the passes leave over, by its ids. -/
def prune (listed : List Listener) : Session :=
  { session with
    active := session.active.filter fun listener =>
      listener.id ∉ (session.hopeless listed).map (·.id) }

variable {session} {listener : Listener} {listed : List Listener}

theorem isOverdue_iff : session.isOverdue listener = true ↔ session.Due listener := by
  unfold isOverdue referenceOf Due
  cases session.network.sites[listener.node]? with
  | none => simp
  | some site => cases reference : site.reference <;> simp [reference]

theorem support?_eq_some {support : Nat × Nat} : session.support? listener = some support ↔
    session.WaitsFor listener support.1 ∧ listener.readyAt = support.2 := by
  obtain ⟨pattern, position⟩ := support
  unfold support? referenceOf WaitsFor
  cases session.network.sites[listener.node]? with
  | none => simp
  | some site => cases reference : site.reference <;> simp [reference]

/-- What is found alive by a search, in whatever order the listeners are taken up. -/
theorem mem_alive_iff (active : ∀ listener, listener ∈ listed ↔ listener ∈ session.active)
    {pattern position : Nat} : (pattern, position) ∈
      reach (supports session.support? Listener.flight (listed.filter session.isOverdue))
        (session.flying listed) ↔ session.Alive pattern position := by
  constructor
  · intro found
    obtain ⟨seed, start, path⟩ := mem_reach.mp found
    have begun : session.Alive seed.1 seed.2 := by
      obtain ⟨listener, member, rfl⟩ := List.mem_map.mp start
      obtain ⟨here, rests⟩ := List.mem_filter.mp member
      refine .resting ((active listener).mp here) fun due => ?_
      simp [isOverdue_iff.mpr due] at rests
    have closed : ∀ arc ∈ supports session.support? Listener.flight
        (listed.filter session.isOverdue), session.Alive arc.1.1 arc.1.2 →
          session.Alive arc.2.1 arc.2.2 := by
      intro arc member alive
      obtain ⟨listener, here, has, gives⟩ := mem_supports.mp member
      obtain ⟨here, overdue⟩ := List.mem_filter.mp here
      obtain ⟨waits, ready⟩ := support?_eq_some.mp has
      rw [← gives]
      exact .waiting ((active listener).mp here) (isOverdue_iff.mp overdue) waits (ready ▸ alive)
    exact @Path.stays _ _ (fun one => session.Alive one.1 one.2) _ _ path closed begun
  · intro alive
    induction alive with
    | @resting listener here rests =>
      refine queue_subset_search (List.mem_map.mpr ⟨listener, ?_, rfl⟩)
      refine List.mem_filter.mpr ⟨(active listener).mpr here, ?_⟩
      exact decide_eq_true fun overdue => rests (isOverdue_iff.mp overdue)
    | @waiting listener pattern here due waits _ ih =>
      refine reach_closed ih (mem_supports.mpr ⟨listener, ?_, ?_, rfl⟩)
      · exact List.mem_filter.mpr ⟨(active listener).mpr here, isOverdue_iff.mpr due⟩
      · exact support?_eq_some.mpr ⟨waits, rfl⟩

theorem mem_inFlight_iff {pattern position : Nat} :
    (pattern, position) ∈ session.inFlight ↔ session.Alive pattern position :=
  mem_alive_iff fun _ => Iff.rfl

/-- What an overdue reference waits for is alive. -/
def Supported (session : Session) (listener : Listener) : Prop :=
  ∃ pattern, session.WaitsFor listener pattern ∧ session.Alive pattern listener.readyAt

theorem exists_support_iff {alive : List (Nat × Nat)}
    (known : ∀ pattern position, (pattern, position) ∈ alive ↔ session.Alive pattern position) :
    (∃ support, session.support? listener = some support ∧ support ∈ alive) ↔
      session.Supported listener := by
  constructor
  · rintro ⟨⟨pattern, position⟩, has, found⟩
    obtain ⟨waits, rfl⟩ := support?_eq_some.mp has
    exact ⟨pattern, waits, (known _ _).mp found⟩
  · rintro ⟨pattern, waits, alive⟩
    exact ⟨(pattern, listener.readyAt), support?_eq_some.mpr ⟨waits, rfl⟩, (known _ _).mpr alive⟩

theorem mem_sweep_iff : listener ∈ session.sweep.active ↔
    listener ∈ session.active ∧ (session.Due listener → session.Supported listener) := by
  have kept : session.sweep.active = session.active.filter fun listener =>
    ¬ session.isOverdue listener ∨ (session.support? listener).any (· ∈ session.inFlight) := rfl
  simp only [kept, List.mem_filter, decide_eq_true_eq, isOverdue_iff, Option.any_eq_true,
    exists_support_iff fun _ _ => mem_inFlight_iff, imp_iff_not_or]

theorem mem_hopeless_iff (active : ∀ listener, listener ∈ listed ↔ listener ∈ session.active) :
    listener ∈ session.hopeless listed ↔
      listener ∈ session.active ∧ session.Due listener ∧ ¬ session.Supported listener := by
  have outset : Passing session.support? Listener.flight (session.flying listed)
      (listed.filter session.isOverdue) (session.flying listed)
      (listed.filter session.isOverdue) :=
    ⟨List.Subset.refl _, fun one member => queue_subset_search member, List.Subset.refl _,
      fun _ member => .inl member, rfl⟩
  simp only [hopeless, outset.stranded_eq, List.mem_filter, active, isOverdue_iff,
    decide_eq_true_eq, Option.any_eq_true, exists_support_iff fun _ _ => mem_alive_iff active,
    and_assoc]

/-- The passes drop what the sweep drops, in whatever order they take the listeners up. -/
theorem prune_eq_sweep {tokens : List Token} (sound : session.Sound tokens)
    (active : ∀ listener, listener ∈ listed ↔ listener ∈ session.active) :
    session.prune listed = session.sweep := by
  have named {listener : Listener} (here : listener ∈ session.active) :
      listener.id ∈ (session.hopeless listed).map (·.id) ↔ listener ∈ session.hopeless listed := by
    refine ⟨fun member => ?_, fun member => List.mem_map_of_mem member⟩
    obtain ⟨other, lost, same⟩ := List.mem_map.mp member
    have there := ((mem_hopeless_iff active).mp lost).1
    exact List.inj_on_of_nodup_map sound.nodup_ids there here same ▸ lost
  have kept : (session.active.filter fun listener =>
      listener.id ∉ (session.hopeless listed).map (·.id)) = session.sweep.active := by
    refine List.filter_congr fun listener here => ?_
    have left : listener.id ∉ (session.hopeless listed).map (·.id) ↔
        listener ∈ session.sweep.active := by
      rw [named here, mem_hopeless_iff active, mem_sweep_iff, not_and, not_and, Classical.not_not]
      exact ⟨fun kept => ⟨here, kept here⟩, fun kept _ => kept.2⟩
    have sweeps : listener ∈ session.sweep.active ↔ ¬ session.isOverdue listener ∨
        (session.support? listener).any (· ∈ session.inFlight) := by
      refine List.mem_filter.trans ?_
      rw [decide_eq_true_eq]
      exact ⟨And.right, fun stays => ⟨here, stays⟩⟩
    exact decide_eq_decide.mpr (left.trans sweeps)
  exact congrArg (fun kept => { session with active := kept }) kept

/-- References that support one another, and that nothing else supports, are not alive. -/
theorem exists_outside {circle : Listener → Prop}
    (circular : ∀ listener ∈ session.active, circle listener → session.Due listener ∧
      ∀ pattern, session.WaitsFor listener pattern → ∀ other ∈ session.active,
        other.pattern = pattern → other.anchor = listener.readyAt → circle other)
    {pattern position : Nat} (alive : session.Alive pattern position) :
    ∃ listener ∈ session.active, listener.pattern = pattern ∧ listener.anchor = position ∧
      ¬ circle listener := by
  induction alive with
  | @resting listener active rests =>
    exact ⟨listener, active, rfl, rfl, fun inside => rests (circular listener active inside).1⟩
  | @waiting listener pattern active due waits _ ih =>
    obtain ⟨other, there, same, anchor, outside⟩ := ih
    refine ⟨listener, active, rfl, rfl, fun inside => outside ?_⟩
    exact (circular listener active inside).2 pattern waits other there same anchor

theorem circle_swept {circle : Listener → Prop}
    (circular : ∀ listener ∈ session.active, circle listener → session.Due listener ∧
      ∀ pattern, session.WaitsFor listener pattern → ∀ other ∈ session.active,
        other.pattern = pattern → other.anchor = listener.readyAt → circle other)
    (inside : circle listener) : listener ∉ session.sweep.active := by
  intro kept
  obtain ⟨active, supported⟩ := mem_sweep_iff.mp kept
  obtain ⟨due, onward⟩ := circular listener active inside
  obtain ⟨pattern, waits, alive⟩ := supported due
  obtain ⟨other, there, same, anchor, outside⟩ := exists_outside circular alive
  exact outside (onward pattern waits other there same anchor)

/-- The passes end, with no more of them than there are overdue references. -/
theorem passes_end (session : Session) (listed : List Listener) :
    ∃ number ≤ (listed.filter session.isOverdue).length,
      session.passes listed (number + 1) = session.passes listed number ∧
        (session.passes listed number).2 = session.hopeless listed := by
  obtain ⟨number, bound, left, idle⟩ := exists_passes session.support? Listener.flight
    (session.flying listed) (listed.filter session.isOverdue)
  exact ⟨number, bound, (Function.iterate_succ_apply' _ _ _).trans idle, left⟩

/-- The session when the tick of a token is over, before anything is swept away. -/
def ticked (session : Session) (token : Token) : Session :=
  { (session.tick token).session with time := (session.tick token).report.time }

end Session

namespace Course
open Session

variable {course : Course} {token : Token}

/-- What a token that is accepted leaves in a unified session: all that was there when its tick was
over but for the overdue references that wait for nothing alive. Passes over the references find
just these whatever their order, and the passes end; references that only support one another go. -/
theorem sweep_exact (reached : course.Reached Opening sweepUnified)
    (unified : course.session.mode = .unified)
    (accepted : (course.session.feed token).1.isOk = true) :
    let ended := course.session.ticked token
    ended.time = course.session.time + 1 ∧ (course.session.feed token).2 = ended.sweep ∧
    (∀ listener, listener ∈ ended.sweep.active ↔ listener ∈ ended.active ∧
      (ended.Due listener → ∃ pattern, ended.WaitsFor listener pattern ∧
        ended.Alive pattern listener.readyAt)) ∧
    (∀ node, ((ended.sweep.active.filter (·.node = node)).map (·.id)).Sublist
      ((ended.active.filter (·.node = node)).map (·.id))) ∧
    (∀ listed : List Listener, listed.Perm ended.active → ended.prune listed = ended.sweep ∧
      ∃ number ≤ (listed.filter ended.isOverdue).length,
        ended.passes listed (number + 1) = ended.passes listed number ∧
          (ended.passes listed number).2 = ended.hopeless listed) ∧
    ∀ circle : Listener → Prop,
      (∀ listener ∈ ended.active, circle listener → ended.Due listener ∧
        ∀ pattern, ended.WaitsFor listener pattern → ∀ other ∈ ended.active,
          other.pattern = pattern → other.anchor = listener.readyAt → circle other) →
      ∀ listener, circle listener → listener ∉ ended.sweep.active := by
  intro ended
  obtain ⟨sound, now⟩ := reached.sound (fun _ opening => opening.starts) dropping_sweepUnified
  obtain ⟨going, settled⟩ := feedWith_isOk.mp accepted
  have ticked : (course.session.tick token).Sound (course.tokens ++ [token]) :=
    sound_tick token sound now
  have whole : ended.Sound (course.tokens ++ [token]) :=
    ticked.session.withActive (List.Sublist.refl _) _ _
  have mode : ended.mode = .unified :=
    (mode_of_frame (course.session.tick_frame token)).trans unified
  refine ⟨?_, ?_, fun _ => mem_sweep_iff, fun node => ?_, fun listed perm => ?_,
    fun circle circular listener inside => circle_swept circular inside⟩
  · exact ticked.time.trans (by simp [now])
  · have fed : course.session.feed token = (_, sweepUnified ended) :=
      feedWith_settled going settled
    rw [fed]
    simp only [sweepUnified, mode]
  · exact (List.filter_sublist.filter _).map _
  · exact ⟨prune_eq_sweep whole fun _ => perm.mem_iff, ended.passes_end listed⟩

/-- An `A` that is begun keeps the references alive that wait for it and for one another. The token
after it ends it, and what is left are four references that wait in a circle. -/
theorem sweep_exact_circular :
    let first := Course.start (Session.unified Session.circular.composed {})
    let second := first.call sweepUnified (.feed ⟨"X", "x"⟩)
    let ended := second.session.ticked ⟨"Z", "z"⟩
    first.session.ticked ⟨"X", "x"⟩ = second.session ∧ second.session.active.length = 3 ∧
      ended.active.length = 4 ∧ (second.session.feed ⟨"Z", "z"⟩).2.active = [] ∧
      ended.prune ended.active.reverse = (second.session.feed ⟨"Z", "z"⟩).2 := by
  intro first second ended
  have opening : Opening first.session :=
    .unified (.composed (.grammar (Grammar.network_composed (by decide +kernel))))
  have reached : second.Reached Opening sweepUnified :=
    (Reached.start opening).call (.feed ⟨"X", "x"⟩) trivial
  have accepted : (second.session.feed ⟨"Z", "z"⟩).1.isOk = true := by decide +kernel
  obtain ⟨_, fed, _, _, orders, circles⟩ := sweep_exact reached (by decide +kernel) accepted
  have overdue : ∀ listener ∈ ended.active, ended.isOverdue listener = true := by decide +kernel
  have gone := circles (fun _ => True)
    (fun listener active _ =>
      ⟨isOverdue_iff.mp (overdue listener active), fun _ _ _ _ _ _ => trivial⟩)
  refine ⟨by decide +kernel, by decide +kernel, by decide +kernel, ?_, ?_⟩
  · rw [fed, List.eq_nil_iff_forall_not_mem]
    exact fun listener => gone listener trivial
  · rw [fed]
    exact (orders _ (List.reverse_perm _)).1

end Course

end Constructicon
