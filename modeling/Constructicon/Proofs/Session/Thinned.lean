import Constructicon.Proofs.Session.History

/-! Ticks with and without lost references. Some instances are doomed: they began in the past, and
no active listener belongs to them, so they never complete. A reference is lost when it only waits
for doomed instances. Two ticks that differ in lost references fire the same listeners and settle
the same completions, since no completion settled is doomed and what a firing plants belongs to an
instance that is not. -/
namespace Constructicon

/-- `kept` is `whole` without some listeners, all of them lost. -/
inductive Thinned (lost : Listener → Prop) : List Listener → List Listener → Prop where
  | nil : Thinned lost [] []
  | keep {whole kept : List Listener} (listener : Listener) (rest : Thinned lost whole kept) :
      Thinned lost (listener :: whole) (listener :: kept)
  | drop {whole kept : List Listener} {listener : Listener} (gone : lost listener)
      (rest : Thinned lost whole kept) : Thinned lost (listener :: whole) kept

namespace Thinned

variable {lost : Listener → Prop} {whole kept : List Listener}

theorem refl (lost : Listener → Prop) (listeners : List Listener) :
    Thinned lost listeners listeners := by
  induction listeners with
  | nil => exact .nil
  | cons listener rest ih => exact .keep listener ih

theorem sublist (thinned : Thinned lost whole kept) : kept.Sublist whole := by
  induction thinned with
  | nil => exact .refl _
  | keep listener rest ih => exact ih.cons_cons listener
  | drop gone rest ih => exact ih.cons _

theorem mono {more : Listener → Prop} (thinned : Thinned lost whole kept)
    (weaker : ∀ listener, lost listener → more listener) : Thinned more whole kept := by
  induction thinned with
  | nil => exact .nil
  | keep listener rest ih => exact .keep listener ih
  | drop gone rest ih => exact .drop (weaker _ gone) ih

theorem append (thinned : Thinned lost whole kept) (planted : List Listener) :
    Thinned lost (whole ++ planted) (kept ++ planted) := by
  induction thinned with
  | nil => exact refl lost planted
  | keep listener rest ih => exact .keep listener ih
  | drop gone rest ih => exact .drop gone ih

theorem filter (thinned : Thinned lost whole kept) (p : Listener → Bool) :
    Thinned lost (whole.filter p) (kept.filter p) := by
  induction thinned with
  | nil => exact .nil
  | keep listener rest ih =>
    cases passes : p listener with
    | true => simpa [passes] using .keep listener ih
    | false => simpa [passes] using ih
  | @drop whole kept listener gone rest ih =>
    cases passes : p listener with
    | true => simpa [passes] using .drop gone ih
    | false => simpa [passes] using ih

/-- A question that no lost listener answers does not tell the lists apart. -/
theorem filter_eq (thinned : Thinned lost whole kept) {p : Listener → Bool}
    (silent : ∀ listener, lost listener → p listener = false) : whole.filter p = kept.filter p := by
  induction thinned with
  | nil => rfl
  | keep listener rest ih => rw [List.filter_cons, List.filter_cons, ih]
  | drop gone rest ih => rw [List.filter_cons, silent _ gone, ih]; rfl

theorem trans_filter (thinned : Thinned lost whole kept) {p : Listener → Bool}
    (gone : ∀ listener ∈ kept, p listener = false → lost listener) :
    Thinned lost whole (kept.filter p) := by
  induction thinned with
  | nil => exact .nil
  | keep listener rest ih =>
    have later := ih fun other member => gone other (List.mem_cons_of_mem _ member)
    cases passes : p listener with
    | true => simpa [passes] using .keep listener later
    | false => simpa [passes] using .drop (gone listener List.mem_cons_self passes) later
  | drop missing rest ih => exact .drop missing (ih gone)

end Thinned

/-- A reference that waits for doomed instances only. -/
structure Lost (network : Network) (doomed : Nat → Nat → Prop) (listener : Listener) : Prop where
  reference : ∃ site, network.sites[listener.node]? = some site ∧ site.reference.isSome
  hopeless : ∀ (pattern : Nat) (member : Member), network.members[pattern]? = some member →
    listener.node ∈ network.refTargets member → doomed pattern listener.readyAt

/-- Two ticks of one network that differ in lost listeners at most, where the second has nothing
doomed in it. -/
structure Tick.Thins (network : Network) (doomed : Nat → Nat → Prop) (whole kept : Tick) : Prop where
  shared : kept.session.network = network
  unified : kept.session.mode = .unified
  same : whole = { kept with session := { kept.session with active := whole.session.active } }
  thinned : Thinned (Lost network doomed) whole.session.active kept.session.active
  active : ∀ listener ∈ kept.session.active, ¬ doomed listener.pattern listener.anchor
  pending : ∀ done ∈ kept.pending, ¬ doomed done.pattern done.start
  past : ∀ (pattern position : Nat), doomed pattern position → position < kept.report.time

namespace Tick
open Session

variable {network : Network} {doomed : Nat → Nat → Prop} {whole kept : Tick}

theorem fire_thinned (kept : Tick) (active : List Listener) (listener : Listener) (position : Nat)
    (elementType value : String) (subEvent : Option Nat) (path : List String) :
    ({ kept with session := { kept.session with active } } : Tick).fire listener position elementType
        value subEvent path =
      let fired := kept.fire listener position elementType value subEvent path
      { fired with session := { fired.session with
          active := active ++ kept.followers listener position } } := by
  rw [fire_eq, fire_eq]
  rfl

theorem Thins.fire (thins : Thins network doomed whole kept) {listener : Listener} {position : Nat}
    (alive : ¬ doomed listener.pattern (listener.start.getD position)) (elementType value : String)
    (subEvent : Option Nat) (path : List String) :
    Thins network doomed (whole.fire listener position elementType value subEvent path)
      (kept.fire listener position elementType value subEvent path) := by
  rw [thins.same, fire_thinned]
  constructor
  case shared => rw [fire_network, thins.shared]
  case unified => rw [fire_mode, thins.unified]
  case same => rfl
  case thinned =>
    rw [fire_active]
    exact thins.thinned.append _
  case active =>
    rw [fire_active]
    intro next member
    rcases List.mem_append.mp member with old | new
    · exact thins.active next old
    · obtain ⟨spot, _, _, start, _⟩ := mem_listenersAt new
      obtain ⟨_, _, same⟩ := List.mem_map.mp spot
      have pattern : listener.pattern = next.pattern := (Prod.mk.inj same).1
      rwa [Listener.anchor, start, ← pattern]
  case pending =>
    rw [fire_pending]
    intro done member
    rcases List.mem_append.mp member with old | new
    · exact thins.pending done old
    · rw [(mem_reached.mp new).2]
      exact alive
  case past =>
    rw [fire_time]
    exact thins.past

theorem Thins.whole_network (thins : Thins network doomed whole kept) :
    whole.session.network = network := by
  rw [thins.same]
  exact thins.shared

theorem Thins.whole_mode (thins : Thins network doomed whole kept) :
    whole.session.mode = .unified := by
  rw [thins.same]
  exact thins.unified

theorem Thins.tell (thins : Thins network doomed whole kept) (member : Member) (done : Completion) :
    Thins network doomed (whole.tell member done) (kept.tell member done) := by
  refine ⟨thins.shared, thins.unified, ?_, thins.thinned, thins.active, thins.pending,
    thins.past⟩
  rw [thins.same]
  rfl

/-- A completion that is not doomed finds the same references waiting on both sides. -/
theorem Thins.waitingAt (thins : Thins network doomed whole kept) {pattern position target : Nat}
    {member : Member} (found : network.members[pattern]? = some member)
    (linked : target ∈ network.refTargets member) (alive : ¬ doomed pattern position) :
    whole.session.waitingAt target position = kept.session.waitingAt target position := by
  apply thins.thinned.filter_eq
  intro listener lost
  apply decide_eq_false
  intro waits
  obtain ⟨rfl, rfl⟩ := waits
  exact alive (lost.hopeless pattern member found linked)

theorem Thins.complete (thins : Thins network doomed whole kept) {done : Completion}
    (alive : ¬ doomed done.pattern done.start) :
    Thins network doomed (whole.complete done) (kept.complete done) := by
  cases found : network.members[done.pattern]? with
  | none =>
    rwa [complete_none (by rwa [thins.whole_network]), complete_none (by rwa [thins.shared])]
  | some member =>
    have log : whole.session.log = kept.session.log := by rw [thins.same]
    simp only [Tick.complete, thins.whole_network, thins.shared, thins.whole_mode, thins.unified,
      found, log]
    apply List.foldl_rel (thins.tell member done)
    intro target linked t t' feeding
    rw [feeding.waitingAt found linked alive]
    refine List.foldl_rel feeding fun listener waiting u u' firing => firing.fire ?_ _ _ _ _
    obtain ⟨active, waits⟩ := List.mem_filter.mp waiting
    obtain ⟨_, ready⟩ := of_decide_eq_true waits
    rw [← ready]
    exact feeding.active listener active

theorem Thins.settle (thins : Thins network doomed whole kept) (depths : Nat) :
    Thins network doomed (whole.settle depths) (kept.settle depths) := by
  induction depths generalizing whole kept with
  | zero => rwa [settle_zero, settle_zero]
  | succ depths ih =>
    have pending : whole.pending = kept.pending := by rw [thins.same]
    have emptied : Thins network doomed { whole with pending := [] } { kept with pending := [] } := by
      refine ⟨thins.shared, thins.unified, ?_, thins.thinned, thins.active, fun _ none => ?_,
        thins.past⟩
      · rw [thins.same]
      · cases none
    rw [settle_succ, settle_succ, pending]
    exact ih (List.foldl_rel emptied fun done waits t t' settling =>
      settling.complete (thins.pending done waits))

end Tick

end Constructicon
