import Mathlib.Data.List.Forall2
import Constructicon.Proofs.Automaton.Checked
import Constructicon.Proofs.Closure

/-! Closures as what silent steps lead to. The meaning of a closure is given by steps and their
number alone. A search keeps what waits in at most two levels, the lower first, so it finds every
node by a shortest way; the closure lists the elements among them, nearest first, and it depends on
which seeds there are, not on how they are listed. -/
namespace Constructicon

/-- A step for which no token is needed. None leaves an end. -/
inductive SilentStep {ν : Type} (kind : ν → NodeKind) (edges : List (Edge ν)) : ν → ν → Prop where
  | start {edge : Edge ν} (member : edge ∈ edges) (start : kind edge.source = .start) :
      SilentStep kind edges edge.source edge.target
  | junction {edge : Edge ν} (member : edge ∈ edges) (junction : kind edge.source = .routing) :
      SilentStep kind edges edge.source edge.target
  | bypass {edge : Edge ν} (member : edge ∈ edges) (element : kind edge.source = .element)
      (bypass : edge.bypass = true) : SilentStep kind edges edge.source edge.target

/-- A seed leads to a node in so many steps. -/
inductive InSteps {ν : Type} (step : ν → ν → Prop) (seeds : List ν) : Nat → ν → Prop where
  | seed {node : ν} (member : node ∈ seeds) : InSteps step seeds 0 node
  | next {count : Nat} {node next : ν} (before : InSteps step seeds count node)
      (onward : step node next) : InSteps step seeds (count + 1) next

/-- The least number of steps in which a seed leads to a node. -/
def Shortest {ν : Type} (step : ν → ν → Prop) (seeds : List ν) (count : Nat) (node : ν) : Prop :=
  InSteps step seeds count node ∧ ∀ other, InSteps step seeds other node → count ≤ other

section Steps

variable {ν : Type} {step : ν → ν → Prop} {seeds others : List ν} {node : ν} {count : Nat}

theorem InSteps.mono (reached : InSteps step seeds count node)
    (subset : ∀ seed ∈ seeds, seed ∈ others) : InSteps step others count node := by
  induction reached with
  | seed member => exact .seed (subset _ member)
  | next _ onward ih => exact .next ih onward

/-- Whatever is reached is reached from one of the seeds alone. -/
theorem InSteps.single (reached : InSteps step seeds count node) :
    ∃ seed ∈ seeds, InSteps step [seed] count node := by
  induction reached with
  | seed member => exact ⟨_, member, .seed (List.mem_singleton_self _)⟩
  | next _ onward ih =>
    obtain ⟨seed, member, reached⟩ := ih
    exact ⟨seed, member, .next reached onward⟩

theorem exists_inSteps_iff : (∃ count, InSteps step seeds count node) ↔
    ∃ seed ∈ seeds, ∃ count, InSteps step [seed] count node := by
  constructor
  · rintro ⟨count, reached⟩
    obtain ⟨seed, member, alone⟩ := reached.single
    exact ⟨seed, member, count, alone⟩
  · rintro ⟨seed, member, count, alone⟩
    exact ⟨count, alone.mono fun other same => List.mem_singleton.mp same ▸ member⟩

theorem InSteps.path {arcs : List (ν × ν)}
    (reached : InSteps (fun a b => (a, b) ∈ arcs) seeds count node) :
    ∃ seed ∈ seeds, Path arcs seed node := by
  induction reached with
  | seed member => exact ⟨_, member, .refl _⟩
  | next _ arc ih =>
    obtain ⟨seed, member, path⟩ := ih
    exact ⟨seed, member, path.snoc arc⟩

theorem Path.inSteps {arcs : List (ν × ν)} {first last : ν} (path : Path arcs first last)
    (reached : InSteps (fun a b => (a, b) ∈ arcs) seeds count first) :
    ∃ total, InSteps (fun a b => (a, b) ∈ arcs) seeds total last := by
  induction path generalizing count with
  | refl => exact ⟨count, reached⟩
  | step arc _ ih => exact ih (reached.next arc)

end Steps

section Levels

variable {ν : Type} {arcs : List (ν × ν)} {seeds : List ν} {known queue : List (ν × Nat)}

/-- A node is listed at a level no higher than `count`. -/
def Listed (items : List (ν × Nat)) (node : ν) (count : Nat) : Prop :=
  ∃ item ∈ items, item.1 = node ∧ item.2 ≤ count

/-- What a search has met and what waits, with levels: the levels ascend, those that wait are two
at most, and those of the nodes met are shortest. -/
structure Levelled (arcs : List (ν × ν)) (seeds : List ν) (known queue : List (ν × Nat)) :
    Prop where
  ordered : (known ++ queue).Pairwise fun a b => a.2 ≤ b.2
  spread : ∀ a ∈ queue, ∀ b ∈ queue, b.2 ≤ a.2 + 1
  reached : ∀ item ∈ known ++ queue, InSteps (fun a b => (a, b) ∈ arcs) seeds item.2 item.1
  least : ∀ item ∈ known, ∀ count, InSteps (fun a b => (a, b) ∈ arcs) seeds count item.1 →
    item.2 ≤ count
  seeded : ∀ seed ∈ seeds, Listed (known ++ queue) seed 0
  followed : ∀ item ∈ known, ∀ next, (item.1, next) ∈ arcs →
    Listed (known ++ queue) next (item.2 + 1)

theorem Listed.mono {items others : List (ν × Nat)} {node : ν} {count : Nat}
    (listed : Listed items node count) (subset : ∀ item ∈ items, item ∈ others) :
    Listed others node count := by
  obtain ⟨item, member, same, below⟩ := listed
  exact ⟨item, subset item member, same, below⟩

theorem levelled_seeds (arcs : List (ν × ν)) (seeds : List ν) :
    Levelled arcs seeds [] (seeds.map (·, 0)) := by
  have level {item : ν × Nat} (member : item ∈ seeds.map (·, 0)) :
      item.1 ∈ seeds ∧ item.2 = 0 := by
    obtain ⟨seed, present, rfl⟩ := List.mem_map.mp member
    exact ⟨present, rfl⟩
  constructor
  case ordered =>
    rw [List.nil_append, List.pairwise_map]
    exact List.pairwise_of_forall fun _ _ => Nat.le_refl 0
  case spread =>
    intro a _ b member
    rw [(level member).2]
    exact Nat.zero_le _
  case reached =>
    intro item member
    obtain ⟨member, zero⟩ := level member
    rw [zero]
    exact .seed member
  case least => exact fun _ member => absurd member List.not_mem_nil
  case seeded =>
    exact fun seed member => ⟨(seed, 0), List.mem_map_of_mem member, rfl, Nat.le_refl 0⟩
  case followed => exact fun _ member => absurd member List.not_mem_nil

/-- What waits is at the level of the first at least. -/
theorem Levelled.above {first : ν} {level : Nat}
    (levelled : Levelled arcs seeds known ((first, level) :: queue)) :
    ∀ item ∈ queue, level ≤ item.2 :=
  (List.pairwise_cons.mp (List.pairwise_append.mp levelled.ordered).2.1).1

theorem Levelled.below {first : ν} {level : Nat}
    (levelled : Levelled arcs seeds known ((first, level) :: queue)) :
    ∀ item ∈ known ++ (first, level) :: queue, item.2 ≤ level + 1 := by
  intro item member
  rcases List.mem_append.mp member with met | waiting
  · have under := (List.pairwise_append.mp levelled.ordered).2.2 item met _ List.mem_cons_self
    exact Nat.le_succ_of_le under
  · exact levelled.spread _ List.mem_cons_self item waiting

/-- Whatever is nearer than the next to be looked at has been met. -/
theorem Levelled.met {first : ν} {level : Nat}
    (levelled : Levelled arcs seeds known ((first, level) :: queue)) {count : Nat} {node : ν}
    (reached : InSteps (fun a b => (a, b) ∈ arcs) seeds count node) (nearer : count < level) :
    Listed known node count := by
  have waits {node : ν} {count : Nat} (nearer : count < level)
      (listed : Listed (known ++ (first, level) :: queue) node count) :
      Listed known node count := by
    obtain ⟨item, member, same, below⟩ := listed
    rcases List.mem_append.mp member with old | waiting
    · exact ⟨item, old, same, below⟩
    · rcases List.mem_cons.mp waiting with rfl | later
      · exact absurd nearer (Nat.not_lt.mpr below)
      · have above := levelled.above item later
        omega
  induction reached with
  | seed member => exact waits nearer (levelled.seeded _ member)
  | next _ arc ih =>
    obtain ⟨item, member, rfl, below⟩ := ih (by omega)
    obtain ⟨other, listed, same, bound⟩ := levelled.followed item member _ arc
    exact waits nearer ⟨other, listed, same, by omega⟩

theorem Levelled.skip {first : ν} {level : Nat}
    (levelled : Levelled arcs seeds known ((first, level) :: queue))
    (old : first ∈ known.map (·.1)) : Levelled arcs seeds known queue := by
  have fewer : (known ++ queue).Sublist (known ++ (first, level) :: queue) :=
    (List.sublist_cons_self _ _).append_left known
  obtain ⟨ordered, spread, reached, least, seeded, followed⟩ := levelled
  -- the entry that was met stands for the one that is passed over
  have still {node : ν} {count : Nat}
      (listed : Listed (known ++ (first, level) :: queue) node count) :
      Listed (known ++ queue) node count := by
    obtain ⟨item, member, rfl, below⟩ := listed
    rcases List.mem_append.mp member with met | waiting
    · exact ⟨item, List.mem_append_left _ met, rfl, below⟩
    · rcases List.mem_cons.mp waiting with rfl | later
      · obtain ⟨entry, met, same⟩ := List.mem_map.mp old
        have shorter : entry.2 ≤ level := least entry met level (same ▸ reached _ member)
        exact ⟨entry, List.mem_append_left _ met, same, Nat.le_trans shorter below⟩
      · exact ⟨item, List.mem_append_right _ later, rfl, below⟩
  constructor
  case ordered => exact ordered.sublist fewer
  case spread =>
    exact fun a left b right =>
      spread a (List.mem_cons_of_mem _ left) b (List.mem_cons_of_mem _ right)
  case reached => exact fun item member => reached item (fewer.subset member)
  case least => exact least
  case seeded => exact fun seed member => still (seeded seed member)
  case followed => exact fun item member next arc => still (followed item member next arc)

theorem Levelled.nearest {first : ν} {level count : Nat}
    (levelled : Levelled arcs seeds known ((first, level) :: queue))
    (new : first ∉ known.map (·.1))
    (reached : InSteps (fun a b => (a, b) ∈ arcs) seeds count first) : level ≤ count := by
  by_contra nearer
  obtain ⟨item, member, same, _⟩ := levelled.met reached (Nat.lt_of_not_le nearer)
  exact new (List.mem_map.mpr ⟨item, member, same⟩)

variable [DecidableEq ν]

theorem Levelled.follow {first : ν} {level : Nat}
    (levelled : Levelled arcs seeds known ((first, level) :: queue))
    (new : first ∉ known.map (·.1)) :
    Levelled arcs seeds (known ++ [(first, level)])
      (queue ++ (targets arcs first).map (·, level + 1)) := by
  have same : known ++ [(first, level)] ++ (queue ++ (targets arcs first).map (·, level + 1)) =
      known ++ (first, level) :: queue ++ (targets arcs first).map (·, level + 1) := by simp
  have here : (first, level) ∈ known ++ (first, level) :: queue := by simp
  have added {item : ν × Nat} (member : item ∈ (targets arcs first).map (·, level + 1)) :
      (first, item.1) ∈ arcs ∧ item.2 = level + 1 := by
    obtain ⟨next, follows, rfl⟩ := List.mem_map.mp member
    exact ⟨mem_targets.mp follows, rfl⟩
  constructor
  case ordered =>
    rw [same, List.pairwise_append]
    refine ⟨levelled.ordered, ?_, fun a before b member => (added member).2 ▸ levelled.below a before⟩
    exact List.pairwise_map.mpr (List.pairwise_of_forall fun _ _ => Nat.le_refl _)
  case spread =>
    intro a left b right
    have low : level ≤ a.2 := by
      rcases List.mem_append.mp left with waiting | member
      · exact levelled.above a waiting
      · exact (added member).2 ▸ Nat.le_succ level
    have high : b.2 ≤ level + 1 := by
      rcases List.mem_append.mp right with waiting | member
      · exact levelled.below b (List.mem_append_right _ (List.mem_cons_of_mem _ waiting))
      · exact Nat.le_of_eq (added member).2
    omega
  case reached =>
    intro item member
    rw [same] at member
    rcases List.mem_append.mp member with old | member
    · exact levelled.reached item old
    · obtain ⟨arc, next⟩ := added member
      rw [next]
      exact (levelled.reached _ here).next arc
  case least =>
    intro item member
    rcases List.mem_append.mp member with met | last
    · exact levelled.least item met
    · rw [List.mem_singleton.mp last]
      exact fun count => levelled.nearest new
  case seeded =>
    rw [same]
    exact fun seed member => (levelled.seeded seed member).mono fun _ => List.mem_append_left _
  case followed =>
    rw [same]
    intro item member next arc
    rcases List.mem_append.mp member with met | last
    · exact (levelled.followed item met next arc).mono fun _ => List.mem_append_left _
    · rw [List.mem_singleton.mp last] at arc ⊢
      have follows : (next, level + 1) ∈ (targets arcs first).map (·, level + 1) :=
        List.mem_map_of_mem (mem_targets.mpr arc)
      exact ⟨_, List.mem_append_right _ follows, rfl, Nat.le_refl _⟩

/-- A search that waits in levels gives every node it finds its least level. -/
theorem search_levelled (levelled : Levelled arcs seeds known queue) :
    ∃ final, final.map (·.1) = search arcs (known.map (·.1)) (queue.map (·.1)) ∧
      Levelled arcs seeds final [] := by
  generalize same : known.map (·.1) = found
  generalize rest : queue.map (·.1) = waiting
  fun_induction search arcs found waiting generalizing known queue with
  | case1 found =>
    obtain rfl := List.map_eq_nil_iff.mp rest
    exact ⟨known, same, levelled⟩
  | case2 found first waiting old ih =>
    obtain ⟨⟨_, level⟩, later, rfl, rfl, rfl⟩ := List.map_eq_cons_iff.mp rest
    subst same
    exact ih (levelled.skip old) rfl rfl
  | case3 found first waiting new ih =>
    obtain ⟨⟨_, level⟩, later, rfl, rfl, rfl⟩ := List.map_eq_cons_iff.mp rest
    subst same
    exact ih (levelled.follow new) (by simp) (by simp [Function.comp_def])

theorem reach_levelled (arcs : List (ν × ν)) (seeds : List ν) :
    ∃ final, final.map (·.1) = reach arcs seeds ∧ Levelled arcs seeds final [] := by
  obtain ⟨final, found, levelled⟩ := search_levelled (levelled_seeds arcs seeds)
  refine ⟨final, ?_, levelled⟩
  simpa [reach, Function.comp_def] using found

theorem mem_reach_iff {node : ν} : node ∈ reach arcs seeds ↔
    ∃ count, InSteps (fun a b => (a, b) ∈ arcs) seeds count node := by
  rw [mem_reach]
  constructor
  · rintro ⟨seed, member, path⟩
    exact path.inSteps (.seed member)
  · rintro ⟨count, reached⟩
    exact reached.path

end Levels

section Closures

variable {ν : Type} {kind : ν → NodeKind} {edges : List (Edge ν)}

theorem silentArcs_iff {a b : ν} : (a, b) ∈ silentArcs kind edges ↔ SilentStep kind edges a b := by
  constructor
  · intro arc
    obtain ⟨edge, kept, same⟩ := List.mem_map.mp arc
    obtain ⟨member, silent⟩ := List.mem_filter.mp kept
    cases same
    cases role : kind edge.source with
    | start => exact .start member role
    | routing => exact .junction member role
    | element => exact .bypass member role (by simpa [Edge.isSilent, role] using silent)
    | finish => simp [Edge.isSilent, role] at silent
  · intro silent
    cases silent with
    | start member start =>
      exact List.mem_map.mpr ⟨_, List.mem_filter.mpr ⟨member, by simp [Edge.isSilent, start]⟩, rfl⟩
    | junction member junction =>
      exact List.mem_map.mpr
        ⟨_, List.mem_filter.mpr ⟨member, by simp [Edge.isSilent, junction]⟩, rfl⟩
    | bypass member element bypass =>
      exact List.mem_map.mpr
        ⟨_, List.mem_filter.mpr ⟨member, by simp [Edge.isSilent, element, bypass]⟩, rfl⟩

theorem silentArcs_eq : (fun a b => (a, b) ∈ silentArcs kind edges) = SilentStep kind edges := by
  funext a b
  exact propext silentArcs_iff

variable [DecidableEq ν] {seeds others : List ν}

theorem mem_elements_iff {node : ν} : node ∈ (closure kind edges seeds).elements ↔
    kind node = .element ∧ ∃ count, InSteps (SilentStep kind edges) seeds count node := by
  rw [← silentArcs_eq, ← mem_reach_iff]
  simp only [closure, List.mem_filter, decide_eq_true_eq, and_comm]

theorem reachesEnd_iff : (closure kind edges seeds).reachesEnd = true ↔
    ∃ last, kind last = .finish ∧ ∃ count, InSteps (SilentStep kind edges) seeds count last := by
  simp only [← silentArcs_eq, ← mem_reach_iff, closure, List.any_eq_true, decide_eq_true_eq,
    and_comm]

theorem elements_levelled (kind : ν → NodeKind) (edges : List (Edge ν)) (seeds : List ν) :
    ∃ lengths : List Nat, lengths.Pairwise (· ≤ ·) ∧
      List.Forall₂ (Shortest (SilentStep kind edges) seeds) lengths
        (closure kind edges seeds).elements := by
  obtain ⟨final, found, levelled⟩ := reach_levelled (silentArcs kind edges) seeds
  obtain ⟨ordered, _, reached, least, _, _⟩ := levelled
  rw [List.append_nil] at ordered reached
  rw [silentArcs_eq] at reached least
  have elements : (closure kind edges seeds).elements =
      (final.filter fun item => kind item.1 = .element).map (·.1) := by
    rw [closure, ← found, List.filter_map]
    rfl
  refine ⟨(final.filter fun item => kind item.1 = .element).map (·.2), ?_, ?_⟩
  · exact List.pairwise_map.mpr (ordered.filter _)
  · rw [elements, List.forall₂_map_left_iff, List.forall₂_map_right_iff, List.forall₂_same]
    intro item kept
    have member := (List.mem_filter.mp kept).1
    exact ⟨reached item member, least item member⟩

theorem closure_mono (kind : ν → NodeKind) (edges : List (Edge ν))
    (subset : ∀ seed ∈ seeds, seed ∈ others) :
    (∀ node ∈ (closure kind edges seeds).elements, node ∈ (closure kind edges others).elements) ∧
      ((closure kind edges seeds).reachesEnd = true →
        (closure kind edges others).reachesEnd = true) := by
  constructor
  · intro node member
    obtain ⟨element, count, reached⟩ := mem_elements_iff.mp member
    exact mem_elements_iff.mpr ⟨element, count, reached.mono subset⟩
  · intro ends
    obtain ⟨last, final, count, reached⟩ := reachesEnd_iff.mp ends
    exact reachesEnd_iff.mpr ⟨last, final, count, reached.mono subset⟩

end Closures

/-- A closure ends, on cyclic edges too. It finds just the elements that silent steps lead to from a
seed, each once and by ascending lengths of their shortest ways, and tells whether such steps lead
to an end. Seeds count neither by their order nor by their number: the closure of several is made of
those of each. -/
theorem closure_exact {ν : Type} [DecidableEq ν] (kind : ν → NodeKind) (edges : List (Edge ν))
    (seeds : List ν) :
    (WellFounded (Function.swap (Turn (silentArcs kind edges))) ∧
      Relation.ReflTransGen (Turn (silentArcs kind edges)) ([], seeds)
        (reach (silentArcs kind edges) seeds, [])) ∧
    (closure kind edges seeds).elements.Nodup ∧
    (∀ node, node ∈ (closure kind edges seeds).elements ↔
      kind node = .element ∧ ∃ count, InSteps (SilentStep kind edges) seeds count node) ∧
    ((closure kind edges seeds).reachesEnd = true ↔
      ∃ last, kind last = .finish ∧ ∃ count, InSteps (SilentStep kind edges) seeds count last) ∧
    (∃ lengths : List Nat, lengths.Pairwise (· ≤ ·) ∧
      List.Forall₂ (Shortest (SilentStep kind edges) seeds) lengths
        (closure kind edges seeds).elements) ∧
    (∀ others, (∀ seed, seed ∈ others ↔ seed ∈ seeds) →
      (closure kind edges others).elements.Perm (closure kind edges seeds).elements ∧
      (closure kind edges others).reachesEnd = (closure kind edges seeds).reachesEnd) ∧
    (∀ node, node ∈ (closure kind edges seeds).elements ↔
      ∃ seed ∈ seeds, node ∈ (closure kind edges [seed]).elements) ∧
    ((closure kind edges seeds).reachesEnd = true ↔
      ∃ seed ∈ seeds, (closure kind edges [seed]).reachesEnd = true) := by
  have alone (node : ν) : (∃ count, InSteps (SilentStep kind edges) seeds count node) ↔
      ∃ seed ∈ seeds, ∃ count, InSteps (SilentStep kind edges) [seed] count node :=
    exists_inSteps_iff
  refine ⟨⟨turn_wellFounded _, turns_search _ _⟩, nodup_closure_elements _ _ _,
    fun node => mem_elements_iff, reachesEnd_iff, elements_levelled kind edges seeds, ?_, ?_, ?_⟩
  · intro others same
    obtain ⟨more, ends⟩ := closure_mono kind edges fun seed => (same seed).mp
    obtain ⟨less, also⟩ := closure_mono kind edges fun seed => (same seed).mpr
    constructor
    · rw [List.perm_ext_iff_of_nodup (nodup_closure_elements _ _ _) (nodup_closure_elements _ _ _)]
      exact fun node => ⟨more node, less node⟩
    · exact Bool.eq_iff_iff.mpr ⟨ends, also⟩
  · intro node
    simp only [mem_elements_iff, alone]
    constructor
    · rintro ⟨element, seed, member, reached⟩
      exact ⟨seed, member, element, reached⟩
    · rintro ⟨seed, member, element, reached⟩
      exact ⟨element, seed, member, reached⟩
  · simp only [reachesEnd_iff, alone]
    constructor
    · rintro ⟨last, final, seed, member, reached⟩
      exact ⟨seed, member, last, final, reached⟩
    · rintro ⟨seed, member, last, final, reached⟩
      exact ⟨last, final, seed, member, reached⟩

/-- From the start by a junction to one element, and directly to another, which leads back to the
junction; both may be passed over. -/
def detour : List (Edge Nat) :=
  [⟨0, 1, false⟩, ⟨1, 2, false⟩, ⟨0, 3, false⟩, ⟨3, 1, true⟩, ⟨2, 4, true⟩, ⟨4, 5, true⟩]

def detourKind : Nat → NodeKind
  | 0 => .start
  | 4 => .finish
  | 2 | 3 | 5 => .element
  | _ => .routing

/-- The element one step away comes first, although its edge stands later; what lies behind the end
is not found, and a seed that repeats adds nothing. -/
theorem closure_exact_detour :
    (closure detourKind detour [0]).elements = [3, 2] ∧
      (∃ near far, near ≤ far ∧ Shortest (SilentStep detourKind detour) [0] near 3 ∧
        Shortest (SilentStep detourKind detour) [0] far 2) ∧
      (∃ last, detourKind last = .finish ∧
        ∃ count, InSteps (SilentStep detourKind detour) [0] count last) ∧
      (¬ ∃ count, InSteps (SilentStep detourKind detour) [0] count 5) ∧
      (∀ seed, seed ∈ [0, 0] ↔ seed ∈ [0]) ∧
      (closure detourKind detour [0, 0]).elements.Perm
        (closure detourKind detour [0]).elements := by
  obtain ⟨_, _, members, ends, ⟨lengths, ascending, shortest⟩, seeded, _⟩ :=
    closure_exact detourKind detour [0]
  have found : closure detourKind detour [0] = ⟨[3, 2], true⟩ := by decide +kernel
  have same : ∀ seed, seed ∈ [0, 0] ↔ seed ∈ [0] := by simp
  rw [found] at members ends shortest
  refine ⟨by rw [found], ?_, ends.mp rfl, fun reached => ?_, same, (seeded [0, 0] same).1⟩
  · obtain _ | ⟨near, _ | ⟨far, _⟩⟩ := shortest
    exact ⟨_, _, (List.pairwise_cons.mp ascending).1 _ List.mem_cons_self, near, far⟩
  · exact absurd ((members 5).mpr ⟨rfl, reached⟩) (by decide)

end Constructicon
