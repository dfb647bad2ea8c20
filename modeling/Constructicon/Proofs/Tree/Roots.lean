import Mathlib.Data.List.Nodup
import Mathlib.Logic.Relation
import Constructicon.Proofs.Tree.Reading

/-! Which trees are roots. A row of trees ends where its last tree ends and no other, so what a tree
has consumed at its very end is its last child. That child was completed earlier, so climbing from
a tree to one whose last child it is comes to an end, and it ends in a root. Hence every completion
of a log lies in the tree of a root, at its right edge. -/
namespace Constructicon

namespace Tree

theorem Tiles.ordered {first next : Nat} {trees : List Tree} (row : Tiles first next trees) :
    first ≤ next := by
  induction row with
  | nil => exact Nat.le_refl _
  | cons begins ordered row ih => omega

/-- Of the trees in a row only the last one ends where the row does. -/
theorem Tiles.ends_iff {first next : Nat} {trees : List Tree} (row : Tiles first next trees)
    {tree : Tree} (present : tree ∈ trees) :
    tree.extent.2 + 1 = next ↔ trees.getLast? = some tree := by
  induction row with
  | nil => cases present
  | @cons first next head rest begins ordered row ih =>
    cases row with
    | nil => simp [List.mem_singleton.mp present]
    | @cons _ _ second others begins' ordered' row' =>
      rw [List.getLast?_cons_cons]
      rcases List.mem_cons.mp present with rfl | later
      · constructor
        · intro ends
          have size := row'.ordered
          omega
        · exact fun last => (ih (List.mem_of_getLast? last)).mpr last
      · exact ih later

theorem mem_descendantsOf {trees : List Tree} {tree : Tree} {event : Nat} (present : tree ∈ trees)
    (below : event ∈ tree.descendants) : event ∈ descendantsOf trees := by
  induction trees with
  | nil => cases present
  | cons head rest ih =>
    rw [descendantsOf, List.mem_append]
    rcases List.mem_cons.mp present with rfl | later
    · exact .inr below
    · exact .inl (ih later)

end Tree

namespace Recognition
open Constructicon.Tree

/-- The tree of `inner` stands at the very end of the tree of `outer`. -/
def IsLastChildOf (inner outer : Recognition) : Prop :=
  outer.children.getLast? = some inner.tree

/-- One step down the right edge of a tree, to another tree of the same log. -/
def StepsTo (recognitions : List Recognition) (outer inner : Recognition) : Prop :=
  inner ∈ recognitions ∧ inner.IsLastChildOf outer

/-- Trees in which whatever is nested was completed before, below the event `bound`. -/
structure Forest (bound : Nat) (recognitions : List Recognition) : Prop where
  distinct : (recognitions.map (·.span.event)).Nodup
  bounded : ∀ recognition ∈ recognitions, recognition.span.event < bound
  tiles : ∀ recognition ∈ recognitions,
    Tiles recognition.span.start (recognition.span.finish + 1) recognition.children
  nested : ∀ recognition ∈ recognitions, ∀ child ∈ recognition.children, ∀ span,
    child.span? = some span → span.event < recognition.span.event ∧
      ∃ inner ∈ recognitions, inner.tree = child

theorem mem_coveredBy {recognition : Recognition} {event : Nat} :
    event ∈ recognition.coveredBy ↔ ∃ child ∈ recognition.children, ∃ span,
      child.span? = some span ∧ span.finish = recognition.span.finish ∧ span.event = event := by
  simp only [coveredBy, List.mem_filterMap, Option.ite_none_right_eq_some, Option.some.injEq]
  constructor
  · intro covered
    obtain ⟨span, ⟨child, present, spans⟩, ends, named⟩ := covered
    exact ⟨child, present, span, spans, ends, named⟩
  · intro covered
    obtain ⟨child, present, span, spans, ends, named⟩ := covered
    exact ⟨span, ⟨child, present, spans⟩, ends, named⟩

theorem mem_roots {recognitions : List Recognition} {recognition : Recognition} :
    recognition ∈ roots recognitions ↔ recognition ∈ recognitions ∧
      ∀ other ∈ recognitions, recognition.span.event ∉ other.coveredBy := by
  simp [roots]

namespace Forest

variable {bound : Nat} {recognitions : List Recognition} {inner outer : Recognition}

theorem ext (forest : Forest bound recognitions) (first : inner ∈ recognitions)
    (second : outer ∈ recognitions) (same : inner.span.event = outer.span.event) : inner = outer :=
  List.inj_on_of_nodup_map forest.distinct first second same

/-- What is consumed at the very end is the last child. -/
theorem mem_coveredBy_iff (forest : Forest bound recognitions) (known : inner ∈ recognitions)
    (holds : outer ∈ recognitions) :
    inner.span.event ∈ outer.coveredBy ↔ inner.IsLastChildOf outer := by
  have row := forest.tiles outer holds
  rw [mem_coveredBy]
  constructor
  · intro covered
    obtain ⟨child, present, span, spans, ends, named⟩ := covered
    obtain ⟨_, other, there, rfl⟩ := forest.nested outer holds child present span spans
    cases spans
    cases forest.ext there known named
    exact (row.ends_iff present).mp (congrArg Nat.succ ends)
  · intro last
    have present : inner.tree ∈ outer.children := List.mem_of_getLast? last
    have ends : inner.span.finish + 1 = outer.span.finish + 1 := (row.ends_iff present).mpr last
    exact ⟨inner.tree, present, inner.span, rfl, Nat.succ.inj ends, rfl⟩

theorem mem_roots_iff (forest : Forest bound recognitions) (known : inner ∈ recognitions) :
    inner ∈ roots recognitions ↔ ∀ other ∈ recognitions, ¬ inner.IsLastChildOf other := by
  rw [mem_roots, and_iff_right known]
  exact forall₂_congr fun other holds => not_congr (forest.mem_coveredBy_iff known holds)

theorem finish_eq (forest : Forest bound recognitions) (holds : outer ∈ recognitions)
    (last : inner.IsLastChildOf outer) : outer.span.finish = inner.span.finish := by
  have present : inner.tree ∈ outer.children := List.mem_of_getLast? last
  exact (Nat.succ.inj (((forest.tiles outer holds).ends_iff present).mpr last)).symm

theorem event_lt (forest : Forest bound recognitions) (holds : outer ∈ recognitions)
    (last : inner.IsLastChildOf outer) : inner.span.event < outer.span.event :=
  (forest.nested outer holds inner.tree (List.mem_of_getLast? last) inner.span rfl).1

/-- Climbing along right edges ends in a root: each step leads to a later completion. -/
theorem climbs (forest : Forest bound recognitions) (known : inner ∈ recognitions) :
    ∃ root ∈ roots recognitions, root.span.finish = inner.span.finish ∧
      Relation.ReflTransGen (StepsTo recognitions) root inner := by
  induction left : bound - inner.span.event using Nat.strongRecOn generalizing inner with
  | ind left ih =>
    by_cases top : inner ∈ roots recognitions
    · exact ⟨inner, top, rfl, .refl⟩
    · rw [forest.mem_roots_iff known] at top
      obtain ⟨outer, holds, last⟩ : ∃ outer ∈ recognitions, inner.IsLastChildOf outer := by
        simpa using top
      have later := forest.event_lt holds last
      have below := forest.bounded outer holds
      obtain ⟨root, isRoot, ends, path⟩ := ih _ (by omega) holds rfl
      exact ⟨root, isRoot, ends.trans (forest.finish_eq holds last), path.tail ⟨known, last⟩⟩

theorem climbs_strictly (forest : Forest bound recognitions) (known : inner ∈ recognitions)
    (lower : inner ∉ roots recognitions) : ∃ root ∈ roots recognitions,
      root.span.finish = inner.span.finish ∧
        Relation.TransGen (StepsTo recognitions) root inner := by
  obtain ⟨root, isRoot, ends, path⟩ := forest.climbs known
  rcases Relation.reflTransGen_iff_eq_or_transGen.mp path with same | steps
  · exact absurd (same ▸ isRoot) lower
  · exact ⟨root, isRoot, ends, steps⟩

end Forest

/-- What is reached from a tree by stepping to children, at any positions, is nested in it. -/
theorem mem_descendants_of_transGen {step : Recognition → Recognition → Prop}
    {outer inner : Recognition}
    (below : ∀ {upper lower : Recognition}, step upper lower → lower.tree ∈ upper.children)
    (path : Relation.TransGen step outer inner) : inner.span.event ∈ outer.descendants := by
  induction path using Relation.TransGen.head_induction_on with
  | single first =>
    exact List.mem_append_left _ (List.mem_filterMap.mpr ⟨_, below first, rfl⟩)
  | head first _ ih => exact List.mem_append_right _ (mem_descendantsOf (below first) ih)

/-- What lies along the right edge of a tree is nested in it. -/
theorem mem_descendants_of_steps {recognitions : List Recognition} {outer inner : Recognition}
    (path : Relation.TransGen (StepsTo recognitions) outer inner) :
    inner.span.event ∈ outer.descendants :=
  mem_descendants_of_transGen (fun step => List.mem_of_getLast? step.2) path

/-- The roots of some trees: in their order and each once, just those that are nobody's last child;
all others lie at the right edges of roots that end where they do. -/
structure Rooted (recognitions : List Recognition) : Prop where
  ordered : (roots recognitions).Sublist recognitions
  once : ((roots recognitions).map (·.span.event)).Nodup
  selected : ∀ recognition ∈ recognitions, recognition ∈ roots recognitions ↔
    ∀ other ∈ recognitions, ¬ recognition.IsLastChildOf other
  reached : ∀ recognition ∈ recognitions, recognition ∉ roots recognitions →
    ∃ root ∈ roots recognitions, root.span.finish = recognition.span.finish ∧
      Relation.TransGen (StepsTo recognitions) root recognition
  kept : ∀ recognition ∈ recognitions, recognition ∈ roots recognitions ∨
    ∃ root ∈ roots recognitions, recognition.span.event ∈ root.descendants
  unconsumed : ∀ root ∈ roots recognitions, ∀ other ∈ recognitions, root.tree ∈ other.children →
    root.span.finish ≠ other.span.finish

theorem Forest.rooted {bound : Nat} {recognitions : List Recognition}
    (forest : Forest bound recognitions) : Rooted recognitions where
  ordered := List.filter_sublist
  once := forest.distinct.sublist (List.filter_sublist.map _)
  selected recognition known := forest.mem_roots_iff known
  reached recognition known lower := forest.climbs_strictly known lower
  kept recognition known := by
    by_cases top : recognition ∈ roots recognitions
    · exact .inl top
    · obtain ⟨root, isRoot, _, path⟩ := forest.climbs_strictly known top
      exact .inr ⟨root, isRoot, mem_descendants_of_steps path⟩
  unconsumed root isRoot other holds child ends := by
    apply (mem_roots.mp isRoot).2 other holds
    exact mem_coveredBy.mpr ⟨root.tree, child, root.span, rfl, ends, rfl⟩

section Reading

variable {log : List Event} {earlier recognitions : List Recognition}

/-- A child that is a construction is a tree that was there before. -/
theorem child_of_span? {fire : Event} {span : Span}
    (spans : (child earlier fire).span? = some span) :
    ∃ inner ∈ earlier, inner.tree = child earlier fire := by
  unfold child at spans ⊢
  split at spans
  · rename_i recognition found
    obtain ⟨_, _, known⟩ := Option.bind_eq_some_iff.mp found
    exact ⟨recognition, (List.mem_filter.mp (List.mem_of_getLast? known)).1, rfl⟩
  · cases spans

/-- Every nested construction is the tree of a completion. -/
def Shared (recognitions : List Recognition) : Prop :=
  ∀ recognition ∈ recognitions, ∀ child ∈ recognition.children, ∀ span,
    child.span? = some span → ∃ inner ∈ recognitions, inner.tree = child

theorem Shared.assemble {completion : Event} {recognition : Recognition} (shared : Shared earlier)
    (assembled : assemble log earlier completion = some recognition) :
    Shared (earlier ++ [recognition]) := by
  have nested : ∀ known ∈ earlier ++ [recognition], ∀ child ∈ known.children, ∀ span,
      child.span? = some span → ∃ inner ∈ earlier, inner.tree = child := by
    intro known member tree present span spans
    rcases List.mem_append.mp member with old | new
    · exact shared known old tree present span spans
    · obtain ⟨fires, _, rfl⟩ := Option.map_eq_some_iff.mp assembled
      rw [List.mem_singleton.mp new] at present
      obtain ⟨fire, _, rfl⟩ := List.mem_map.mp present
      exact child_of_span? spans
  intro known member tree present span spans
  obtain ⟨inner, there, same⟩ := nested known member tree present span spans
  exact ⟨inner, List.mem_append_left _ there, same⟩

theorem Shared.foldlM {completions : List Event} (shared : Shared earlier)
    (folded : completions.foldlM (fun earlier completion =>
      (Recognition.assemble log earlier completion).map fun tree => earlier ++ [tree]) earlier =
        some recognitions) : Shared recognitions := by
  induction completions generalizing earlier with
  | nil =>
    cases folded
    exact shared
  | cons completion rest ih =>
    rw [List.foldlM_cons] at folded
    obtain ⟨next, first, folded⟩ := Option.bind_eq_some_iff.mp folded
    obtain ⟨recognition, assembled, rfl⟩ := Option.map_eq_some_iff.mp first
    exact ih (shared.assemble assembled) folded

theorem shared_ofLog (read : ofLog log = some recognitions) : Shared recognitions :=
  Shared.foldlM (List.forall_mem_nil _) read

end Reading

end Recognition

section Reading
open Recognition

variable {network : Network} {mode : Mode} {tokens : List Token} {log : List Event}

/-- The trees of a grounded log are a forest. -/
theorem forest_ofLog (sound : SoundLog network mode tokens log) : ∃ recognitions,
    ofLog log = some recognitions ∧
      recognitions.map (·.span) = (log.filter (·.kind = .complete)).map Event.span ∧
      Forest log.length recognitions := by
  obtain ⟨recognitions, folded, read⟩ := readUpTo sound log.length
  obtain ⟨spans, covers⟩ := read
  rw [List.take_length] at folded spans
  have ids : recognitions.map (·.span.event) =
      (log.filter (·.kind = .complete)).map (·.id) := by
    simpa [Event.span, Function.comp_def] using congrArg (List.map Span.event) spans
  have among : (recognitions.map (·.span.event)).Sublist (List.range log.length) := by
    rw [ids, ← ids_eq_range sound]
    exact List.filter_sublist.map _
  refine ⟨recognitions, folded, spans, ?_⟩
  constructor
  case distinct => exact List.nodup_range.sublist among
  case bounded =>
    intro recognition known
    exact List.mem_range.mp (among.subset (List.mem_map_of_mem known))
  case tiles => exact fun recognition known => (covers recognition known).tiles
  case nested =>
    intro recognition known child present span spans
    refine ⟨(covers recognition known).older _ ?_,
      shared_ofLog folded recognition known child present span spans⟩
    exact List.mem_append_left _ (List.mem_filterMap.mpr ⟨child, present, by rw [spans]; rfl⟩)

end Reading

/-- At every point of every course, aborted or not, the roots leave nothing out: each completion
has its tree, in log order; the roots are the trees that are the last child of no other; and every
other tree is reached from a root with the same end by stepping to the last child. -/
theorem Course.roots_complete {course : Course}
    (reached : course.Reached Opening Session.sweepUnified) : ∃ recognitions,
      Recognition.ofLog course.session.events = some recognitions ∧
      recognitions.map (·.span) =
        (course.session.events.filter (·.kind = .complete)).map Event.span ∧
      Recognition.Rooted recognitions := by
  obtain ⟨sound, _⟩ := reached.sound (fun _ opening => opening.starts) Session.dropping_sweepUnified
  obtain ⟨recognitions, read, spans, forest⟩ := forest_ofLog sound.log
  exact ⟨recognitions, read, spans, forest.rooted⟩

/-- Three numbers are a sum in two ways, and the sums of fewer numbers lie in these two. -/
theorem Course.roots_complete_sums :
    let course := sumsCourse {} numbers
    ((Recognition.ofLog course.session.events).map fun recognitions =>
      (Recognition.roots recognitions).map fun root => (root.span.start, root.span.finish)) =
        some [(1, 1), (1, 2), (1, 3), (1, 3)] ∧
      ∃ recognitions, Recognition.ofLog course.session.events = some recognitions ∧
      recognitions.map (·.span) =
        (course.session.events.filter (·.kind = .complete)).map Event.span ∧
      Recognition.Rooted recognitions :=
  ⟨by decide +kernel, Course.roots_complete
    (sumsCourse_reached _ numbers (.unified (.composed (.grammar sums_network))))⟩

end Constructicon
