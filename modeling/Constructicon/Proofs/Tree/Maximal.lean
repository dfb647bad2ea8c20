import Constructicon.Proofs.Tree.Roots

/-! Which trees are maximal. A query for maximal trees drops a root that is nested in another root,
and it looks inside roots only. Every tree that is not a root lies at the right edge of a root
nevertheless, so whatever any tree consumes is nested in some root, and what is left are the
trees that no tree of the log has as a child. -/
namespace Constructicon

namespace Tree

theorem exists_of_mem_descendantsOf {trees : List Tree} {event : Nat}
    (below : event ∈ descendantsOf trees) : ∃ tree ∈ trees, event ∈ tree.descendants := by
  induction trees with
  | nil => cases below
  | cons head rest ih =>
    rw [descendantsOf, List.mem_append] at below
    rcases below with later | here
    · obtain ⟨tree, present, nested⟩ := ih later
      exact ⟨tree, List.mem_cons_of_mem _ present, nested⟩
    · exact ⟨head, List.mem_cons_self, here⟩

end Tree

/-- The first `limit` of the trees that have the pattern and the span asked for. -/
def Query.asked (query : Query) (recognitions : List Recognition) : List Recognition :=
  let fitting := recognitions.filter fun recognition =>
    query.pattern.all (recognition.span.pattern = ·) ∧ query.minSpan ≤ recognition.span.length
  query.limit.elim fitting fitting.take

namespace Recognition
open Constructicon.Tree

/-- The tree of `inner` stands, at any position, right below the tree of `outer`. -/
def IsChildOf (inner outer : Recognition) : Prop :=
  inner.tree ∈ outer.children

/-- One step down a tree, at any position, to another tree of the same log. -/
def Holds (recognitions : List Recognition) (outer inner : Recognition) : Prop :=
  inner ∈ recognitions ∧ inner.IsChildOf outer

/-- The trees that no tree has as a child. -/
def unconsumed (recognitions : List Recognition) : List Recognition :=
  recognitions.filter fun recognition =>
    ∀ other ∈ recognitions, recognition.span.event ∉ eventsOf other.children

theorem IsLastChildOf.isChildOf {inner outer : Recognition} (last : inner.IsLastChildOf outer) :
    inner.IsChildOf outer :=
  List.mem_of_getLast? last

theorem StepsTo.holds {recognitions : List Recognition} {outer inner : Recognition}
    (step : StepsTo recognitions outer inner) : Holds recognitions outer inner :=
  ⟨step.1, step.2.isChildOf⟩

namespace Forest

variable {bound : Nat} {recognitions : List Recognition} {inner outer : Recognition}

/-- Below a tree of the log the constructions are trees of the log, completed earlier. -/
theorem construction (forest : Forest bound recognitions) (holds : outer ∈ recognitions)
    {span : Span} {children : List Tree}
    (child : .construction span children ∈ outer.children) :
    ∃ below, Holds recognitions outer below ∧ below.tree = .construction span children ∧
      span = below.span ∧ span.event < outer.span.event := by
  obtain ⟨older, below, known, same⟩ := forest.nested outer holds _ child span rfl
  have spans : some below.span = some span := congrArg span? same
  exact ⟨below, ⟨known, show below.tree ∈ _ from same ▸ child⟩, same,
    (Option.some.inj spans).symm, older⟩

theorem mem_eventsOf_iff (forest : Forest bound recognitions) (known : inner ∈ recognitions)
    (holds : outer ∈ recognitions) :
    inner.span.event ∈ eventsOf outer.children ↔ inner.IsChildOf outer := by
  constructor
  · intro listed
    obtain ⟨tree, child, named⟩ := List.mem_filterMap.mp listed
    cases tree with
    | terminal => cases named
    | construction span children =>
      obtain ⟨below, step, same, rfl, _⟩ := forest.construction holds child
      have named : below.span.event = inner.span.event := Option.some.inj named
      exact forest.ext step.1 known named ▸ step.2
  · exact fun child => List.mem_filterMap.mpr ⟨inner.tree, child, rfl⟩

theorem mem_unconsumed_iff (forest : Forest bound recognitions) (known : inner ∈ recognitions) :
    inner ∈ unconsumed recognitions ↔ ∀ other ∈ recognitions, ¬ inner.IsChildOf other := by
  simp only [unconsumed, List.mem_filter, decide_eq_true_eq, and_iff_right known]
  exact forall₂_congr fun other holds => not_congr (forest.mem_eventsOf_iff known holds)

/-- What is nested in a tree is what is reached from it by stepping to children. -/
theorem mem_descendants_iff (forest : Forest bound recognitions) (known : inner ∈ recognitions)
    (holds : outer ∈ recognitions) : inner.span.event ∈ outer.descendants ↔
      Relation.TransGen (Holds recognitions) outer inner := by
  constructor
  · intro nested
    -- A child was completed before the tree it is in.
    induction size : outer.span.event using Nat.strongRecOn generalizing outer with
    | ind size ih =>
      rcases List.mem_append.mp nested with direct | deeper
      · exact .single ⟨known, (forest.mem_eventsOf_iff known holds).mp direct⟩
      · obtain ⟨tree, child, nested⟩ := exists_of_mem_descendantsOf deeper
        cases tree with
        | terminal => cases nested
        | construction span children =>
          obtain ⟨below, step, same, rfl, older⟩ := forest.construction holds child
          have nested : inner.span.event ∈ below.tree.descendants := same ▸ nested
          exact .head step (ih _ (size ▸ older) step.1 nested rfl)
  · exact mem_descendants_of_transGen And.right

theorem mem_maximal_iff (forest : Forest bound recognitions) {kept : List Recognition}
    (among : kept ⊆ recognitions) : inner ∈ maximal kept ↔ inner ∈ kept ∧
      ∀ outer ∈ kept, ¬ Relation.TransGen (Holds recognitions) outer inner := by
  simp only [maximal, List.mem_filter, List.mem_flatMap, decide_eq_true_eq, not_exists, not_and]
  exact and_congr_right fun member => forall₂_congr fun outer holds =>
    not_congr (forest.mem_descendants_iff (among member) (among holds))

/-- A tree is maximal among the roots just if it is nobody's child. -/
theorem mem_maximal_roots_iff (forest : Forest bound recognitions) (known : inner ∈ recognitions) :
    inner ∈ maximal (roots recognitions) ↔ ∀ other ∈ recognitions, ¬ inner.IsChildOf other := by
  have among : roots recognitions ⊆ recognitions := List.filter_subset_self _
  rw [forest.mem_maximal_iff among, forest.mem_roots_iff known]
  constructor
  · rintro ⟨_, top⟩ other holds child
    -- The parent need not be a root, but it hangs at the right edge of one.
    obtain ⟨root, isRoot, _, path⟩ := forest.climbs holds
    have path : Relation.ReflTransGen (Holds recognitions) root other :=
      path.lift id fun _ _ => StepsTo.holds
    exact top root isRoot (.tail' path ⟨known, child⟩)
  · intro free
    refine ⟨fun other holds last => free other holds last.isChildOf, ?_⟩
    intro root isRoot path
    cases path with
    | single step => exact free root (among isRoot) step.2
    | tail before step =>
      obtain ⟨_, _, entry⟩ := Relation.TransGen.tail'_iff.mp before
      exact free _ entry.1 step.2

/-- The roots that are nested in no root are the trees that are nobody's child, in log order. -/
theorem maximal_roots (forest : Forest bound recognitions) :
    maximal (roots recognitions) = unconsumed recognitions := by
  have agree : ∀ recognition ∈ recognitions,
      recognition ∈ maximal (roots recognitions) ↔ recognition ∈ unconsumed recognitions :=
    fun recognition known =>
      (forest.mem_maximal_roots_iff known).trans (forest.mem_unconsumed_iff known).symm
  simp only [maximal, roots, unconsumed, List.filter_filter, List.mem_filter] at agree ⊢
  apply List.filter_congr
  intro recognition known
  have same := agree recognition known
  rwa [and_iff_right known, and_iff_right known, ← Bool.eq_iff_iff] at same

theorem select_maximalOnly (forest : Forest bound recognitions) {query : Query}
    (maximal : query.maximalOnly = true) :
    query.select recognitions = query.asked (unconsumed recognitions) := by
  simp only [Query.select, if_pos maximal, forest.maximal_roots, Query.asked]
  cases query.limit <;> rfl

end Forest

end Recognition

open Recognition in
/-- At every point of every course, in both modes, a query for maximal trees gives, in log order,
the trees of the completions that are a child of no other completion's tree; a pattern, a least
span and a limit give the first of those that have the pattern and the span. -/
theorem Course.results_maximal {course : Course}
    (reached : course.Reached Opening Session.sweepUnified) : ∃ recognitions,
      ofLog course.session.events = some recognitions ∧
      recognitions.map (·.span) =
        (course.session.events.filter (·.kind = .complete)).map Event.span ∧
      (∀ recognition ∈ recognitions, recognition ∈ unconsumed recognitions ↔
        ∀ other ∈ recognitions, ¬ recognition.IsChildOf other) ∧
      course.session.results { maximalOnly := true } = unconsumed recognitions ∧
      ∀ query : Query, query.maximalOnly = true →
        course.session.results query = query.asked (unconsumed recognitions) := by
  obtain ⟨sound, _⟩ := reached.sound (fun _ opening => opening.starts) Session.dropping_sweepUnified
  obtain ⟨recognitions, read, spans, forest⟩ := forest_ofLog sound.log
  have read : ofLog course.session.events = some recognitions := read
  have results (query : Query) : course.session.results query = query.select recognitions := by
    rw [Session.results, read, Option.map_some, Option.getD_some]
  refine ⟨recognitions, read, spans, fun _ known => forest.mem_unconsumed_iff known, ?_, ?_⟩
  · rw [results, forest.select_maximalOnly rfl]
    simp [Query.asked]
  · intro query maximal
    rw [results, forest.select_maximalOnly maximal]

/-- Of the sums of three numbers only the two of all three are maximal; one that is asked for with
a limit is the first of them. -/
theorem Course.results_maximal_sums :
    let course := sumsCourse {} numbers
    let spans := fun query : Query => (course.session.results query).map fun tree =>
      (tree.span.pattern, tree.span.start, tree.span.finish)
    spans { maximalOnly := true } = [("sum", 1, 3), ("sum", 1, 3)] ∧
      spans { maximalOnly := true, pattern := some "sum", minSpan := 2, limit := some 1 } =
        [("sum", 1, 3)] ∧
      ∃ recognitions, Recognition.ofLog course.session.events = some recognitions ∧
        course.session.results { maximalOnly := true } = Recognition.unconsumed recognitions := by
  obtain ⟨recognitions, read, _, _, kept, _⟩ := Course.results_maximal
    (sumsCourse_reached _ numbers (.unified (.composed (.grammar sums_network))))
  exact ⟨by decide +kernel, by decide +kernel, recognitions, read, kept⟩

end Constructicon
