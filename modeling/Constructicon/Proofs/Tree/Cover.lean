import Constructicon.Tree.Recognise

/-! Rows of trees. A row covers a stretch of ticks when its trees follow one another without a gap,
its leaves are the tokens of those ticks, and every construction nested in it lies within the
stretch and was completed before what encloses it. Rows are put together end to end, and a
construction over a row is itself a row of one; so no construction occurs twice. -/
namespace Constructicon

namespace Tree

/-- The first and the last tick of a tree. -/
def extent : Tree → Nat × Nat
  | .terminal leaf => (leaf.position, leaf.position)
  | .construction span _ => (span.start, span.finish)

/-- A row of trees without gaps, from the tick `first` to the one before `next`. -/
inductive Tiles : Nat → Nat → List Tree → Prop where
  | nil (first : Nat) : Tiles first first []
  | cons {first next : Nat} {tree : Tree} {rest : List Tree} (begins : tree.extent.1 = first)
      (ordered : first ≤ tree.extent.2) (row : Tiles (tree.extent.2 + 1) next rest) :
      Tiles first next (tree :: rest)

/-- Every construction was completed after those right below it, at every depth. -/
inductive Descending : Tree → Prop where
  | terminal (leaf : Terminal) : Descending (.terminal leaf)
  | construction {span : Span} {children : List Tree}
      (older : ∀ child ∈ children, ∀ inner, child.span? = some inner → inner.event < span.event)
      (each : ∀ child ∈ children, Descending child) : Descending (.construction span children)

/-- The completions of all constructions in a row, at any depth. -/
def nested (trees : List Tree) : List Nat :=
  eventsOf trees ++ descendantsOf trees

theorem Tiles.append {first middle next : Nat} {left right : List Tree}
    (before : Tiles first middle left) (after : Tiles middle next right) :
    Tiles first next (left ++ right) := by
  induction before with
  | nil => exact after
  | cons begins ordered row ih => exact .cons begins ordered (ih after)

theorem terminalsOf_append (left right : List Tree) :
    terminalsOf (left ++ right) = terminalsOf left ++ terminalsOf right := by
  induction left with
  | nil => rfl
  | cons tree rest ih => simp only [List.cons_append, terminalsOf, ih, List.append_assoc]

theorem descendantsOf_append (left right : List Tree) :
    descendantsOf (left ++ right) = descendantsOf right ++ descendantsOf left := by
  induction left with
  | nil => simp [descendantsOf]
  | cons tree rest ih => simp only [List.cons_append, descendantsOf, ih, List.append_assoc]

theorem nested_append (left right : List Tree) :
    (nested (left ++ right)).Perm (nested left ++ nested right) := by
  have swap : (descendantsOf right ++ descendantsOf left).Perm
      (descendantsOf left ++ descendantsOf right) := List.perm_append_comm
  unfold nested
  rw [descendantsOf_append, eventsOf, List.filterMap_append, List.append_assoc, List.append_assoc]
  refine .append_left _ ?_
  refine .trans (.append_left _ swap) ?_
  rw [← List.append_assoc, ← List.append_assoc]
  exact .append_right _ List.perm_append_comm

theorem mem_nested_append {left right : List Tree} {event : Nat} :
    event ∈ nested (left ++ right) ↔ event ∈ nested left ∨ event ∈ nested right := by
  rw [(nested_append left right).mem_iff, List.mem_append]

theorem nested_construction (span : Span) (children : List Tree) :
    nested [.construction span children] = span.event :: nested children := rfl

end Tree

open Constructicon.Tree

/-- A row of trees over the ticks from `first` to the one before `next`, all of whose constructions
were completed before the event `bound`. -/
structure Covers (log : List Event) (tokens : List Token) (bound first next : Nat)
    (trees : List Tree) : Prop where
  ordered : first ≤ next
  tiles : Tiles first next trees
  positions : (terminalsOf trees).map (·.position) = List.range' first (next - first)
  tokens : ∀ leaf ∈ terminalsOf trees,
    tokens[leaf.position - 1]? = some ⟨leaf.elementType, leaf.elementValue⟩
  older : ∀ id ∈ nested trees, id < bound
  within : ∀ id ∈ nested trees, ∃ event, log[id]? = some event ∧ first ≤ event.start ∧
    event.start ≤ event.time ∧ event.time < next
  descending : ∀ tree ∈ trees, tree.Descending
  distinct : (nested trees).Nodup

namespace Covers

variable {log : List Event} {tokens : List Token} {bound first middle next : Nat}
  {left right trees : List Tree}

theorem nil (log : List Event) (tokens : List Token) (bound first : Nat) :
    Covers log tokens bound first first [] := by
  constructor <;> simp [terminalsOf, nested, eventsOf, descendantsOf, Tiles.nil]

theorem mono {later : Nat} (covers : Covers log tokens bound first next trees)
    (after : bound ≤ later) : Covers log tokens later first next trees :=
  { covers with older := fun id member => Nat.lt_of_lt_of_le (covers.older id member) after }

theorem append (before : Covers log tokens bound first middle left)
    (after : Covers log tokens bound middle next right) :
    Covers log tokens bound first next (left ++ right) where
  ordered := Nat.le_trans before.ordered after.ordered
  tiles := before.tiles.append after.tiles
  positions := by
    have ordered := before.ordered
    have ordered' := after.ordered
    rw [terminalsOf_append, List.map_append, before.positions, after.positions]
    have size : next - first = (middle - first) + (next - middle) := by omega
    have join := List.range'_append_1 (s := first) (m := middle - first) (n := next - middle)
    rw [show first + (middle - first) = middle by omega] at join
    rw [size, join]
  tokens leaf member := by
    rw [terminalsOf_append] at member
    exact (List.mem_append.mp member).elim (before.tokens leaf) (after.tokens leaf)
  older id member := (mem_nested_append.mp member).elim (before.older id) (after.older id)
  within id member := by
    rcases mem_nested_append.mp member with here | there
    · obtain ⟨event, found, begins, spans, ends⟩ := before.within id here
      exact ⟨event, found, begins, spans, Nat.lt_of_lt_of_le ends after.ordered⟩
    · obtain ⟨event, found, begins, rest⟩ := after.within id there
      exact ⟨event, found, Nat.le_trans before.ordered begins, rest⟩
  descending tree member :=
    (List.mem_append.mp member).elim (before.descending tree) (after.descending tree)
  distinct := by
    rw [(nested_append left right).nodup_iff, List.nodup_append]
    refine ⟨before.distinct, after.distinct, fun id here other there same => ?_⟩
    subst same
    -- one completion cannot lie on both sides of the middle
    obtain ⟨event, found, _, spans, ends⟩ := before.within id here
    obtain ⟨event', found', begins, _⟩ := after.within id there
    rw [found] at found'
    cases found'
    omega

theorem terminal {leaf : Terminal} {position : Nat} (here : leaf.position = position)
    (current : tokens[position - 1]? = some ⟨leaf.elementType, leaf.elementValue⟩) :
    Covers log tokens bound position (position + 1) [.terminal leaf] where
  ordered := Nat.le_succ _
  tiles := .cons here (Nat.le_of_eq here.symm) (by rw [extent, here]; exact .nil _)
  positions := by simp [terminalsOf, Tree.terminals, here]
  tokens other member := by
    rw [List.mem_singleton.mp member, here]
    exact current
  older id member := by simp [nested, eventsOf, descendantsOf, descendants, span?] at member
  within id member := by simp [nested, eventsOf, descendantsOf, descendants, span?] at member
  descending tree member := by
    rw [List.mem_singleton.mp member]
    exact .terminal leaf
  distinct := by simp [nested, eventsOf, descendantsOf, descendants, span?]

theorem descending_construction {span : Span} {children : List Tree}
    (covers : Covers log tokens span.event first next children) :
    Descending (.construction span children) := by
  refine .construction (fun child present inner same => covers.older _ ?_) covers.descending
  exact List.mem_append_left _ (List.mem_filterMap.mpr ⟨child, present, by simp [same]⟩)

/-- A construction over a row that was complete when the construction was. -/
theorem construction {span : Span} {children : List Tree} {event : Event}
    (covers : Covers log tokens span.event span.start (span.finish + 1) children)
    (recorded : log[span.event]? = some event) (start : event.start = span.start)
    (finish : event.time = span.finish) (spans : span.start ≤ span.finish)
    (earlier : span.event < bound) : Covers log tokens bound span.start (span.finish + 1)
      [.construction span children] where
  ordered := Nat.le_succ_of_le spans
  tiles := .cons rfl spans (.nil _)
  positions := by simpa [terminalsOf, Tree.terminals] using covers.positions
  tokens leaf member := by
    apply covers.tokens leaf
    simpa [terminalsOf, Tree.terminals] using member
  older id member := by
    rw [nested_construction] at member
    rcases List.mem_cons.mp member with rfl | below
    · exact earlier
    · exact Nat.lt_trans (covers.older id below) earlier
  within id member := by
    rw [nested_construction] at member
    rcases List.mem_cons.mp member with rfl | below
    · exact ⟨event, recorded, by omega, by omega, by omega⟩
    · exact covers.within id below
  descending tree member := by
    rw [List.mem_singleton.mp member]
    exact covers.descending_construction
  distinct := by
    rw [nested_construction, List.nodup_cons]
    exact ⟨fun below => Nat.lt_irrefl _ (covers.older _ below), covers.distinct⟩

end Covers

end Constructicon
