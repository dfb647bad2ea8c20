import Mathlib.Data.List.Pairwise
import Mathlib.Logic.Relation
import Mathlib.Order.WellFounded
import Constructicon.Proofs.Automaton
import Constructicon.Proofs.Table

/-! Which patterns compile, and what the others are refused for. The meaning of a well-formed
pattern and of its first defect is given by paths alone; compilation, which searches, accepts just
the former and reports just the latter. A search ends however the arcs run, since every arc is
followed once. -/
namespace Constructicon

section Searching

variable {ν : Type} [DecidableEq ν] {arcs : List (ν × ν)}

/-- One turn of a search, from what is found and what waits: the first that waits is passed over if
it was met before, else its targets are put at the end. -/
inductive Turn (arcs : List (ν × ν)) : List ν × List ν → List ν × List ν → Prop where
  | skip {found queue : List ν} {node : ν} (old : node ∈ found) :
      Turn arcs (found, node :: queue) (found, queue)
  | follow {found queue : List ν} {node : ν} (new : node ∉ found) :
      Turn arcs (found, node :: queue) (found ++ [node], queue ++ targets arcs node)

/-- No search goes on for ever, on cyclic arcs either. -/
theorem turn_wellFounded (arcs : List (ν × ν)) : WellFounded (Function.swap (Turn arcs)) := by
  let left (state : List ν × List ν) : Nat := state.2.length + (unfollowed arcs state.1).length
  refine Subrelation.wf (fun {after before} turn => ?_) (InvImage.wf left Nat.lt_wfRel.wf)
  change left after < left before
  cases turn with
  | skip old => exact Nat.add_lt_add_right (Nat.lt_succ_self _) _
  | follow new =>
    simp only [left, List.length_append, List.length_cons]
    rw [← length_targets_add_unfollowed new]
    omega

/-- The turns from a queue lead to what the search finds, with nothing left to wait. -/
theorem turns_search (found queue : List ν) :
    Relation.ReflTransGen (Turn arcs) (found, queue) (search arcs found queue, []) := by
  fun_induction search arcs found queue with
  | case1 => exact .refl
  | case2 _ _ _ old ih => exact .head (.skip old) ih
  | case3 _ _ _ new ih => exact .head (.follow new) ih

theorem mem_reach_singleton {seed node : ν} : node ∈ reach arcs [seed] ↔ Path arcs seed node := by
  simp [mem_reach]

end Searching

/-- The least of the texts that are `wanted`. -/
def Smallest (wanted : String → Prop) (key : String) : Prop :=
  wanted key ∧ ∀ other, other < key → ¬ wanted other

/-- A search through what stands in ascending order of keys finds the one with the least key. -/
theorem find?_eq_some_iff_least {α : Type} {key : α → String} {items : List α} {item : α}
    {test : α → Bool} (ascending : items.Pairwise fun a b => key a < key b) :
    items.find? test = some item ↔ item ∈ items ∧ test item = true ∧
      ∀ other ∈ items, key other < key item → ¬ test other = true := by
  rw [List.find?_eq_some_iff_append]
  constructor
  · rintro ⟨passed, before, after, rfl, failed⟩
    refine ⟨by simp, passed, fun other member below => ?_⟩
    rw [List.pairwise_append, List.pairwise_cons] at ascending
    rcases List.mem_append.mp member with earlier | later
    · simpa using failed other earlier
    · rcases List.mem_cons.mp later with rfl | later
      · exact absurd below (String.lt_irrefl _)
      · exact absurd (String.lt_trans below (ascending.2.1.1 other later)) (String.lt_irrefl _)
  · rintro ⟨member, passed, least⟩
    obtain ⟨before, after, rfl⟩ := List.append_of_mem member
    refine ⟨passed, before, after, rfl, fun other earlier => ?_⟩
    have below := (List.pairwise_append.mp ascending).2.2 other earlier item List.mem_cons_self
    simpa using least other (List.mem_append_left _ earlier) below

theorem find?_eq_some_iff_smallest {keys : List String} {key : String} {test : String → Bool}
    (ascending : keys.Pairwise (· < ·)) : keys.find? test = some key ↔
      Smallest (fun key => key ∈ keys ∧ test key = true) key := by
  have least : keys.find? test = some key ↔ _ := find?_eq_some_iff_least ascending
  rw [least, Smallest, and_assoc]
  refine and_congr_right fun _ => and_congr_right fun _ => ?_
  exact ⟨fun least other below wanted => least other wanted.1 below wanted.2,
    fun least other member below passed => least other below ⟨member, passed⟩⟩

namespace Pattern

variable (pattern : Pattern)

def arcs : List (String × String) :=
  pattern.edges.map fun edge => (edge.source, edge.target)

def Has (kind : NodeKind) (key : String) : Prop :=
  ∃ node, pattern.nodes.get? key = some node ∧ node.kind = kind

/-- The key is that of a reference which does not say what it refers to. -/
def Nameless (key : String) : Prop :=
  ∃ node, pattern.nodes.get? key = some node ∧ node.kind = .element ∧
    node.elementType = some referenceType ∧ node.elementValue = none

def Joins (edge : Edge String) : Prop :=
  edge.source ∈ pattern.nodes.keys ∧ edge.target ∈ pattern.nodes.keys

def Only (kind : NodeKind) (key : String) : Prop :=
  ∀ other, pattern.Has kind other ↔ other = key

/-- The keys of all nodes of a kind, in ascending order. -/
def Lists (kind : NodeKind) (keys : List String) : Prop :=
  keys.Pairwise (· < ·) ∧ ∀ key, key ∈ keys ↔ pattern.Has kind key

structure WellFormed (start finish : String) : Prop where
  starts : pattern.Only .start start
  ends : pattern.Only .finish finish
  named : ∀ key, ¬ pattern.Nameless key
  joined : ∀ edge ∈ pattern.edges, pattern.Joins edge
  reached : ∀ key ∈ pattern.nodes.keys, Path pattern.arcs start key
  leads : ∀ key ∈ pattern.nodes.keys, Path pattern.arcs key finish

/-- The defects by which a pattern may be refused: all that is looked at before one is in order,
and it is the first of its kind. -/
inductive FirstDefect : Defect → Prop where
  | missingStart (none : ∀ key, ¬ pattern.Has .start key) : FirstDefect .missingStart
  | duplicateStart {keys : List String} (listed : pattern.Lists .start keys)
      (several : 1 < keys.length) : FirstDefect (.duplicateStart keys)
  | missingEnd {start : String} (starts : pattern.Only .start start)
      (none : ∀ key, ¬ pattern.Has .finish key) : FirstDefect .missingEnd
  | duplicateEnd {start : String} {keys : List String} (starts : pattern.Only .start start)
      (listed : pattern.Lists .finish keys) (several : 1 < keys.length) :
      FirstDefect (.duplicateEnd keys)
  | missingReference {start finish key : String} (starts : pattern.Only .start start)
      (ends : pattern.Only .finish finish) (first : Smallest pattern.Nameless key) :
      FirstDefect (.missingReference key)
  | danglingEdge {start finish : String} {before after : List (Edge String)} {edge : Edge String}
      (starts : pattern.Only .start start) (ends : pattern.Only .finish finish)
      (named : ∀ key, ¬ pattern.Nameless key) (edges : pattern.edges = before ++ edge :: after)
      (joined : ∀ earlier ∈ before, pattern.Joins earlier) (loose : ¬ pattern.Joins edge) :
      FirstDefect (.danglingEdge edge.source edge.target)
  | unreachable {start finish key : String} (starts : pattern.Only .start start)
      (ends : pattern.Only .finish finish) (named : ∀ key, ¬ pattern.Nameless key)
      (joined : ∀ edge ∈ pattern.edges, pattern.Joins edge)
      (first : Smallest (fun key => key ∈ pattern.nodes.keys ∧ ¬ Path pattern.arcs start key) key) :
      FirstDefect (.unreachable key)
  | deadEnd {start finish key : String} (starts : pattern.Only .start start)
      (ends : pattern.Only .finish finish) (named : ∀ key, ¬ pattern.Nameless key)
      (joined : ∀ edge ∈ pattern.edges, pattern.Joins edge)
      (reached : ∀ key ∈ pattern.nodes.keys, Path pattern.arcs start key)
      (first : Smallest (fun key => key ∈ pattern.nodes.keys ∧ ¬ Path pattern.arcs key finish) key) :
      FirstDefect (.deadEnd key)

variable {pattern}

theorem ascending_keys : pattern.nodes.keys.Pairwise (· < ·) :=
  List.pairwise_map.mpr pattern.nodes.ascending

theorem mem_keysOf_iff {kind : NodeKind} {key : String} :
    key ∈ pattern.keysOf kind ↔ pattern.Has kind key := by
  simp only [mem_keysOf, Has, Table.get?_eq_some_iff]

theorem lists_iff {kind : NodeKind} {keys : List String} :
    pattern.Lists kind keys ↔ pattern.keysOf kind = keys := by
  have ascending : (pattern.keysOf kind).Pairwise (· < ·) :=
    List.pairwise_map.mpr (pattern.nodes.ascending.filter _)
  constructor
  · rintro ⟨sorted, members⟩
    have same : (pattern.keysOf kind).Perm keys := by
      rw [List.perm_ext_iff_of_nodup (ascending.imp String.ne_of_lt) (sorted.imp String.ne_of_lt)]
      exact fun key => mem_keysOf_iff.trans (members key).symm
    exact same.eq_of_pairwise (fun _ _ _ _ below above => absurd above (String.lt_asymm below))
      ascending sorted
  · rintro rfl
    exact ⟨ascending, fun _ => mem_keysOf_iff⟩

theorem only_iff {kind : NodeKind} {key : String} :
    pattern.Only kind key ↔ pattern.keysOf kind = [key] := by
  rw [← lists_iff]
  simp only [Only, Lists, List.pairwise_singleton, true_and, List.mem_singleton]
  exact forall_congr' fun other => Iff.comm

theorem keysOf_eq_nil_iff {kind : NodeKind} :
    pattern.keysOf kind = [] ↔ ∀ key, ¬ pattern.Has kind key := by
  rw [List.eq_nil_iff_forall_not_mem]
  exact forall_congr' fun key => not_congr mem_keysOf_iff

theorem nameless_iff {key : String} : pattern.Nameless key ↔
    ∃ node, (key, node) ∈ pattern.nodes.entries ∧ node.isUnnamed = true := by
  simp [Nameless, Node.isUnnamed, Table.get?_eq_some_iff]

theorem find?_unnamed_eq_none :
    pattern.nodes.entries.find? (·.2.isUnnamed) = none ↔ ∀ key, ¬ pattern.Nameless key := by
  simp only [List.find?_eq_none, nameless_iff, not_exists, not_and, Prod.forall]

theorem find?_unnamed_eq_some {key : String} :
    (∃ node, pattern.nodes.entries.find? (·.2.isUnnamed) = some (key, node)) ↔
      Smallest pattern.Nameless key := by
  simp only [find?_eq_some_iff_least pattern.nodes.ascending, Smallest, nameless_iff]
  constructor
  · rintro ⟨node, member, unnamed, least⟩
    refine ⟨⟨node, member, unnamed⟩, ?_⟩
    rintro other below ⟨_, there, also⟩
    exact least _ there below also
  · rintro ⟨⟨node, member, unnamed⟩, least⟩
    exact ⟨node, member, unnamed, fun other there below also => least _ below ⟨_, there, also⟩⟩

end Pattern

section Results

variable {α β ε : Type} {first : Except ε α} {next : α → Except ε β} {found : Option α}
  {why : α → ε} {error : ε} {keys : List String} {missing defect : Defect}
  {several : List String → Defect}

theorem ok_bind (value : α) (next : α → Except ε β) : Except.ok value >>= next = next value := rfl

theorem error_bind (error : ε) (next : α → Except ε β) :
    Except.error error >>= next = .error error := rfl

theorem bind_eq_error : first >>= next = .error error ↔
    first = .error error ∨ ∃ value, first = .ok value ∧ next value = .error error := by
  cases first <;> simp [bind, Except.bind]

theorem refuse_eq_error :
    refuse found why = .error error ↔ ∃ offender, found = some offender ∧ why offender = error := by
  cases found <;> simp [refuse]

theorem sole_eq_error : sole keys missing several = .error defect ↔
    keys = [] ∧ missing = defect ∨ 1 < keys.length ∧ several keys = defect := by
  match keys with
  | [] => simp [sole]
  | [key] => simp [sole]
  | _ :: _ :: _ => simp [sole]

end Results

namespace Pattern

variable {pattern : Pattern}

theorem find?_loose_eq_none : pattern.edges.find? (fun edge =>
    edge.source ∉ pattern.nodes.keys ∨ edge.target ∉ pattern.nodes.keys) = none ↔
      ∀ edge ∈ pattern.edges, pattern.Joins edge := by
  simp [Joins]

theorem find?_loose_eq_some {edge : Edge String} : pattern.edges.find? (fun edge =>
    edge.source ∉ pattern.nodes.keys ∨ edge.target ∉ pattern.nodes.keys) = some edge ↔
      ¬ pattern.Joins edge ∧ ∃ before after, pattern.edges = before ++ edge :: after ∧
        ∀ earlier ∈ before, pattern.Joins earlier := by
  rw [List.find?_eq_some_iff_append]
  simp [Joins, imp_iff_not_or]

theorem mem_reach_draft {name start finish seed node : String} :
    node ∈ reach (pattern.draft name start finish).arcs [seed] ↔ Path pattern.arcs seed node :=
  mem_reach_singleton

theorem find?_lost_eq_none {name start finish : String} : pattern.nodes.keys.find?
    (· ∉ reach (pattern.draft name start finish).arcs [start]) = none ↔
      ∀ key ∈ pattern.nodes.keys, Path pattern.arcs start key := by
  simp only [List.find?_eq_none, decide_eq_true_eq, Classical.not_not, mem_reach_draft]

theorem find?_lost_eq_some {name start finish key : String} : pattern.nodes.keys.find?
    (· ∉ reach (pattern.draft name start finish).arcs [start]) = some key ↔
      Smallest (fun key => key ∈ pattern.nodes.keys ∧ ¬ Path pattern.arcs start key) key := by
  simp only [find?_eq_some_iff_smallest ascending_keys, decide_eq_true_eq, mem_reach_draft]

theorem find?_dead_eq_none {name start finish : String} : pattern.nodes.keys.find?
    (fun key => finish ∉ reach (pattern.draft name start finish).arcs [key]) = none ↔
      ∀ key ∈ pattern.nodes.keys, Path pattern.arcs key finish := by
  simp only [List.find?_eq_none, decide_eq_true_eq, Classical.not_not, mem_reach_draft]

theorem find?_dead_eq_some {name start finish key : String} : pattern.nodes.keys.find?
    (fun key => finish ∉ reach (pattern.draft name start finish).arcs [key]) = some key ↔
      Smallest (fun key => key ∈ pattern.nodes.keys ∧ ¬ Path pattern.arcs key finish) key := by
  simp only [find?_eq_some_iff_smallest ascending_keys, decide_eq_true_eq, mem_reach_draft]

theorem check_eq_ok {name : String} {automaton : Automaton} :
    pattern.check name = .ok automaton ↔ ∃ start finish, pattern.WellFormed start finish ∧
      pattern.draft name start finish = automaton := by
  constructor
  · intro passed
    unfold check at passed
    obtain ⟨start, starts, passed⟩ := bind_success passed
    obtain ⟨finish, ends, passed⟩ := bind_success passed
    obtain ⟨_, named, passed⟩ := bind_success passed
    obtain ⟨_, joined, passed⟩ := bind_success passed
    obtain ⟨_, reached, passed⟩ := bind_success passed
    obtain ⟨_, leads, passed⟩ := bind_success passed
    refine ⟨start, finish, ?_, Except.ok.inj passed⟩
    constructor
    case starts => exact only_iff.mpr (sole_eq_ok.mp starts)
    case ends => exact only_iff.mpr (sole_eq_ok.mp ends)
    case named => exact find?_unnamed_eq_none.mp (refuse_eq_ok.mp named)
    case joined => exact find?_loose_eq_none.mp (refuse_eq_ok.mp joined)
    case reached => exact find?_lost_eq_none.mp (refuse_eq_ok.mp reached)
    case leads => exact find?_dead_eq_none.mp (refuse_eq_ok.mp leads)
  · rintro ⟨start, finish, formed, rfl⟩
    simp only [check, only_iff.mp formed.starts, only_iff.mp formed.ends,
      find?_unnamed_eq_none.mpr formed.named, find?_loose_eq_none.mpr formed.joined,
      find?_lost_eq_none.mpr formed.reached, find?_dead_eq_none.mpr formed.leads, sole, refuse,
      ok_bind]
    rfl

theorem check_eq_error {name : String} {defect : Defect} :
    pattern.check name = .error defect ↔ pattern.FirstDefect defect := by
  constructor
  · intro failed
    unfold check at failed
    rcases bind_eq_error.mp failed with failed | ⟨start, starts, failed⟩
    · rcases sole_eq_error.mp failed with ⟨none, rfl⟩ | ⟨several, rfl⟩
      · exact .missingStart (keysOf_eq_nil_iff.mp none)
      · exact .duplicateStart (lists_iff.mpr rfl) several
    have starts := only_iff.mpr (sole_eq_ok.mp starts)
    rcases bind_eq_error.mp failed with failed | ⟨finish, ends, failed⟩
    · rcases sole_eq_error.mp failed with ⟨none, rfl⟩ | ⟨several, rfl⟩
      · exact .missingEnd starts (keysOf_eq_nil_iff.mp none)
      · exact .duplicateEnd starts (lists_iff.mpr rfl) several
    have ends := only_iff.mpr (sole_eq_ok.mp ends)
    rcases bind_eq_error.mp failed with failed | ⟨_, named, failed⟩
    · obtain ⟨entry, found, rfl⟩ := refuse_eq_error.mp failed
      exact .missingReference starts ends (find?_unnamed_eq_some.mp ⟨entry.2, found⟩)
    have named := find?_unnamed_eq_none.mp (refuse_eq_ok.mp named)
    rcases bind_eq_error.mp failed with failed | ⟨_, joined, failed⟩
    · obtain ⟨edge, found, rfl⟩ := refuse_eq_error.mp failed
      obtain ⟨loose, before, after, edges, joined⟩ := find?_loose_eq_some.mp found
      exact .danglingEdge starts ends named edges joined loose
    have joined := find?_loose_eq_none.mp (refuse_eq_ok.mp joined)
    rcases bind_eq_error.mp failed with failed | ⟨_, reached, failed⟩
    · obtain ⟨key, found, rfl⟩ := refuse_eq_error.mp failed
      exact .unreachable starts ends named joined (find?_lost_eq_some.mp found)
    have reached := find?_lost_eq_none.mp (refuse_eq_ok.mp reached)
    rcases bind_eq_error.mp failed with failed | ⟨_, _, failed⟩
    · obtain ⟨key, found, rfl⟩ := refuse_eq_error.mp failed
      exact .deadEnd starts ends named joined reached (find?_dead_eq_some.mp found)
    cases failed
  · intro first
    unfold check
    cases first with
    | missingStart none =>
      rw [sole_eq_error.mpr (.inl ⟨keysOf_eq_nil_iff.mpr none, rfl⟩), error_bind]
    | duplicateStart listed several =>
      cases lists_iff.mp listed
      rw [sole_eq_error.mpr (.inr ⟨several, rfl⟩), error_bind]
    | missingEnd starts none =>
      rw [only_iff.mp starts, sole, ok_bind,
        sole_eq_error.mpr (.inl ⟨keysOf_eq_nil_iff.mpr none, rfl⟩), error_bind]
    | duplicateEnd starts listed several =>
      cases lists_iff.mp listed
      rw [only_iff.mp starts, sole, ok_bind, sole_eq_error.mpr (.inr ⟨several, rfl⟩), error_bind]
    | missingReference starts ends first =>
      obtain ⟨node, found⟩ := find?_unnamed_eq_some.mpr first
      simp only [only_iff.mp starts, only_iff.mp ends, found, sole, refuse, ok_bind, error_bind]
    | danglingEdge starts ends named edges joined loose =>
      have found := find?_loose_eq_some.mpr ⟨loose, _, _, edges, joined⟩
      simp only [only_iff.mp starts, only_iff.mp ends, find?_unnamed_eq_none.mpr named, found,
        sole, refuse, ok_bind, error_bind]
    | unreachable starts ends named joined first =>
      simp only [only_iff.mp starts, only_iff.mp ends, find?_unnamed_eq_none.mpr named,
        find?_loose_eq_none.mpr joined, find?_lost_eq_some.mpr first, sole, refuse,
        ok_bind, error_bind]
    | deadEnd starts ends named joined reached first =>
      simp only [only_iff.mp starts, only_iff.mp ends, find?_unnamed_eq_none.mpr named,
        find?_loose_eq_none.mpr joined, find?_lost_eq_none.mpr reached,
        find?_dead_eq_some.mpr first, sole, refuse, ok_bind, error_bind]

/-- The elements of a draft are the elements that have a type. -/
theorem kindOf_draft {name start finish key : String} :
    (pattern.draft name start finish).kindOf key = .element ↔ ∃ node,
      pattern.nodes.get? key = some node ∧ node.kind = .element ∧ node.elementType.isSome := by
  unfold Automaton.kindOf Automaton.node? draft
  rw [Table.get?_map]
  cases pattern.nodes.get? key with
  | none => simp
  | some node =>
    simp only [Option.map_some, Option.getD_some, Option.some.injEq, exists_eq_left',
      Node.compiled, ← Option.ne_none_iff_isSome]
    split <;> simp_all

end Pattern

theorem Pattern.compile_eq_ok {pattern : Pattern} {name : String} {automaton : Automaton} :
    pattern.compile name = .ok automaton ↔ ∃ start finish, pattern.WellFormed start finish ∧
      pattern.draft name start finish = automaton := by
  rw [← check_eq_ok, compile]
  cases pattern.check name <;> simp [Except.mapError]

theorem Pattern.compile_eq_error {pattern : Pattern} {name : String} {error : Error} :
    pattern.compile name = .error error ↔
      ∃ defect, pattern.FirstDefect defect ∧ .malformed name defect = error := by
  have refused (defect : Defect) : pattern.check name = .error defect ↔ pattern.FirstDefect defect :=
    check_eq_error
  simp only [← refused, compile]
  cases pattern.check name <;> simp [Except.mapError]

/-- Compilation accepts just the well-formed patterns, keeping their keys and edges, with typed
elements as elements; any other pattern it refuses for its first defect. The searches it makes end
and find just what there is a path to. -/
theorem Pattern.compile_exact (pattern : Pattern) (name : String) :
    ((pattern.compile name).isOk = true ↔ ∃ start finish, pattern.WellFormed start finish) ∧
    (∀ automaton, pattern.compile name = .ok automaton → automaton.name = name ∧
      pattern.WellFormed automaton.start automaton.finish ∧
      automaton.nodes.keys = pattern.nodes.keys ∧ automaton.edges = pattern.edges ∧
      ∀ key, automaton.kindOf key = .element ↔ ∃ node, pattern.nodes.get? key = some node ∧
        node.kind = .element ∧ node.elementType.isSome) ∧
    (∀ error, pattern.compile name = .error error ↔
      ∃ defect, pattern.FirstDefect defect ∧ .malformed name defect = error) ∧
    WellFounded (Function.swap (Turn pattern.arcs)) ∧
    ∀ seed, Relation.ReflTransGen (Turn pattern.arcs) ([], [seed])
        (reach pattern.arcs [seed], []) ∧
      ∀ key, key ∈ reach pattern.arcs [seed] ↔ Path pattern.arcs seed key := by
  refine ⟨?_, ?_, fun _ => compile_eq_error, turn_wellFounded _, fun seed =>
    ⟨turns_search _ _, fun _ => mem_reach_singleton⟩⟩
  · rw [exists_ok_iff]
    constructor
    · rintro ⟨automaton, compiled⟩
      obtain ⟨start, finish, formed, _⟩ := compile_eq_ok.mp compiled
      exact ⟨start, finish, formed⟩
    · rintro ⟨start, finish, formed⟩
      exact ⟨_, compile_eq_ok.mpr ⟨start, finish, formed, rfl⟩⟩
  · intro automaton compiled
    obtain ⟨start, finish, formed, rfl⟩ := compile_eq_ok.mp compiled
    exact ⟨rfl, formed, Table.keys_map _ _, rfl, fun key => kindOf_draft⟩

/-- One element or more, through a junction from which there is a way back. -/
def Pattern.repeating (edges : List (Edge String)) : Pattern where
  name := "repeating"
  nodes := Table.ofList [("end", { kind := .finish }), ("item", Node.consuming "NUM"),
    ("more", { kind := .routing }), ("start", { kind := .start })]
  edges := edges ++ [⟨"start", "item", false⟩, ⟨"item", "more", false⟩, ⟨"more", "item", false⟩]

/-- The loop compiles if it has a way out; without one it is refused for its end, which is not
reached, before any node is a dead end. -/
theorem Pattern.compile_exact_repeating :
    (∃ start finish, (repeating [⟨"more", "end", false⟩]).WellFormed start finish) ∧
      (repeating []).FirstDefect (.unreachable "end") := by
  obtain ⟨accepted, _⟩ := compile_exact (repeating [⟨"more", "end", false⟩]) "repeating"
  obtain ⟨_, _, refused, _⟩ := compile_exact (repeating []) "repeating"
  have refusal := refused (.malformed "repeating" (.unreachable "end"))
  obtain ⟨defect, first, same⟩ := refusal.mp (by decide +kernel)
  cases same
  exact ⟨accepted.mp (by decide +kernel), first⟩

end Constructicon
