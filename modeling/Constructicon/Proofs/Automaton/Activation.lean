import Mathlib.Logic.Relation
import Constructicon.Proofs.Automaton.Checked
import Constructicon.Proofs.Closure

/-! Where listeners can come to wait, and that they can go on from there. Compilation looks at
plain edges, while listeners move by closures, which an end stops. On the way to the end that makes
no difference: whoever waits at an element of a compiled pattern can finish. On the way from the
start it does: an element is awaited just if some way to it does not pass through the end, so a
compiled pattern may have elements that no tokens lead to. -/
namespace Constructicon

namespace Closure

variable {ν : Type}

/-- Something waits, or the end is found. -/
def GoesOn (closure : Closure ν) : Prop :=
  closure.elements ≠ [] ∨ closure.reachesEnd = true

variable (after : ν → Closure ν)

/-- A listener comes to wait at `next` once `node` has fired. -/
def Follows (node next : ν) : Prop :=
  next ∈ (after node).elements

/-- Some elements from `node` on that fire one after another lead to the end. -/
def Finishes (node : ν) : Prop :=
  ∃ last, Relation.ReflTransGen (Follows after) node last ∧ (after last).reachesEnd = true

variable {after} {node next : ν}

theorem Finishes.follows (follows : Follows after node next) (finishes : Finishes after next) :
    Finishes after node := by
  obtain ⟨last, chain, ends⟩ := finishes
  exact ⟨last, .head follows chain, ends⟩

theorem Finishes.goesOn (finishes : Finishes after node) : (after node).GoesOn := by
  obtain ⟨last, chain, ends⟩ := finishes
  rcases Relation.ReflTransGen.cases_head chain with rfl | ⟨next, follows, _⟩
  · exact .inr ends
  · exact .inl (List.ne_nil_of_mem follows)

end Closure

namespace Automaton
open Closure

variable (automaton : Automaton)

/-- Some elements that fire one after another bring a listener to `key`. -/
def Awaited (key : String) : Prop :=
  ∃ first ∈ automaton.entryClosure.elements,
    Relation.ReflTransGen (Follows automaton.closureAfter) first key

/-- The arcs that are passed without a token. -/
def silent : List (String × String) :=
  silentArcs automaton.kindOf automaton.edges

/-- The arcs that do not leave the end. -/
def arcsBeforeEnd : List (String × String) :=
  automaton.arcs.filter (·.1 ≠ automaton.finish)

/-- One end, and every node on a way from the start to it by plain edges. -/
structure Trim : Prop where
  finish : ∀ key, automaton.kindOf key = .finish ↔ key = automaton.finish
  reached : ∀ key ∈ automaton.nodes.keys, Path automaton.arcs automaton.start key
  leads : ∀ key ∈ automaton.nodes.keys, Path automaton.arcs key automaton.finish

end Automaton

theorem Node.kind_compiled {node : Node} {kind : NodeKind} (other : kind ≠ .element)
    (junction : kind ≠ .routing) : node.compiled.kind = kind ↔ node.kind = kind := by
  unfold Node.compiled
  split
  · rename_i untyped
    rw [untyped.1]
    exact ⟨fun same => absurd same.symm junction, fun same => absurd same.symm other⟩
  · rfl

/-- Starts and ends are those of the pattern. -/
theorem Pattern.kindOf_draft_iff {pattern : Pattern} {name start finish key : String}
    {kind : NodeKind} (other : kind ≠ .element) (junction : kind ≠ .routing) :
    (pattern.draft name start finish).kindOf key = kind ↔ pattern.Has kind key := by
  unfold Automaton.kindOf Automaton.node? draft Has
  rw [Table.get?_map]
  cases pattern.nodes.get? key with
  | none => simpa using Ne.symm junction
  | some node => simpa using Node.kind_compiled other junction

theorem Automaton.Compiled.trim {automaton : Automaton} (compiled : automaton.Compiled) :
    automaton.Trim := by
  obtain ⟨pattern, name, compiled⟩ := compiled
  obtain ⟨start, finish, formed, rfl⟩ := Pattern.compile_eq_ok.mp compiled
  have keys : (pattern.draft name start finish).nodes.keys = pattern.nodes.keys :=
    Table.keys_map _ _
  constructor
  case finish =>
    intro key
    rw [Pattern.kindOf_draft_iff (by simp) (by simp)]
    exact formed.ends key
  case reached => exact fun key member => formed.reached key (keys ▸ member)
  case leads => exact fun key member => formed.leads key (keys ▸ member)

namespace Automaton
open Closure

variable {automaton : Automaton} {key next : String}

theorem mem_closureFrom {seeds : List String} : key ∈ (automaton.closureFrom seeds).elements ↔
    automaton.kindOf key = .element ∧ ∃ seed ∈ seeds, Path automaton.silent seed key :=
  mem_closure_elements

theorem closureFrom_reachesEnd {seeds : List String} :
    (automaton.closureFrom seeds).reachesEnd = true ↔
      ∃ seed ∈ seeds, ∃ last, automaton.kindOf last = .finish ∧
        Path automaton.silent seed last := by
  simp only [closureFrom, closure, List.any_eq_true, mem_reach, decide_eq_true_eq]
  constructor
  · rintro ⟨last, ⟨seed, member, path⟩, final⟩
    exact ⟨seed, member, last, final, path⟩
  · rintro ⟨seed, member, last, final, path⟩
    exact ⟨last, ⟨seed, member, path⟩, final⟩

theorem mem_silent {arc : String × String} : arc ∈ automaton.silent ↔
    ∃ edge ∈ automaton.edges, edge.isSilent automaton.kindOf = true ∧
      (edge.source, edge.target) = arc := by
  simp [silent, silentArcs, and_assoc]

theorem element_of_follows (follows : Follows automaton.closureAfter key next) :
    automaton.kindOf next = .element :=
  (mem_closureFrom.mp follows).1

theorem Awaited.element (awaited : automaton.Awaited key) : automaton.kindOf key = .element := by
  obtain ⟨first, opens, chain⟩ := awaited
  rcases Relation.ReflTransGen.cases_tail chain with rfl | ⟨_, _, last⟩
  · exact (mem_closureFrom.mp opens).1
  · exact element_of_follows last

theorem Awaited.follows (awaited : automaton.Awaited key)
    (follows : Follows automaton.closureAfter key next) : automaton.Awaited next := by
  obtain ⟨first, opens, chain⟩ := awaited
  exact ⟨first, opens, chain.tail follows⟩

/-- A listener can get to `node` without a token, from the start or after an awaited element. -/
inductive Passed (automaton : Automaton) (node : String) : Prop where
  | entry (path : Path automaton.silent automaton.start node)
  | after {key next : String} (awaited : automaton.Awaited key)
      (edge : next ∈ automaton.successors key) (path : Path automaton.silent next node)

theorem Passed.snoc {node : String} (passed : automaton.Passed node)
    (arc : (node, next) ∈ automaton.silent) : automaton.Passed next := by
  cases passed with
  | entry path => exact .entry (path.snoc arc)
  | after awaited edge path => exact .after awaited edge (path.snoc arc)

theorem Passed.awaited (passed : automaton.Passed key)
    (element : automaton.kindOf key = .element) : automaton.Awaited key := by
  cases passed with
  | entry path =>
    exact ⟨key, mem_closureFrom.mpr ⟨element, _, List.mem_singleton_self _, path⟩, .refl⟩
  | after awaited edge path =>
    exact awaited.follows (mem_closureFrom.mpr ⟨element, _, edge, path⟩)

theorem mem_arcsBeforeEnd (trim : automaton.Trim) :
    (key, next) ∈ automaton.arcsBeforeEnd ↔
      (key, next) ∈ automaton.arcs ∧ automaton.kindOf key ≠ .finish := by
  simp [arcsBeforeEnd, trim.finish]

theorem mem_successors_iff_arc :
    next ∈ automaton.successors key ↔ (key, next) ∈ automaton.arcs :=
  mem_successors.trans (by simp [arcs])

/-- An arc is passed without a token, or leaves the end, or leaves an element that has to fire. -/
theorem arc_cases (arc : (key, next) ∈ automaton.arcs) :
    (key, next) ∈ automaton.silent ∨ automaton.kindOf key = .finish ∨
      automaton.kindOf key = .element ∧ next ∈ automaton.successors key := by
  obtain ⟨edge, present, same⟩ := List.mem_map.mp arc
  cases same
  have silently (free : edge.isSilent automaton.kindOf = true) :
      (edge.source, edge.target) ∈ automaton.silent := mem_silent.mpr ⟨edge, present, free, rfl⟩
  cases kind : automaton.kindOf edge.source with
  | start => exact .inl (silently (by simp [Edge.isSilent, kind]))
  | routing => exact .inl (silently (by simp [Edge.isSilent, kind]))
  | finish => exact .inr (.inl rfl)
  | element => exact .inr (.inr ⟨rfl, mem_successors_iff_arc.mpr arc⟩)

/-- Whoever gets to a node before the end gets to the nodes after it, by firing it if need be. -/
theorem Passed.onward (trim : automaton.Trim) {node : String} (passed : automaton.Passed node)
    (arc : (node, next) ∈ automaton.arcsBeforeEnd) : automaton.Passed next := by
  obtain ⟨arc, before⟩ := (mem_arcsBeforeEnd trim).mp arc
  rcases arc_cases arc with free | final | ⟨element, left⟩
  · exact passed.snoc free
  · exact absurd final before
  · exact .after (passed.awaited element) left (.refl _)

theorem silent_subset (trim : automaton.Trim) :
    ∀ arc ∈ automaton.silent, arc ∈ automaton.arcsBeforeEnd := by
  intro arc member
  obtain ⟨edge, present, free, rfl⟩ := mem_silent.mp member
  refine (mem_arcsBeforeEnd trim).mpr ⟨List.mem_map.mpr ⟨edge, present, rfl⟩, fun final => ?_⟩
  simp [Edge.isSilent, final] at free

theorem path_of_follows (trim : automaton.Trim) (element : automaton.kindOf key = .element)
    (follows : Follows automaton.closureAfter key next) :
    Path automaton.arcsBeforeEnd key next := by
  obtain ⟨_, seed, left, path⟩ := mem_closureFrom.mp follows
  have arc : (key, seed) ∈ automaton.arcsBeforeEnd :=
    (mem_arcsBeforeEnd trim).mpr ⟨mem_successors_iff_arc.mp left, by simp [element]⟩
  exact .step arc (path.mono (silent_subset trim))

theorem Awaited.path (trim : automaton.Trim) (awaited : automaton.Awaited key) :
    Path automaton.arcsBeforeEnd automaton.start key := by
  obtain ⟨first, opens, chain⟩ := awaited
  obtain ⟨element, seed, same, path⟩ := mem_closureFrom.mp opens
  cases List.mem_singleton.mp same
  have entry := path.mono (silent_subset trim)
  induction chain with
  | refl => exact entry
  | tail chain follows ih =>
    exact ih.trans (path_of_follows trim (Awaited.element ⟨first, opens, chain⟩) follows)

theorem awaited_iff (trim : automaton.Trim) (element : automaton.kindOf key = .element) :
    automaton.Awaited key ↔ Path automaton.arcsBeforeEnd automaton.start key := by
  refine ⟨fun awaited => awaited.path trim, fun path => ?_⟩
  have passed : automaton.Passed key :=
    path.stays (fun _ arc before => before.onward trim arc) (.entry (.refl _))
  exact passed.awaited element

/-- Without a token a listener gets from `node` to the end, or to an element that finishes. -/
inductive Leads (automaton : Automaton) (node : String) : Prop where
  | ends (path : Path automaton.silent node automaton.finish)
  | waits {key : String} (path : Path automaton.silent node key)
      (element : automaton.kindOf key = .element) (finishes : Finishes automaton.closureAfter key)

theorem Leads.closureFrom (trim : automaton.Trim) {seeds : List String} {node : String}
    (leads : automaton.Leads node) (seed : node ∈ seeds) :
    (automaton.closureFrom seeds).reachesEnd = true ∨
      ∃ key ∈ (automaton.closureFrom seeds).elements, Finishes automaton.closureAfter key := by
  cases leads with
  | ends path =>
    exact .inl (closureFrom_reachesEnd.mpr ⟨node, seed, _, (trim.finish _).mpr rfl, path⟩)
  | waits path element finishes =>
    exact .inr ⟨_, mem_closureFrom.mpr ⟨element, node, seed, path⟩, finishes⟩

theorem Leads.finishes (trim : automaton.Trim) (leads : automaton.Leads next)
    (edge : next ∈ automaton.successors key) : Finishes automaton.closureAfter key := by
  rcases leads.closureFrom trim edge with ends | ⟨later, follows, finishes⟩
  · exact ⟨key, .refl, ends⟩
  · exact finishes.follows follows

/-- A plain way to the end, taken backwards: what a junction passes on an element fires for. -/
theorem leads_of_path (trim : automaton.Trim) {node : String}
    (path : Path automaton.arcs node automaton.finish) : automaton.Leads node := by
  generalize target : automaton.finish = finish at path
  induction path with
  | refl => exact .ends (target ▸ .refl _)
  | @step node next _ arc _ ih =>
    have onward := ih target
    rcases arc_cases arc with free | final | ⟨element, left⟩
    · cases onward with
      | ends path => exact .ends (.step free path)
      | waits path element finishes => exact .waits (.step free path) element finishes
    · exact (trim.finish _).mp final ▸ .ends (.refl _)
    · exact .waits (.refl _) element (onward.finishes trim left)

theorem finishes_of_element (trim : automaton.Trim) (element : automaton.kindOf key = .element) :
    Finishes automaton.closureAfter key := by
  cases trim.leads key (mem_keys_of_kindOf element) with
  | refl =>
    rw [(trim.finish _).mpr rfl] at element
    cases element
  | step arc rest => exact (leads_of_path trim rest).finishes trim (mem_successors_iff_arc.mpr arc)

end Automaton

/-- The elements of a compiled pattern at which listeners ever wait are those that can be reached
from the start without leaving the end; if no edge leaves the end, that is all of them. -/
theorem Pattern.awaited_exact {pattern : Pattern} {name : String} {automaton : Automaton}
    (compiled : pattern.compile name = .ok automaton) :
    (∀ key, automaton.kindOf key = .element →
      (automaton.Awaited key ↔ Path automaton.arcsBeforeEnd automaton.start key)) ∧
    ((∀ edge ∈ automaton.edges, edge.source ≠ automaton.finish) →
      ∀ key, automaton.kindOf key = .element → automaton.Awaited key) := by
  have trim : automaton.Trim := Automaton.Compiled.trim ⟨pattern, name, compiled⟩
  refine ⟨fun key element => Automaton.awaited_iff trim element, fun stays key element => ?_⟩
  refine (Automaton.awaited_iff trim element).mpr ?_
  refine (trim.reached key (Automaton.mem_keys_of_kindOf element)).mono fun arc member => ?_
  obtain ⟨edge, present, rfl⟩ := List.mem_map.mp member
  exact List.mem_filter.mpr ⟨member, by simpa using stays edge present⟩

/-- One element, and behind the end another from which there is a way back. -/
def Pattern.pastEnd : Pattern where
  name := "ENDOUT"
  nodes := Table.ofList [("s", { kind := .start }), ("a", Node.consuming "A"),
    ("e", { kind := .finish }), ("z", Node.consuming "Z")]
  edges := [⟨"s", "a", false⟩, ⟨"a", "e", false⟩, ⟨"e", "z", false⟩, ⟨"z", "e", false⟩]

theorem Pattern.awaited_exact_pastEnd :
    (pastEnd.draft "ENDOUT" "s" "e").Awaited "a" ∧ ¬ (pastEnd.draft "ENDOUT" "s" "e").Awaited "z" ∧
      ((repeating [⟨"more", "end", false⟩]).draft "repeating" "start" "end").Awaited "item" := by
  have past : pastEnd.compile "ENDOUT" = .ok (pastEnd.draft "ENDOUT" "s" "e") := by decide +kernel
  have loop : (repeating [⟨"more", "end", false⟩]).compile "repeating" =
      .ok ((repeating [⟨"more", "end", false⟩]).draft "repeating" "start" "end") := by
    decide +kernel
  obtain ⟨waits, _⟩ := awaited_exact past
  obtain ⟨_, all⟩ := awaited_exact loop
  refine ⟨?_, ?_, all (by decide +kernel) "item" (by decide +kernel)⟩
  · exact (waits "a" (by decide +kernel)).mpr (.step (b := "a") (by decide +kernel) (.refl _))
  · rw [waits "z" (by decide +kernel), ← mem_reach_singleton]
    decide +kernel

/-- The element behind the end passes every check, but no element that fires leads to it. -/
theorem Pattern.past_end_unawaited :
    pastEnd.compile "ENDOUT" = .ok (pastEnd.draft "ENDOUT" "s" "e") ∧
      (pastEnd.draft "ENDOUT" "s" "e").kindOf "z" = .element ∧
      ¬ (pastEnd.draft "ENDOUT" "s" "e").Awaited "z" := by
  refine ⟨by decide +kernel, by decide +kernel, ?_⟩
  rintro ⟨first, opens, chain⟩
  have opening : (pastEnd.draft "ENDOUT" "s" "e").entryClosure.elements = ["a"] := by decide +kernel
  have nothing : (pastEnd.draft "ENDOUT" "s" "e").closureAfter "a" = ⟨[], true⟩ := by decide +kernel
  rw [opening, List.mem_singleton] at opens
  subst opens
  rcases Relation.ReflTransGen.cases_head chain with same | ⟨next, follows, _⟩
  · exact absurd same (by decide)
  · rw [Closure.Follows, nothing] at follows
    cases follows

end Constructicon
