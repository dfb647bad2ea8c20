import Mathlib.Data.List.Basic
import Mathlib.Data.List.Induction
import Constructicon.Network

/-! The rows of a network: for each node the numbers of the links that leave it. They are written
while the network is built, a node at a time and a link at a time, and in whatever order nodes and
links arrive, the rows are those that can be read off the finished network. -/
namespace Constructicon.Network

variable {nodes : Nat} {links : List Link} {rows : List (List Nat)}

/-- Rows as they are written. A node begins an empty row, and a link is noted at the end of the
row of the node that it leaves, which is there already. -/
inductive Recorded : Nat → List Link → List (List Nat) → Prop where
  | empty : Recorded 0 [] []
  | node {nodes : Nat} {links : List Link} {rows : List (List Nat)}
      (before : Recorded nodes links rows) : Recorded (nodes + 1) links (rows ++ [[]])
  | link {nodes : Nat} {links : List Link} {rows : List (List Nat)}
      (before : Recorded nodes links rows) (link : Link) (present : link.source < nodes) :
      Recorded nodes (links ++ [link]) (rows.modify link.source (· ++ [links.length]))

/-- The numbers of the links that leave a node. -/
def leaving (links : List Link) (node : Nat) : List Nat :=
  (List.range links.length).filter fun number => links[number]?.any (·.source = node)

theorem leaving_concat (links : List Link) (link : Link) (node : Nat) :
    leaving (links ++ [link]) node =
      leaving links node ++ if link.source = node then [links.length] else [] := by
  unfold leaving
  rw [List.length_append, List.length_singleton, List.range_succ, List.filter_append]
  congr 1
  · apply List.filter_congr
    intro number present
    rw [List.getElem?_append_left (List.mem_range.mp present)]
  · by_cases same : link.source = node <;> simp [same]

theorem ascending_leaving (links : List Link) (node : Nat) :
    (leaving links node).Pairwise (· < ·) :=
  List.pairwise_lt_range.filter _

/-- The numbered links are those that leave the node, in the order in which they were added. -/
theorem filterMap_leaving (links : List Link) (node : Nat) :
    (leaving links node).filterMap (links[·]?) = links.filter (·.source = node) := by
  induction links using List.reverseRecOn with
  | nil => rfl
  | append_singleton links link ih =>
    rw [leaving_concat, List.filterMap_append, List.filter_append, ← ih]
    congr 1
    · apply List.filterMap_congr
      intro number present
      have bound : number < links.length := List.mem_range.mp (List.mem_filter.mp present).1
      rw [List.getElem?_append_left bound]
    · by_cases same : link.source = node <;> simp [same]

namespace Recorded

theorem source_lt (recorded : Recorded nodes links rows) :
    ∀ link ∈ links, link.source < nodes := by
  induction recorded with
  | empty => exact List.forall_mem_nil _
  | node before ih => exact fun link member => Nat.lt_succ_of_lt (ih link member)
  | link before link present ih =>
    intro other member
    rcases List.mem_append.mp member with old | new
    · exact ih other old
    · rw [List.mem_singleton.mp new]
      exact present

theorem rows_eq (recorded : Recorded nodes links rows) :
    rows = (List.range nodes).map (leaving links) := by
  induction recorded with
  | empty => rfl
  | @node nodes links rows before ih =>
    have unused : leaving links nodes = [] := by
      refine List.filter_eq_nil_iff.mpr fun number _ leaves => ?_
      obtain ⟨link, found, source⟩ := (Option.any_eq_true _ _).mp leaves
      have bound := before.source_lt link (List.mem_of_getElem? found)
      rw [of_decide_eq_true source] at bound
      exact Nat.lt_irrefl _ bound
    rw [List.range_succ, List.map_append, List.map_singleton, unused, ih]
  | @link nodes links rows before link present ih =>
    apply List.ext_getElem?
    intro node
    rw [List.getElem?_modify, ih, List.getElem?_map, List.getElem?_map]
    by_cases bound : node < nodes
    · rw [List.getElem?_range bound, Option.map_some, Option.map_some, leaving_concat]
      by_cases same : link.source = node <;> simp [same]
    · rw [List.getElem?_eq_none (by simpa using bound)]
      rfl

theorem blank (nodes : Nat) : Recorded nodes [] (List.replicate nodes []) := by
  induction nodes with
  | zero => exact .empty
  | succ nodes ih =>
    rw [List.replicate_succ']
    exact ih.node

/-- Links between nodes that are there can be recorded. -/
theorem of_sources (present : ∀ link ∈ links, link.source < nodes) :
    ∃ rows, Recorded nodes links rows := by
  induction links using List.reverseRecOn with
  | nil => exact ⟨_, blank nodes⟩
  | append_singleton links link ih =>
    obtain ⟨rows, before⟩ := ih fun other member => present other (List.mem_append_left _ member)
    exact ⟨_, before.link link (present link List.mem_concat_self)⟩

end Recorded

end Constructicon.Network
