import Mathlib.Data.List.Nodup
import Constructicon.Proofs.Network.Compose

/-! Automata inside networks. An automaton that was placed in a network is found there again under
other names: its nodes follow one another from a base on, and every closure of the network that
begins in it is a closure of the automaton. Growth of the network leaves this alone. -/
namespace Constructicon

namespace Automaton

/-- Where a node goes when the nodes are placed from `base` on, in key order. -/
def spot (automaton : Automaton) (base : Nat) (key : String) : Nat :=
  base + automaton.nodes.keys.idxOf key

variable {automaton : Automaton}

theorem spot_injective {base : Nat} {a b : String} (first : a ∈ automaton.nodes.keys)
    (same : automaton.spot base a = automaton.spot base b) : a = b := by
  have index : automaton.nodes.keys.idxOf a = automaton.nodes.keys.idxOf b := by
    unfold spot at same
    omega
  exact (List.idxOf_inj first).mp index

theorem mem_keys_of_closureFrom {seeds : List String} {key : String}
    (member : key ∈ (automaton.closureFrom seeds).elements) : key ∈ automaton.nodes.keys :=
  mem_keys_of_kindOf (mem_closure_elements.mp member).1

end Automaton

namespace Network

variable {network : Network} {automaton : Automaton} {hub : Option Nat}

/-- The pattern at `owner` is the automaton, its nodes placed from `base` on. -/
structure Carries (network : Network) (automaton : Automaton) (owner base : Nat) : Prop where
  compiled : automaton.Sound
  member : ∃ member, network.members[owner]? = some member ∧ member.name = automaton.name ∧
    member.finish = automaton.spot base automaton.finish ∧
    member.entryNodes = automaton.entryClosure.elements.map (automaton.spot base)
  site : ∀ entry ∈ automaton.nodes.entries, network.sites[automaton.spot base entry.1]? =
    some (siteOf automaton owner entry.1 entry.2)
  after : ∀ key ∈ automaton.nodes.keys, network.closureAfter (automaton.spot base key) =
    (automaton.closureAfter key).map (automaton.spot base)

theorem kind_siteOf (owner : Nat) (key : String) (node : Node) :
    (siteOf automaton owner key node).role.kind = node.kind := by
  cases kind : node.kind <;> simp [siteOf, NodeKind.role, Role.kind, kind]

theorem matchType_siteOf (owner : Nat) (key : String) (node : Node) :
    (siteOf automaton owner key node).matchType = node.matchType := by
  unfold Site.matchType Node.matchType
  cases kind : node.kind <;> simp [siteOf, NodeKind.role, kind]

section Join

theorem kindOf_join {key : String} (member : key ∈ automaton.nodes.keys) :
    (network.join hub automaton).kindOf (automaton.spot network.sites.length key) =
      automaton.kindOf key := by
  obtain ⟨node, present⟩ := entry_of_key member
  have found : (network.join hub automaton).sites[automaton.spot network.sites.length key]? = _ :=
    site_placeFor present
  simp [kindOf, Automaton.kindOf, found, Automaton.node?_eq_some.mpr present, kind_siteOf]

/-- An automaton's nodes are left by the automaton's edges only. -/
theorem leaving_join (sound : network.Sound) (compiled : automaton.Sound) (key : String) :
    Edge.leaving (network.join hub automaton).inner (automaton.spot network.sites.length key) =
      (Edge.leaving automaton.edges key).map (Edge.map (automaton.spot network.sites.length)) := by
  have old : network.inner.filter
      (·.source = automaton.spot network.sites.length key) = [] := by
    rw [List.filter_eq_nil_iff]
    intro edge present same
    have bound := (sound.inner_bounds present).1
    rw [of_decide_eq_true same, Automaton.spot] at bound
    omega
  rw [join_inner, Edge.leaving, List.filter_append, old, List.nil_append, List.filter_map]
  congr 1
  apply List.filter_congr
  intro edge present
  have source := (compiled.edges edge present).1
  simp only [Function.comp_apply, decide_eq_decide]
  exact ⟨Automaton.spot_injective source, congrArg (automaton.spot network.sites.length)⟩

theorem closureFrom_join (sound : network.Sound) (compiled : automaton.Sound) {seeds : List String}
    (seeded : ∀ seed ∈ seeds, seed ∈ automaton.nodes.keys) :
    (network.join hub automaton).closureFrom (seeds.map (automaton.spot network.sites.length)) =
      (automaton.closureFrom seeds).map (automaton.spot network.sites.length) :=
  closure_map (fun edge present _ => (compiled.edges edge present).2)
    (fun _ _ first _ => Automaton.spot_injective first) (fun _ => kindOf_join)
    (fun key _ => leaving_join sound compiled key) seeded

theorem closureAfter_join (sound : network.Sound) (compiled : automaton.Sound) {key : String}
    (member : key ∈ automaton.nodes.keys) :
    (network.join hub automaton).closureAfter (automaton.spot network.sites.length key) =
      (automaton.closureAfter key).map (automaton.spot network.sites.length) := by
  have successors : Edge.successors (network.join hub automaton).inner
      (automaton.spot network.sites.length key) =
      (Edge.successors automaton.edges key).map (automaton.spot network.sites.length) :=
    successors_map (fun _ _ first _ => Automaton.spot_injective first)
      (fun edge present _ => (compiled.edges edge present).2) (fun key _ => leaving_join sound compiled key)
      member
  unfold closureAfter
  rw [successors]
  refine closureFrom_join sound compiled fun seed present => ?_
  obtain ⟨edge, kept, rfl⟩ := List.mem_map.mp (List.mem_eraseDups.mp present)
  exact (compiled.edges edge (List.mem_filter.mp kept).1).2

theorem carries_join (sound : network.Sound) (compiled : automaton.Sound) :
    (network.join hub automaton).Carries automaton network.members.length network.sites.length := by
  obtain ⟨member, members, name, _, finish, _, entryNodes⟩ := join_members network hub automaton
  obtain ⟨first, start⟩ := compiled.start
  have startKey : automaton.start ∈ automaton.nodes.keys := List.mem_map.mpr ⟨_, start, rfl⟩
  constructor
  case compiled => exact compiled
  case member =>
    refine ⟨member, by rw [members, List.getElem?_concat_length], name, finish, ?_⟩
    have seeded : ∀ seed ∈ [automaton.start], seed ∈ automaton.nodes.keys := by simpa using startKey
    rw [entryNodes]
    exact congrArg Closure.elements (closureFrom_join sound compiled seeded)
  case site => exact fun entry present => site_placeFor present
  case after => exact fun key member => closureAfter_join sound compiled member

end Join

namespace Carries

variable {owner base : Nat}

theorem grow {grown : Network} (carries : network.Carries automaton owner base)
    (sound : network.Sound) (grows : network.Grows grown) :
    grown.Carries automaton owner base where
  compiled := carries.compiled
  member := carries.member.imp fun _ facts => ⟨grows.member facts.1, facts.2⟩
  site entry present := grows.site (carries.site entry present)
  after key member := by
    obtain ⟨node, present⟩ := entry_of_key member
    rw [grows.closureAfter sound (lt_of_site (carries.site _ present))]
    exact carries.after key member

theorem memberIndex? (carries : network.Carries automaton owner base) (sound : network.Sound) :
    network.memberIndex? automaton.name = some owner := by
  obtain ⟨member, found, name, _⟩ := carries.member
  exact name ▸ sound.memberIndex?_eq found

theorem find? (carries : network.Carries automaton owner base) (sound : network.Sound)
    {key : String} (member : key ∈ automaton.nodes.keys) :
    network.find? automaton.name key = some (automaton.spot base key) := by
  obtain ⟨node, present⟩ := entry_of_key member
  exact sound.find?_eq_some.mpr ⟨owner, _, carries.memberIndex? sound, carries.site _ present, rfl,
    rfl, role_siteOf⟩

theorem matchType (carries : network.Carries automaton owner base) {key : String}
    (member : key ∈ automaton.nodes.keys) :
    (network.sites[automaton.spot base key]?).bind Site.matchType = automaton.matchType key := by
  obtain ⟨node, present⟩ := entry_of_key member
  rw [carries.site _ present, Automaton.matchType, Automaton.node?_eq_some.mpr present]
  exact matchType_siteOf owner key node

end Carries

end Network

end Constructicon
