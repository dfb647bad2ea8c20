import Constructicon.Proofs.Network.Embedding

/-! Where the nodes of a network come from. Every node with an owner that is not a pattern node
comes from one node of one of the automata that the network was built from; a node without an
owner is the shared entry, and there is at most one. -/
namespace Constructicon.Network

variable {network grown : Network} {automaton : Automaton} {automata : List Automaton}
  {hub : Option Nat}

theorem BuiltFrom.compiled (origin : BuiltFrom automata network) :
    ∀ automaton ∈ automata, automaton.Compiled := by
  induction origin with
  | composed compiled _ => exact compiled
  | sideBySide compiled _ => exact compiled
  | attached _ compiled _ ih =>
    intro automaton member
    rcases List.mem_append.mp member with old | new
    · exact ih automaton old
    · exact List.mem_singleton.mp new ▸ compiled

theorem BuiltFrom.names (origin : BuiltFrom automata network) :
    network.members.map (·.name) = automata.map (·.name) := by
  induction origin with
  | composed _ ok =>
    obtain ⟨_, _, rfl⟩ := compose_eq_ok.mp ok
    exact names_assembly _
  | sideBySide _ ok =>
    obtain ⟨_, rfl⟩ := isolated_eq_ok.mp ok
    exact names_joinAll _
  | attached before compiled ok ih =>
    obtain ⟨_, _, member, members, name⟩ := attach_grows before.built.sound compiled.sound ok
    rw [members, List.map_append, List.map_append, ih, List.map_singleton, List.map_singleton, name]

theorem Built.origin (built : network.Built) : ∃ automata, BuiltFrom automata network := by
  induction built with
  | composed composition =>
    cases composition with
    | compose compiled ok => exact ⟨_, .composed compiled ok⟩
    | grammar ok =>
      obtain ⟨automata, compiled, ok⟩ := bind_success ok
      exact ⟨automata, .composed (Grammar.compile_compiled compiled) ok⟩
  | sideBySide compiled ok => exact ⟨_, .sideBySide compiled ok⟩
  | attached _ compiled ok ih =>
    obtain ⟨automata, origin⟩ := ih
    exact ⟨_, origin.attached compiled ok⟩

/-- A node with an owner is a node of the owner's automaton, and lies where that was placed. -/
theorem BuiltFrom.origin_site (origin : BuiltFrom automata network) {node owner : Nat} {site : Site}
    (found : network.sites[node]? = some site) (owned : site.pattern = some owner)
    (proper : site.role ≠ .pattern) : ∃ automaton ∈ automata, ∃ base,
      network.Holds automaton owner base ∧ ∃ entry ∈ automaton.nodes.entries,
        site = siteOf automaton owner entry.1 entry.2 ∧ node = automaton.spot base entry.1 := by
  have sound : network.Sound := origin.built.sound
  have bound := sound.owned node site owner found owned
  have registered : network.members[owner]? = some network.members[owner] :=
    List.getElem?_eq_getElem bound
  have known : network.members[owner].name ∈ automata.map (·.name) := by
    rw [← origin.names]
    exact List.mem_map_of_mem (List.getElem_mem bound)
  obtain ⟨automaton, member, name⟩ := List.mem_map.mp known
  obtain ⟨place, base, holds⟩ := origin.held member
  have index := holds.carries.memberIndex? sound
  rw [name, sound.memberIndex?_eq registered] at index
  cases index
  obtain ⟨_, index, nodes⟩ := holds.hosts
  cases index.symm.trans (holds.carries.memberIndex? sound)
  obtain ⟨entry, present, rfl⟩ := (nodes site).mp ⟨List.mem_of_getElem? found, owned, proper⟩
  refine ⟨automaton, member, base, holds, entry, present, rfl, ?_⟩
  exact sound.localIds node _ _ _ found (holds.carries.site entry present) rfl rfl rfl role_siteOf
    role_siteOf

/-- The nodes without an owner. -/
structure Entered (network : Network) : Prop where
  unowned : ∀ (node : Nat) (site : Site), network.sites[node]? = some site →
    site.pattern = none → site.role = .globalStart
  key : ∀ (node : Nat) (site : Site), network.sites[node]? = some site →
    site.role = .globalStart → site.key = "GLOBAL_START"
  single : ∀ (a b : Nat) (s t : Site), network.sites[a]? = some s → network.sites[b]? = some t →
    s.role = .globalStart → t.role = .globalStart → a = b

theorem entered_empty : Entered {} where
  unowned node site found := by simp at found
  key node site found := by simp at found
  single a b s t found := by simp at found

theorem Entered.join (entered : network.Entered) : (network.join hub automaton).Entered := by
  have old {node : Nat} {site : Site}
      (found : (network.join hub automaton).sites[node]? = some site)
      (entry : site.role = .globalStart) : network.sites[node]? = some site := by
    rcases join_site found with old | ⟨_, _, _, _, rfl⟩ | rfl
    · exact old
    · exact absurd entry role_siteOf_ne_globalStart
    · cases entry
  constructor
  case unowned =>
    intro node site found none
    rcases join_site found with old | ⟨_, _, _, _, rfl⟩ | rfl
    · exact entered.unowned node site old none
    · cases none
    · cases none
  case key => exact fun node site found entry => entered.key node site (old found entry) entry
  case single =>
    exact fun a b s t first second entry also =>
      entered.single a b s t (old first entry) (old second also) entry also

theorem Entered.withGlobalStart (entered : network.Entered) : network.withGlobalStart.Entered := by
  unfold Network.withGlobalStart
  split
  · exact entered
  · rename_i absent
    have none (node : Nat) (site : Site) (found : network.sites[node]? = some site) :
        site.role ≠ .globalStart := by
      have away := List.findIdx?_eq_none_iff.mp absent site (List.mem_of_getElem? found)
      simpa using away
    have last {node : Nat} {site new : Site}
        (found : (network.sites ++ [new])[node]? = some site)
        (entry : site.role = .globalStart) : node = network.sites.length ∧ site = new := by
      rcases getElem?_concat_cases found with old | last
      · exact absurd entry (none node site old)
      · exact last
    constructor
    case unowned =>
      intro node site found unowned
      rcases getElem?_concat_cases found with old | ⟨_, rfl⟩
      · exact entered.unowned node site old unowned
      · rfl
    case key =>
      intro node site found entry
      rw [(last found entry).2]
    case single =>
      intro a b s t first second entry also
      rw [(last first entry).1, (last second also).1]

theorem Entered.joinAll (entered : network.Entered) : (network.joinAll hub automata).Entered := by
  induction automata generalizing network with
  | nil => exact entered
  | cons automaton rest ih => exact ih entered.join

theorem Entered.attach {composing : Bool} (entered : network.Entered)
    (ok : network.attach automaton composing = .ok grown) : grown.Entered := by
  obtain ⟨_, ok⟩ := attach_success ok
  cases composing with
  | false =>
    simp only [Bool.false_eq_true, if_false] at ok
    subst ok
    exact entered.join
  | true =>
    obtain ⟨_, rfl⟩ := linkReferences_eq_ok.mp ok
    have placed : (network.joinHub automaton).Entered := entered.withGlobalStart.join
    exact ⟨placed.unowned, placed.key, placed.single⟩

theorem BuiltFrom.entered (origin : BuiltFrom automata network) : network.Entered := by
  induction origin with
  | @composed automata _ _ ok =>
    obtain ⟨_, _, rfl⟩ := compose_eq_ok.mp ok
    have placed : (assembly automata).Entered := entered_empty.withGlobalStart.joinAll
    exact ⟨placed.unowned, placed.key, placed.single⟩
  | sideBySide _ ok =>
    obtain ⟨_, rfl⟩ := isolated_eq_ok.mp ok
    exact entered_empty.joinAll
  | attached _ _ ok ih => exact ih.attach ok

end Constructicon.Network
