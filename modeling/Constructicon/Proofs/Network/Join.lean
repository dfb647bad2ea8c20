import Constructicon.Network.Compose
import Constructicon.Proofs.Automaton
import Constructicon.Proofs.Network.Sound

/-! Placing an automaton in a network. Its nodes are appended and nothing else is touched, so the
network stays well-formed and grows, and the proper nodes of the new pattern are exactly the
automaton's. -/
namespace Constructicon.Network

variable {network : Network} {automaton : Automaton} {hub : Option Nat}

/-- Where a node of an automaton goes when the automaton is placed. -/
def placeFor (network : Network) (automaton : Automaton) (key : String) : Nat :=
  network.sites.length + automaton.nodes.keys.idxOf key

theorem join_sites : (network.join hub automaton).sites = network.sites ++
    automaton.nodes.entries.map (fun entry => siteOf automaton network.members.length entry.1 entry.2) ++
    [patternSite automaton network.members.length] := rfl

/-- An edge of an automaton as a step of the network. -/
def innerOf (network : Network) (automaton : Automaton) (edge : Edge String) : Edge Nat :=
  { source := network.placeFor automaton edge.source
    target := network.placeFor automaton edge.target, bypass := edge.bypass }

theorem join_inner : (network.join hub automaton).inner =
    network.inner ++ automaton.edges.map (network.innerOf automaton) := by
  have steps : Link.inner? ∘ (fun edge =>
      { source := network.placeFor automaton edge.source
        target := network.placeFor automaton edge.target, kind := edge.linkKind : Link }) =
      some ∘ network.innerOf automaton := by
    funext edge
    cases bypass : edge.bypass <;> simp [Link.inner?, Edge.linkKind, innerOf, bypass]
  have others (start finish patternNode : Nat) :
      ([{ source := finish, target := patternNode, kind := .completion : Link }] ++
        hub.toList.map fun node =>
          { source := node, target := start, kind := .entry : Link }).filterMap Link.inner? = [] := by
    cases hub <;> simp [Link.inner?]
  change (network.links ++ _ ++ _ ++ _).filterMap Link.inner? = _
  rw [List.append_assoc, List.filterMap_append, others, List.append_nil, List.filterMap_append]
  congr 1
  rw [List.filterMap_map, ← List.filterMap_eq_map]
  exact congrArg (List.filterMap · automaton.edges) steps

theorem join_members (network : Network) (hub : Option Nat) (automaton : Automaton) : ∃ member,
    (network.join hub automaton).members = network.members ++ [member] ∧
    member.name = automaton.name ∧ member.start = network.placeFor automaton automaton.start ∧
    member.finish = network.placeFor automaton automaton.finish ∧
    member.patternNode = network.sites.length + automaton.nodes.size ∧
    member.entryNodes = ((network.join hub automaton).closureFrom
      [network.placeFor automaton automaton.start]).elements :=
  ⟨_, rfl, rfl, rfl, rfl, rfl, rfl⟩

/-- The links that come with an automaton. -/
def newLinks (network : Network) (hub : Option Nat) (automaton : Automaton) : List Link :=
  (automaton.edges.map fun edge =>
      { source := network.placeFor automaton edge.source
        target := network.placeFor automaton edge.target, kind := edge.linkKind }) ++
    { source := network.placeFor automaton automaton.finish
      target := network.sites.length + automaton.nodes.size, kind := .completion } ::
    hub.toList.map fun node =>
      { source := node, target := network.placeFor automaton automaton.start, kind := .entry }

theorem join_links (network : Network) (hub : Option Nat) (automaton : Automaton) :
    (network.join hub automaton).links = network.links ++ network.newLinks hub automaton := by
  simp only [join, newLinks, List.append_assoc]
  rfl

theorem mem_newLinks {link : Link} (member : link ∈ network.newLinks hub automaton) :
    link.kind ≠ .constructionRef ∧ (link.inner?.isSome → network.sites.length ≤ link.source) := by
  simp only [newLinks, List.mem_append, List.mem_cons, List.mem_map] at member
  rcases member with ⟨edge, _, rfl⟩ | rfl | ⟨node, _, rfl⟩
  · refine ⟨?_, fun _ => Nat.le_add_right _ _⟩
    simp only [Edge.linkKind]
    split <;> simp
  · simp [Link.inner?]
  · simp [Link.inner?]

theorem grows_join : network.Grows (network.join hub automaton) where
  sites := by rw [join_sites, List.append_assoc]; exact List.prefix_append _ _
  members := by
    obtain ⟨member, same, _⟩ := join_members network hub automaton
    exact same ▸ List.prefix_append _ _
  links := ⟨_, join_links network hub automaton, fun link member =>
    ⟨(mem_newLinks member).2, fun kind => absurd kind (mem_newLinks member).1⟩⟩

theorem join_site {node : Nat} {site : Site}
    (found : (network.join hub automaton).sites[node]? = some site) :
    network.sites[node]? = some site ∨
    (∃ i entry, automaton.nodes.entries[i]? = some entry ∧ node = network.sites.length + i ∧
      site = siteOf automaton network.members.length entry.1 entry.2) ∨
    site = patternSite automaton network.members.length := by
  rw [join_sites, List.append_assoc] at found
  by_cases old : node < network.sites.length
  · rw [List.getElem?_append_left old] at found
    exact .inl found
  · rw [List.getElem?_append_right (by omega)] at found
    by_cases proper : node - network.sites.length < automaton.nodes.entries.length
    · rw [List.getElem?_append_left (by simpa using proper), List.getElem?_map] at found
      obtain ⟨entry, here, rfl⟩ := Option.map_eq_some_iff.mp found
      exact .inr (.inl ⟨_, entry, here, by omega, rfl⟩)
    · rw [List.getElem?_append_right (by simpa using proper)] at found
      exact .inr (.inr (List.mem_singleton.mp (List.mem_of_getElem? found)))

theorem site_placeFor {entry : String × Node} (member : entry ∈ automaton.nodes.entries) :
    (network.join hub automaton).sites[network.placeFor automaton entry.1]? =
      some (siteOf automaton network.members.length entry.1 entry.2) := by
  obtain ⟨i, found⟩ := List.mem_iff_getElem?.mp member
  have bound : i < automaton.nodes.entries.length := (List.getElem?_eq_some_iff.mp found).1
  rw [join_sites, List.append_assoc, placeFor, Table.idxOf_keys found,
    List.getElem?_append_right (by omega), Nat.add_sub_cancel_left,
    List.getElem?_append_left (by simpa using bound), List.getElem?_map, found]
  rfl

theorem site_patternNode :
    (network.join hub automaton).sites[network.sites.length + automaton.nodes.size]? =
      some (patternSite automaton network.members.length) := by
  rw [join_sites, List.append_assoc, List.getElem?_append_right (by omega),
    Nat.add_sub_cancel_left, List.getElem?_append_right (by simp [Table.size])]
  simp [Table.size]

theorem Grows.placed {old new : Network} (grows : old.Grows new) (sound : old.Sound) {owner : Nat}
    {member : Member} (placed : old.Placed owner member) : new.Placed owner member where
  start := placed.start.imp fun _ found => ⟨grows.site found.1, found.2⟩
  finish := placed.finish.imp fun _ found => ⟨grows.site found.1, found.2⟩
  patternNode := placed.patternNode.imp fun _ found => ⟨grows.site found.1, found.2⟩
  entryNodes := by
    obtain ⟨site, found, _⟩ := placed.start
    rw [placed.entryNodes, grows.closureFrom sound]
    intro seed present
    exact List.mem_singleton.mp present ▸ lt_of_site found

theorem entry_of_key {key : String} (member : key ∈ automaton.nodes.keys) :
    ∃ node, (key, node) ∈ automaton.nodes.entries := by
  obtain ⟨entry, present, rfl⟩ := List.mem_map.mp member
  exact ⟨entry.2, present⟩

theorem role_siteOf {owner : Nat} {key : String} {node : Node} :
    (siteOf automaton owner key node).role ≠ .pattern := by
  cases kind : node.kind <;> simp [siteOf, NodeKind.role, kind]

theorem role_siteOf_ne_globalStart {owner : Nat} {key : String} {node : Node} :
    (siteOf automaton owner key node).role ≠ .globalStart := by
  cases kind : node.kind <;> simp [siteOf, NodeKind.role, kind]

theorem nodup_join (sound : network.Sound) (fresh : network.has automaton.name = false) :
    ((network.join hub automaton).members.map (·.name)).Nodup := by
  obtain ⟨joined, members, name, _⟩ := join_members network hub automaton
  rw [members, List.map_append, List.nodup_append]
  refine ⟨sound.distinct, List.pairwise_singleton _ _, fun a old b new => ?_⟩
  intro equal
  subst equal
  obtain ⟨member, present, rfl⟩ := List.mem_map.mp old
  have same : member.name = automaton.name := by simpa [name] using new
  have absent := List.any_eq_false.mp fresh member present
  simp [same] at absent

/-- Nodes with one pattern and one key are one: old nodes have old patterns, and the new ones are
placed by their keys. -/
theorem localIds_join (sound : network.Sound) {a b : Nat} {s t : Site}
    (foundS : (network.join hub automaton).sites[a]? = some s)
    (foundT : (network.join hub automaton).sites[b]? = some t) (owned : s.pattern.isSome)
    (same : s.pattern = t.pattern) (key : s.localId = t.localId) (properS : s.role ≠ .pattern)
    (properT : t.role ≠ .pattern) : a = b := by
  have apart {a b : Nat} {s : Site} (old : network.sites[a]? = some s)
      (same : s.pattern = some network.members.length) : a = b := by
    have bound := sound.owned a s _ old same
    omega
  rcases join_site foundS with oldS | ⟨i, first, atS, rfl, rfl⟩ | rfl
  · rcases join_site foundT with oldT | ⟨_, _, _, _, rfl⟩ | rfl
    · exact sound.localIds a b s t oldS oldT owned same key properS properT
    · exact apart oldS same
    · exact apart oldS same
  · rcases join_site foundT with oldT | ⟨j, second, atT, rfl, rfl⟩ | rfl
    · exact (apart oldT same.symm).symm
    · have keys : first.1 = second.1 := key
      rw [← Table.idxOf_keys atS, ← Table.idxOf_keys atT, keys]
    · exact absurd rfl properT
  · exact absurd rfl properS

theorem inner_join (sound : network.Sound) (compiled : automaton.Sound) {edge : Edge Nat}
    (member : edge ∈ (network.join hub automaton).inner) :
    ∃ s t, (network.join hub automaton).sites[edge.source]? = some s ∧
      (network.join hub automaton).sites[edge.target]? = some t ∧ s.pattern = t.pattern := by
  rw [join_inner] at member
  rcases List.mem_append.mp member with old | new
  · obtain ⟨s, t, source, target, same⟩ := sound.inner edge old
    exact ⟨s, t, grows_join.site source, grows_join.site target, same⟩
  · obtain ⟨original, present, rfl⟩ := List.mem_map.mp new
    obtain ⟨_, source⟩ := entry_of_key (compiled.edges original present).1
    obtain ⟨_, target⟩ := entry_of_key (compiled.edges original present).2
    exact ⟨_, _, site_placeFor source, site_placeFor target, rfl⟩

theorem placed_join (sound : network.Sound) (compiled : automaton.Sound) {owner : Nat}
    {member : Member} (found : (network.join hub automaton).members[owner]? = some member) :
    (network.join hub automaton).Placed owner member := by
  obtain ⟨joined, members, _, start, finish, patternNode, entryNodes⟩ :=
    join_members network hub automaton
  rw [members] at found
  rcases Nat.lt_or_ge owner network.members.length with old | new
  · rw [List.getElem?_append_left old] at found
    exact grows_join.placed sound (sound.placed owner member found)
  · rw [List.getElem?_append_right new] at found
    obtain ⟨bound, rfl⟩ := List.getElem?_eq_some_iff.mp found
    have last : owner = network.members.length := by
      simp only [List.length_singleton] at bound
      omega
    subst last
    obtain ⟨_, first⟩ := compiled.start
    obtain ⟨_, final, kind⟩ := compiled.finish
    simp only [List.getElem_singleton]
    exact
      { start := ⟨_, start ▸ site_placeFor first, rfl⟩
        finish := ⟨_, finish ▸ site_placeFor final, rfl, by simp [siteOf, kind, NodeKind.role]⟩
        patternNode := ⟨_, patternNode ▸ site_patternNode, rfl, rfl⟩
        entryNodes := start ▸ entryNodes }

theorem sound_join (sound : network.Sound) (compiled : automaton.Sound)
    (fresh : network.has automaton.name = false) : (network.join hub automaton).Sound := by
  obtain ⟨joined, members, _⟩ := join_members network hub automaton
  constructor
  case distinct => exact nodup_join sound fresh
  case owned =>
    intro node site owner found owned
    rw [members, List.length_append, List.length_singleton]
    rcases join_site found with old | ⟨_, _, _, _, rfl⟩ | rfl
    · have bound := sound.owned node site owner old owned
      omega
    · cases owned; omega
    · cases owned; omega
  case localIds =>
    intro a b s t foundS foundT owned same key properS properT
    exact localIds_join sound foundS foundT owned same key properS properT
  case inner => exact fun edge member => inner_join sound compiled member
  case elements =>
    intro node site found role
    rcases join_site found with old | ⟨i, entry, at', rfl, rfl⟩ | rfl
    · exact sound.elements node site old role
    · refine ⟨rfl, compiled.typed entry (List.mem_of_getElem? at') ?_⟩
      cases kind : entry.2.kind <;> simp [siteOf, NodeKind.role, kind] at role
      rfl
    · cases role
  case references =>
    intro node site found referring
    rcases join_site found with old | ⟨i, entry, at', rfl, rfl⟩ | rfl
    · exact sound.references node site old referring
    · simp only [siteOf, Node.reference] at referring ⊢
      split at referring
      · rename_i reference
        rw [reference.1]
        rfl
      · cases referring
    · cases referring
  case placed => exact fun owner member found => placed_join sound compiled found
  case feeds =>
    intro link member kind
    rw [join_links] at member
    rcases List.mem_append.mp member with old | new
    · obtain ⟨source, present, site, from', here, reference⟩ := sound.feeds link old kind
      exact ⟨source, members ▸ List.mem_append_left _ present, site, from', grows_join.site here,
        reference⟩
    · exact absurd kind (mem_newLinks new).1

/-- What a network knows of an automaton that was placed in it: the proper nodes of the pattern
are those of the automaton. -/
def Hosts (network : Network) (automaton : Automaton) : Prop :=
  ∃ owner, network.memberIndex? automaton.name = some owner ∧ ∀ site,
    (site ∈ network.sites ∧ site.pattern = some owner ∧ site.role ≠ .pattern) ↔
      ∃ entry ∈ automaton.nodes.entries, site = siteOf automaton owner entry.1 entry.2

theorem hosts_join (sound : network.Sound) (compiled : automaton.Sound)
    (fresh : network.has automaton.name = false) : (network.join hub automaton).Hosts automaton := by
  obtain ⟨joined, members, name, _⟩ :=
    join_members network hub automaton
  refine ⟨network.members.length, ?_, fun site => ⟨?_, ?_⟩⟩
  · rw [← name]
    exact (sound_join sound compiled fresh).memberIndex?_eq (by simp [members])
  · intro facts
    obtain ⟨present, owned, proper⟩ := facts
    obtain ⟨node, found⟩ := List.mem_iff_getElem?.mp present
    rcases join_site found with old | ⟨i, entry, at', _, rfl⟩ | rfl
    · have bound := sound.owned node site _ old owned
      omega
    · exact ⟨entry, List.mem_of_getElem? at', rfl⟩
    · exact absurd rfl proper
  · intro facts
    obtain ⟨entry, member, rfl⟩ := facts
    exact ⟨List.mem_of_getElem? (site_placeFor member), rfl, role_siteOf⟩

theorem Hosts.join {other : Automaton} (hosts : network.Hosts other) (sound : network.Sound)
    (compiled : automaton.Sound) (fresh : network.has automaton.name = false) :
    (network.join hub automaton).Hosts other := by
  obtain ⟨owner, index, nodes⟩ := hosts
  obtain ⟨member, found, _⟩ := Sound.member_of_memberIndex? index
  have bound : owner < network.members.length := (List.getElem?_eq_some_iff.mp found).1
  refine ⟨owner, grows_join.memberIndex? (sound_join sound compiled fresh) index, fun site => ?_⟩
  rw [← nodes site]
  refine and_congr_left fun both => ⟨fun present => ?_, fun present => ?_⟩
  · obtain ⟨node, here⟩ := List.mem_iff_getElem?.mp present
    rcases join_site here with old | ⟨_, _, _, _, rfl⟩ | rfl
    · exact List.mem_of_getElem? old
    · have same := Option.some.inj both.1
      omega
    · exact absurd rfl both.2
  · exact grows_join.sites.subset present

end Constructicon.Network
