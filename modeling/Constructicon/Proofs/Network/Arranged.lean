import Mathlib.Algebra.GroupWithZero.Nat
import Constructicon.Network.Summary
import Constructicon.Proofs.Network.Adjacency
import Constructicon.Proofs.Network.Laid
import Constructicon.Proofs.Session.Course

/-! The whole of a composed network. Whether its patterns were composed at once or attached one by
one, some of them perhaps in vain: one shared entry leads to the start of each pattern, each pattern
completes into its own pattern node, every edge and every reference of a pattern is one link, and
nothing else is there. So the numbers in the summary are sums over the patterns. -/
namespace Constructicon

/-- How many links of a kind an automaton brings into a composed network. -/
def Automaton.linkCount (automaton : Automaton) : LinkKind → Nat
  | .sequence => (automaton.edges.filter (!·.bypass)).length
  | .bypass => (automaton.edges.filter (·.bypass)).length
  | .entry => 1
  | .completion => 1
  | .constructionRef => automaton.references.length

namespace Network

variable {network batch grown : Network} {automata : List Automaton} {automaton : Automaton}

def hubSite : Site :=
  { key := "GLOBAL_START", role := .globalStart, pattern := none, localId := "GLOBAL_START" }

/-- The nodes of an automaton in key order, and its pattern node. -/
def sitesOf (automaton : Automaton) (owner : Nat) : List Site :=
  automaton.nodes.entries.map (fun entry => siteOf automaton owner entry.1 entry.2) ++
    [patternSite automaton owner]

/-- The link that an edge of an automaton has become. -/
def linkOf? (network : Network) (automaton : Automaton) (edge : Edge String) : Option Link := do
  let source ← network.find? automaton.name edge.source
  let target ← network.find? automaton.name edge.target
  return { source, target, kind := edge.linkKind }

/-- Earlier patterns come first, and the nodes of one pattern come in the order of their keys. -/
def Precedes (network : Network) (a b : Nat) : Prop :=
  ∃ s t p q, network.sites[a]? = some s ∧ network.sites[b]? = some t ∧ s.pattern = some p ∧
    t.pattern = some q ∧ (p < q ∨ p = q ∧ s.localId < t.localId)

theorem ascending_references (automaton : Automaton) :
    automaton.references.Pairwise fun a b => a.1 < b.1 := by
  refine List.Pairwise.filterMap _ ?_ automaton.nodes.ascending
  intro a b before x atX y atY
  obtain ⟨_, _, rfl⟩ := Option.map_eq_some_iff.mp atX
  obtain ⟨_, _, rfl⟩ := Option.map_eq_some_iff.mp atY
  exact before

/-- The patterns and their nodes and links, except for the links to references. -/
structure Ordered (network : Network) (automata : List Automaton) : Prop where
  names : network.members.map (·.name) = automata.map (·.name)
  sites : network.sites = hubSite :: (automata.mapIdx fun owner automaton =>
    sitesOf automaton owner).flatten
  hub : ∀ node site, network.sites[node]? = some site → (site.role = .globalStart ↔ node = 0)
  places : ∀ owner member automaton, network.members[owner]? = some member →
    automata[owner]? = some automaton →
      network.find? automaton.name automaton.start = some member.start ∧
      network.find? automaton.name automaton.finish = some member.finish ∧
      network.sites[member.patternNode]? = some (patternSite automaton owner)
  entries : network.links.filter (·.kind = .entry) = network.members.map fun member =>
    { source := 0, target := member.start, kind := .entry }
  completions : network.links.filter (·.kind = .completion) = network.members.map fun member =>
    { source := member.finish, target := member.patternNode, kind := .completion }
  steps : (network.links.filter (·.inner?.isSome)).map some =
    automata.flatMap fun automaton => automaton.edges.map (network.linkOf? automaton)
  size : network.sites.length =
    1 + (automata.map fun automaton => automaton.nodes.size + 1).sum
  counts : ∀ kind, kind ≠ .constructionRef →
    network.linkCount kind = (automata.map (·.linkCount kind)).sum

section Placing

theorem Grows.linkOf? (grows : network.Grows grown) (soundOld : network.Sound)
    (sound : grown.Sound) {edge : Edge String} {link : Link}
    (found : network.linkOf? automaton edge = some link) :
    grown.linkOf? automaton edge = some link := by
  unfold Network.linkOf? at found ⊢
  obtain ⟨source, here, found⟩ := Option.bind_eq_some_iff.mp found
  obtain ⟨target, there, found⟩ := Option.bind_eq_some_iff.mp found
  rw [grows.find? soundOld sound here, grows.find? soundOld sound there]
  exact found

theorem find?_join (sound : network.Sound) (compiled : automaton.Sound)
    (fresh : network.has automaton.name = false) {hub : Option Nat} {key : String}
    (member : key ∈ automaton.nodes.keys) :
    (network.join hub automaton).find? automaton.name key =
      some (network.placeFor automaton key) :=
  (carries_join sound compiled).find? (sound_join sound compiled fresh) member

theorem linkOf?_join (sound : network.Sound) (compiled : automaton.Sound)
    (fresh : network.has automaton.name = false) {hub : Option Nat} {edge : Edge String}
    (member : edge ∈ automaton.edges) : (network.join hub automaton).linkOf? automaton edge =
      some { source := network.placeFor automaton edge.source
             target := network.placeFor automaton edge.target, kind := edge.linkKind } := by
  obtain ⟨source, target⟩ := compiled.edges edge member
  rw [linkOf?, find?_join sound compiled fresh source, find?_join sound compiled fresh target]
  rfl

theorem inner?_edge (edge : Edge String) (source target : Nat) :
    ({ source, target, kind := edge.linkKind : Link }.inner?).isSome = true := by
  cases bypass : edge.bypass <;> simp [Link.inner?, Edge.linkKind, bypass]

theorem filter_inner_newLinks (network : Network) (hub : Option Nat) (automaton : Automaton) :
    (network.newLinks hub automaton).filter (·.inner?.isSome) = automaton.edges.map fun edge =>
      { source := network.placeFor automaton edge.source
        target := network.placeFor automaton edge.target, kind := edge.linkKind } := by
  have all : ∀ link ∈ automaton.edges.map fun edge =>
      { source := network.placeFor automaton edge.source
        target := network.placeFor automaton edge.target, kind := edge.linkKind : Link },
      link.inner?.isSome = true := by
    intro link member
    obtain ⟨edge, _, rfl⟩ := List.mem_map.mp member
    exact inner?_edge edge _ _
  rw [newLinks, List.filter_append, List.filter_eq_self.mpr all]
  cases hub <;> simp [Link.inner?]

theorem filter_kind_edges {kind : LinkKind} (outer : kind ≠ .sequence) (other : kind ≠ .bypass)
    (network : Network) (automaton : Automaton) : (automaton.edges.map fun edge =>
      { source := network.placeFor automaton edge.source
        target := network.placeFor automaton edge.target, kind := edge.linkKind : Link }).filter
          (·.kind = kind) = [] := by
  refine List.filter_eq_nil_iff.mpr fun link member same => ?_
  obtain ⟨edge, _, rfl⟩ := List.mem_map.mp member
  cases bypass : edge.bypass <;> simp_all [Edge.linkKind]

theorem filter_entry_newLinks (network : Network) (hub : Nat) (automaton : Automaton) :
    (network.newLinks (some hub) automaton).filter (·.kind = .entry) =
      [{ source := hub, target := network.placeFor automaton automaton.start, kind := .entry }] := by
  rw [newLinks, List.filter_append, filter_kind_edges (by simp) (by simp)]
  simp

theorem filter_completion_newLinks (network : Network) (hub : Nat) (automaton : Automaton) :
    (network.newLinks (some hub) automaton).filter (·.kind = .completion) =
      [{ source := network.placeFor automaton automaton.finish
         target := network.sites.length + automaton.nodes.size, kind := .completion }] := by
  rw [newLinks, List.filter_append, filter_kind_edges (by simp) (by simp)]
  simp

theorem linkCount_newLinks (network : Network) (automaton : Automaton) {kind : LinkKind}
    (unlinked : kind ≠ .constructionRef) :
    ((network.newLinks (some 0) automaton).filter (·.kind = kind)).length =
      automaton.linkCount kind := by
  have two (edge : Edge String) :
      (edge.linkKind = .sequence ↔ edge.bypass = false) ∧
        (edge.linkKind = .bypass ↔ edge.bypass = true) := by
    cases bypass : edge.bypass <;> simp [Edge.linkKind, bypass]
  cases kind with
  | sequence =>
    simp [newLinks, List.filter_map, Function.comp_def, Automaton.linkCount, (two _).1]
  | bypass =>
    simp [newLinks, List.filter_map, Function.comp_def, Automaton.linkCount, (two _).2]
  | entry => rw [filter_entry_newLinks, List.length_singleton, Automaton.linkCount]
  | completion => rw [filter_completion_newLinks, List.length_singleton, Automaton.linkCount]
  | constructionRef => exact absurd rfl unlinked

end Placing

/-- The links of edges stay where they are when a network grows. -/
theorem Ordered.linkOf?_eq (ordered : network.Ordered automata) (sound : network.Sound)
    (grows : network.Grows grown) (soundGrown : grown.Sound) (member : automaton ∈ automata)
    {edge : Edge String} (present : edge ∈ automaton.edges) :
    grown.linkOf? automaton edge = network.linkOf? automaton edge := by
  have linked : network.linkOf? automaton edge ∈
      automata.flatMap fun other => other.edges.map (network.linkOf? other) :=
    List.mem_flatMap.mpr ⟨automaton, member, List.mem_map_of_mem present⟩
  rw [← ordered.steps] at linked
  obtain ⟨link, _, same⟩ := List.mem_map.mp linked
  rw [← same]
  exact grows.linkOf? sound soundGrown same.symm

/-- One more automaton goes to the end of everything. -/
theorem Ordered.join (ordered : network.Ordered automata) (sound : network.Sound)
    (compiled : automaton.Sound) (fresh : network.has automaton.name = false) :
    (network.join (some 0) automaton).Ordered (automata ++ [automaton]) := by
  have grows : network.Grows (network.join (some 0) automaton) := grows_join
  have soundAfter : (network.join (some 0) automaton).Sound := sound_join sound compiled fresh
  have count : network.members.length = automata.length := by
    simpa using congrArg List.length ordered.names
  obtain ⟨member, members, name, start, finish, patternNode, _⟩ :=
    join_members network (some 0) automaton
  constructor
  case names => rw [names_join, ordered.names, List.map_append, List.map_singleton]
  case sites =>
    rw [join_sites, ordered.sites, count, List.mapIdx_concat, List.flatten_concat]
    simp [sitesOf]
  case hub =>
    intro node site found
    rcases join_site found with old | ⟨i, entry, _, rfl, rfl⟩ | rfl
    · exact ordered.hub node site old
    · simp [role_siteOf_ne_globalStart, ordered.size]
    · have behind : node ≠ 0 := by
        rintro rfl
        rw [grows.site_eq (by rw [ordered.size]; omega)] at found
        simp [ordered.sites, hubSite, patternSite] at found
      simp [behind, patternSite]
  case places =>
    intro owner placed other here there
    rw [members] at here
    rcases getElem?_concat_cases here with old | ⟨rfl, rfl⟩
    · have bound : owner < automata.length := count ▸ (List.getElem?_eq_some_iff.mp old).1
      rw [List.getElem?_append_left bound] at there
      obtain ⟨first, last, pattern⟩ := ordered.places owner placed other old there
      exact ⟨grows.find? sound soundAfter first, grows.find? sound soundAfter last,
        grows.site pattern⟩
    · rw [count, List.getElem?_concat_length] at there
      cases there
      obtain ⟨_, startIn⟩ := compiled.start
      obtain ⟨_, finishIn, _⟩ := compiled.finish
      rw [start, finish, patternNode, site_patternNode]
      exact ⟨find?_join sound compiled fresh (List.mem_map.mpr ⟨_, startIn, rfl⟩),
        find?_join sound compiled fresh (List.mem_map.mpr ⟨_, finishIn, rfl⟩), rfl⟩
  case entries =>
    rw [join_links, List.filter_append, ordered.entries, filter_entry_newLinks, members,
      List.map_append, List.map_singleton, start]
  case completions =>
    rw [join_links, List.filter_append, ordered.completions, filter_completion_newLinks, members,
      List.map_append, List.map_singleton, finish, patternNode]
  case steps =>
    have old : automata.flatMap (fun other =>
          other.edges.map ((network.join (some 0) automaton).linkOf? other)) =
        automata.flatMap fun other => other.edges.map (network.linkOf? other) := by
      apply List.flatMap_congr
      intro other member
      exact List.map_congr_left fun edge present =>
        ordered.linkOf?_eq sound grows soundAfter member present
    rw [join_links, List.filter_append, List.map_append, ordered.steps, List.flatMap_append, old,
      List.flatMap_singleton, filter_inner_newLinks, List.map_map]
    congr 1
    apply List.map_congr_left
    intro edge present
    exact (linkOf?_join sound compiled fresh present).symm
  case size =>
    rw [join_sites, List.length_append, List.length_append, ordered.size]
    simp [Table.size]
    omega
  case counts =>
    intro kind unlinked
    rw [linkCount, join_links, List.filter_append, List.length_append, List.map_append,
      List.sum_append, ← ordered.counts kind unlinked, linkCount_newLinks network automaton unlinked]
    simp [linkCount]

theorem ordered_hub : Ordered (withGlobalStart {}) [] where
  names := rfl
  sites := rfl
  hub node site found := by
    have first : (withGlobalStart {}).sites = [hubSite] := rfl
    rw [first] at found
    cases node with
    | zero =>
      cases found
      simp [hubSite]
    | succ node => cases found
  places owner member automaton here there := by cases there
  entries := rfl
  completions := rfl
  steps := rfl
  size := rfl
  counts kind unlinked := rfl

theorem ordered_assembly (distinct : (automata.map (·.name)).Nodup)
    (compiled : ∀ automaton ∈ automata, automaton.Sound) : (assembly automata).Ordered automata := by
  induction automata using List.reverseRecOn with
  | nil => exact ordered_hub
  | append_singleton automata automaton ih =>
    rw [List.map_append, List.map_singleton] at distinct
    have earlier : ∀ other ∈ automata, other.Sound :=
      fun other member => compiled other (List.mem_append_left _ member)
    have before : (automata.map (·.name)).Nodup := (List.nodup_append.mp distinct).1
    have fresh : (assembly automata).has automaton.name = false := by
      apply fresh_of_nodup
      rw [names_assembly]
      exact distinct
    rw [assembly_append]
    exact (ih before earlier).join (sound_assembly before earlier).1
      (compiled automaton List.mem_concat_self) fresh

theorem filter_others (network : Network) {keep : Link → Bool}
    (unlinked : ∀ link, keep link = true → link.kind ≠ .constructionRef) :
    network.others.filter keep = network.links.filter keep := by
  rw [others, List.filter_filter]
  apply List.filter_congr
  intro link _
  cases kept : keep link with
  | false => rfl
  | true => simp [unlinked link kept]

/-- All but the links to references, in whatever order these came among the other links. -/
theorem Ordered.congr (ordered : batch.Ordered automata) (sites : network.sites = batch.sites)
    (members : network.members = batch.members) (others : network.others = batch.others) :
    network.Ordered automata := by
  have kept {keep : Link → Bool}
      (unlinked : ∀ link, keep link = true → link.kind ≠ .constructionRef) :
      network.links.filter keep = batch.links.filter keep := by
    rw [← filter_others network unlinked, ← filter_others batch unlinked, others]
  have found : network.find? = batch.find? := by
    funext name key
    simp only [find?, memberIndex?, sites, members]
  have linked : network.linkOf? = batch.linkOf? := by
    funext automaton edge
    simp only [linkOf?, found]
  obtain ⟨names, placed, hub, places, entries, completions, steps, size, counts⟩ := ordered
  constructor
  case names => rw [members, names]
  case sites => rw [sites, placed]
  case hub => rwa [sites]
  case places => rwa [members, found, sites]
  case entries => rw [kept (by simp_all), members, entries]
  case completions => rw [kept (by simp_all), members, completions]
  case steps =>
    rw [kept fun link inner => ?_, steps, linked]
    rintro kind
    simp [Link.inner?, kind] at inner
  case size => rw [sites, size]
  case counts =>
    intro kind unlinked
    rw [linkCount, kept (by simp_all)]
    exact counts kind unlinked

/-- A network as a whole: nothing is missing, nothing is there twice and nothing else is there. -/
structure Arranged (network : Network) (automata : List Automaton) : Prop extends
    network.Ordered automata where
  distinct : (network.members.map (·.name)).Nodup
  index : ∀ name owner, network.memberIndex? name = some owner ↔
    (network.members[owner]?).map (·.name) = some name
  globalStart : network.globalStart? = some 0
  ends : ∀ link ∈ network.links,
    link.source < network.sites.length ∧ link.target < network.sites.length
  recorded : ∃ rows, Recorded network.sites.length network.links rows
  outgoing : ∀ rows, Recorded network.sites.length network.links rows →
    rows.length = network.sites.length ∧ ∀ (node : Nat) (numbers : List Nat),
      rows[node]? = some numbers → numbers.Pairwise (· < ·) ∧
        numbers.filterMap (network.links[·]?) = network.outgoing node
  references : (network.links.filter (·.kind = .constructionRef)).map some =
    automata.flatMap fun automaton => automaton.references.map (network.referenceLink? automaton)
  targets : ∀ member ∈ network.members, (network.refTargets member).Nodup ∧
    (∀ node, node ∈ network.refTargets member ↔ ∃ site, network.sites[node]? = some site ∧
      site.role = .element ∧ site.reference = some member.name) ∧
    (network.refTargets member).Pairwise network.Precedes
  summary : network.summary.patterns = automata.length ∧
    network.summary.nodes = 1 + (automata.map fun automaton => automaton.nodes.size + 1).sum ∧
    ∀ kind : LinkKind, network.summary.links.get? kind.label =
      some (automata.map (·.linkCount kind)).sum

theorem Sound.index_iff (sound : network.Sound) {name : String} {owner : Nat} :
    network.memberIndex? name = some owner ↔
      (network.members[owner]?).map (·.name) = some name := by
  constructor
  · intro index
    obtain ⟨member, found, rfl⟩ := Sound.member_of_memberIndex? index
    rw [found, Option.map_some]
  · intro named
    obtain ⟨member, found, rfl⟩ := Option.map_eq_some_iff.mp named
    exact sound.memberIndex?_eq found

/-- The references to a pattern are fed in the order in which their patterns joined, and within a
pattern in the order of their keys. -/
theorem Laid.pairwise_refTargets (laid : network.Laid automata) {owner : Nat} {member : Member}
    (registered : network.members[owner]? = some member) :
    (network.refTargets member).Pairwise network.Precedes := by
  rw [laid.refTargets_eq registered, List.pairwise_flatMap]
  have site {automaton : Automaton} {p base : Nat} (carries : network.Carries automaton p base)
      {reference : String × String} {node : Nat}
      (found : network.find? automaton.name reference.1 = some node) :
      ∃ site, network.sites[node]? = some site ∧ site.pattern = some p ∧
        site.localId = reference.1 := by
    obtain ⟨mine, site, index, here, owned, key, _⟩ := laid.sound.find?_eq_some.mp found
    cases (carries.memberIndex? laid.sound).symm.trans index
    exact ⟨site, here, owned, key⟩
  constructor
  · intro automaton present
    obtain ⟨p, base, carries⟩ := laid.carries present
    refine List.Pairwise.filterMap _ ?_ ((ascending_references automaton).filter _)
    intro a b before x atX y atY
    obtain ⟨s, foundS, ownedS, keyS⟩ := site carries atX
    obtain ⟨t, foundT, ownedT, keyT⟩ := site carries atY
    exact ⟨s, t, p, p, foundS, foundT, ownedS, ownedT, .inr ⟨rfl, keyS ▸ keyT ▸ before⟩⟩
  · refine List.pairwise_iff_getElem.mpr fun p q boundP boundQ before x memberX y memberY => ?_
    obtain ⟨_, carriesP⟩ := laid.carried p _ (List.getElem?_eq_getElem boundP)
    obtain ⟨_, carriesQ⟩ := laid.carried q _ (List.getElem?_eq_getElem boundQ)
    obtain ⟨_, _, atX⟩ := List.mem_filterMap.mp memberX
    obtain ⟨_, _, atY⟩ := List.mem_filterMap.mp memberY
    obtain ⟨s, foundS, ownedS, _⟩ := site carriesP atX
    obtain ⟨t, foundT, ownedT, _⟩ := site carriesQ atY
    exact ⟨s, t, p, q, foundS, foundT, ownedS, ownedT, .inl before⟩

theorem Ordered.ends (ordered : network.Ordered automata) (sound : network.Sound) {link : Link}
    (member : link ∈ network.links) :
    link.source < network.sites.length ∧ link.target < network.sites.length := by
  have placed {registered : Member} (present : registered ∈ network.members) :
      registered.start < network.sites.length ∧ registered.finish < network.sites.length ∧
        registered.patternNode < network.sites.length := by
    obtain ⟨owner, found⟩ := List.mem_iff_getElem?.mp present
    obtain ⟨⟨_, start, _⟩, ⟨_, finish, _⟩, ⟨_, pattern, _⟩, _⟩ := sound.placed owner _ found
    exact ⟨lt_of_site start, lt_of_site finish, lt_of_site pattern⟩
  have inner {edge : Edge Nat} (is : link.inner? = some edge) :
      edge.source < network.sites.length ∧ edge.target < network.sites.length :=
    sound.inner_bounds (List.mem_filterMap.mpr ⟨link, member, is⟩)
  have filed (kind : LinkKind) (same : link.kind = kind) :
      link ∈ network.links.filter (·.kind = kind) :=
    List.mem_filter.mpr ⟨member, decide_eq_true same⟩
  cases kind : link.kind with
  | sequence => exact inner (by rw [Link.inner?, kind])
  | bypass => exact inner (by rw [Link.inner?, kind])
  | entry =>
    have here := filed .entry kind
    rw [ordered.entries] at here
    obtain ⟨registered, present, rfl⟩ := List.mem_map.mp here
    have hub : 0 < network.sites.length := by
      rw [ordered.size]
      omega
    exact ⟨hub, (placed present).1⟩
  | completion =>
    have here := filed .completion kind
    rw [ordered.completions] at here
    obtain ⟨registered, present, rfl⟩ := List.mem_map.mp here
    exact ⟨(placed present).2.1, (placed present).2.2⟩
  | constructionRef =>
    obtain ⟨registered, present, site, source, target, _⟩ := sound.feeds link member kind
    exact ⟨source ▸ (placed present).2.2, lt_of_site target⟩

theorem map_some_filterMap {α β : Type} {f : α → Option β} {items : List α}
    (total : ∀ item ∈ items, (f item).isSome) : (items.filterMap f).map some = items.map f := by
  induction items with
  | nil => rfl
  | cons item rest ih =>
    obtain ⟨here, later⟩ := List.forall_mem_cons.mp total
    obtain ⟨value, found⟩ := Option.isSome_iff_exists.mp here
    rw [List.filterMap_cons, found, List.map_cons, List.map_cons, ih later, found]

/-- Every reference has become one link. -/
theorem Laid.feeding_eq (laid : network.Laid automata)
    (known : ∀ automaton ∈ automata, ∀ reference ∈ automaton.references,
      reference.2 ∈ automata.map (·.name)) : network.feeding.map some =
    automata.flatMap fun automaton => automaton.references.map (network.referenceLink? automaton) := by
  rw [laid.feeding, List.map_flatMap]
  apply List.flatMap_congr
  intro automaton present
  apply map_some_filterMap
  intro reference refers
  obtain ⟨owner, base, carries⟩ := laid.carries present
  obtain ⟨entry, node, _⟩ := mem_references.mp refers
  have named : network.has reference.2 = true := by
    rw [Network.has_iff, laid.names]
    exact known automaton present reference refers
  rw [has_eq_isSome] at named
  obtain ⟨member, registered⟩ := Option.isSome_iff_exists.mp named
  have key : reference.1 ∈ automaton.nodes.keys := List.mem_map.mpr ⟨_, node, rfl⟩
  rw [referenceLink?, registered, carries.find? laid.sound key]
  rfl

theorem Ordered.summary (ordered : network.Ordered automata)
    (references : network.feeding.map some = automata.flatMap fun automaton =>
      automaton.references.map (network.referenceLink? automaton)) :
    network.summary.patterns = automata.length ∧
    network.summary.nodes = 1 + (automata.map fun automaton => automaton.nodes.size + 1).sum ∧
    ∀ kind : LinkKind, network.summary.links.get? kind.label =
      some (automata.map (·.linkCount kind)).sum := by
  refine ⟨?_, ordered.size, fun kind => ?_⟩
  · have size := congrArg List.length ordered.names
    rwa [List.length_map, List.length_map] at size
  · have count : network.linkCount kind = (automata.map (·.linkCount kind)).sum := by
      by_cases linked : kind = .constructionRef
      · subst linked
        have size := congrArg List.length references
        rw [List.length_map, List.length_flatMap] at size
        change network.feeding.length = _
        simpa [Automaton.linkCount] using size
      · exact ordered.counts kind linked
    rw [← count]
    have distinct : ([LinkKind.sequence, .bypass, .entry, .completion, .constructionRef].map
        LinkKind.label).Nodup := by decide
    apply (Table.get?_ofList _).mpr
    · cases kind <;> simp
    · simpa [List.map_map, Function.comp_def] using distinct

/-- However a composed network came about, it is arranged like one that was composed at once. -/
theorem Alike.arranged (compiled : ∀ automaton ∈ automata, automaton.Sound)
    (composed : compose automata = .ok batch) (alike : network.Alike batch)
    (sound : network.Sound) (feeds : network.Composed) : network.Arranged automata := by
  have laid : network.Laid automata := alike.laid sound compiled composed
  obtain ⟨distinct, known, rfl⟩ := compose_eq_ok.mp composed
  have linked : ∀ link ∈ automata.flatMap (assembly automata).referenceLinks,
      link.kind = .constructionRef := fun _ => kind_of_mem_referenceLinks
  have unlinked : ((assembly automata).addLinks
      (automata.flatMap (assembly automata).referenceLinks)).others = (assembly automata).others := by
    have none : (automata.flatMap (assembly automata).referenceLinks).filter
        (·.kind ≠ .constructionRef) = [] :=
      List.filter_eq_nil_iff.mpr fun link member => by simp [linked link member]
    rw [Network.others, Network.addLinks, List.filter_append, none, List.append_nil]
    rfl
  have ordered : network.Ordered automata :=
    (ordered_assembly distinct compiled).congr alike.sites alike.members
      (alike.others.trans unlinked)
  have references := laid.feeding_eq known
  refine { ordered with
    distinct := sound.distinct
    index := fun name owner => sound.index_iff
    globalStart := alike.globalStart?.trans (globalStart?_assembly automata)
    ends := fun link => ordered.ends sound
    recorded := Recorded.of_sources fun link member => (ordered.ends sound member).1
    outgoing := ?_
    references := references
    targets := ?_
    summary := ordered.summary references }
  · intro rows recorded
    rw [recorded.rows_eq]
    refine ⟨by simp, fun node numbers found => ?_⟩
    obtain ⟨bound, rfl⟩ := List.getElem?_eq_some_iff.mp found
    rw [List.getElem_map, List.getElem_range]
    exact ⟨ascending_leaving network.links node, filterMap_leaving network.links node⟩
  · intro member registered
    obtain ⟨owner, found⟩ := List.mem_iff_getElem?.mp registered
    refine ⟨feeds.nodup_refTargets member, fun node => ⟨?_, ?_⟩, laid.pairwise_refTargets found⟩
    · intro target
      obtain ⟨site, here, reference⟩ := sound.reference_of_mem_refTargets found target
      exact ⟨site, here, sound.references node site here (by simp [reference]), reference⟩
    · intro facts
      obtain ⟨site, here, _, reference⟩ := facts
      exact feeds.mem_refTargets sound here reference registered

section Offering

/-- The network after automata were offered to it one by one, with those that it took. One that is
refused leaves the network as it was. -/
def offer (network : Network) : List Automaton → Network × List Automaton
  | [] => (network, [])
  | automaton :: rest =>
    match network.attach automaton true with
    | .error _ => network.offer rest
    | .ok grown =>
      let (final, taken) := grown.offer rest
      (final, automaton :: taken)

theorem sublist_offer (offers : List Automaton) : (network.offer offers).2.Sublist offers := by
  induction offers generalizing network with
  | nil => exact .slnil
  | cons automaton rest ih =>
    rw [offer]
    cases network.attach automaton true with
    | error error => exact ih.cons automaton
    | ok grown => exact ih.cons_cons automaton

theorem Alike.offer {offers : List Automaton}
    (compiled : ∀ automaton ∈ automata ++ offers, automaton.Sound)
    (composed : compose automata = .ok batch) (alike : network.Alike batch)
    (sound : network.Sound) (feeds : network.Composed) :
    (network.offer offers).1.Arranged (automata ++ (network.offer offers).2) := by
  induction offers generalizing network batch automata with
  | nil =>
    rw [List.append_nil] at compiled
    rw [Network.offer, List.append_nil]
    exact alike.arranged compiled composed sound feeds
  | cons automaton rest ih =>
    have here : automaton.Sound := compiled automaton (by simp)
    rw [Network.offer]
    cases attached : network.attach automaton true with
    | error error =>
      refine ih (fun other member => compiled other ?_) composed alike sound feeds
      rcases List.mem_append.mp member with old | later
      · exact List.mem_append_left _ old
      · exact List.mem_append_right _ (List.mem_cons_of_mem _ later)
    | ok grown =>
      have moved : automata ++ automaton :: rest = (automata ++ [automaton]) ++ rest := by simp
      rw [moved] at compiled
      obtain ⟨next, composed, alike⟩ := alike.attach
        (fun other member => compiled other (List.mem_append_left _ member)) composed attached
      have arranged := ih compiled composed alike (attach_grows sound here attached).1
        (attach_composed sound feeds here attached)
      simpa using arranged

/-- A composed network to which more patterns were offered, some of which it may have refused, is
arranged as a network of the patterns that it has. -/
theorem offer_arranged {offers : List Automaton}
    (compiled : ∀ automaton ∈ automata ++ offers, automaton.Compiled)
    (composed : compose automata = .ok network) :
    (network.offer offers).2.Sublist offers ∧
      (network.offer offers).1.Arranged (automata ++ (network.offer offers).2) := by
  have sounds : ∀ automaton ∈ automata ++ offers, automaton.Sound :=
    fun automaton member => (compiled automaton member).sound
  obtain ⟨sound, feeds⟩ := compose_sound
    (fun automaton member => sounds automaton (List.mem_append_left _ member)) composed
  exact ⟨sublist_offer offers, (Alike.refl network).offer sounds composed sound feeds⟩

/-- Two sums in a row are offered to the network of the sums, which refuses them the second
time. -/
theorem offer_arranged_pairs :
    (∀ automaton ∈ sumsAutomata ++ [pairsAutomaton, pairsAutomaton], automaton.Compiled) ∧
    compose sumsAutomata = .ok sumsNetwork ∧
    ∃ grown, (sumsNetwork.offer [pairsAutomaton, pairsAutomaton]).1 = grown ∧
      grown.Arranged (sumsAutomata ++ [pairsAutomaton]) ∧
      (grown.member? "sum").map grown.refTargets = some [2, 4, 7, 8] ∧
      grown.summary.nodes = 1 + (5 + 1) + (4 + 1) ∧
      [LinkKind.sequence, .bypass, .entry, .completion, .constructionRef].map (fun kind =>
        grown.summary.links.get? kind.label) = [some 8, some 0, some 2, some 2, some 4] := by
  have compiled : ∀ automaton ∈ sumsAutomata ++ [pairsAutomaton, pairsAutomaton],
      automaton.Compiled := by
    intro automaton member
    rcases List.mem_append.mp member with sum | pair
    · exact Grammar.compile_compiled sums_compile automaton sum
    · have same : automaton = pairsAutomaton := by simpa using pair
      exact same ▸ pairs_compiled
  have taken : (sumsNetwork.offer [pairsAutomaton, pairsAutomaton]).2 = [pairsAutomaton] := by
    decide +kernel
  obtain ⟨_, arranged⟩ := offer_arranged compiled sums_compose
  rw [taken] at arranged
  exact ⟨compiled, sums_compose, _, rfl, arranged, by decide +kernel, by decide +kernel,
    by decide +kernel⟩

end Offering

end Network

end Constructicon
