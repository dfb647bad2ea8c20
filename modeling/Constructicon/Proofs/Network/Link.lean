import Constructicon.Proofs.Network.Join

/-! Linking references. Completions are linked to every reference of an automaton, to each once;
such links leave all closures alone. -/
namespace Constructicon.Network

variable {network : Network} {automaton : Automaton} {hub : Option Nat}

/-- The references that completions are linked to, in the order of the links. -/
def fed (network : Network) : List Nat :=
  (network.links.filter (·.kind = .constructionRef)).map (·.target)

/-- The references of the named patterns, and no others, are linked, each once. -/
structure Linked (network : Network) (names : List String) : Prop where
  once : network.fed.Nodup
  exactly : ∀ node, node ∈ network.fed ↔ ∃ site, network.sites[node]? = some site ∧
    site.reference.isSome ∧ network.ownerName site.pattern ∈ names

def Composed (network : Network) : Prop :=
  network.Linked (network.members.map (·.name))

def addLinks (network : Network) (links : List Link) : Network :=
  { network with links := network.links ++ links }

theorem inner_addLinks {links : List Link} (feeding : ∀ link ∈ links, link.kind = .constructionRef) :
    (network.addLinks links).inner = network.inner := by
  have none : links.filterMap Link.inner? = [] := by
    rw [List.filterMap_eq_nil_iff]
    intro link member
    simp [Link.inner?, feeding link member]
  simp only [inner, addLinks, List.filterMap_append, none, List.append_nil]

theorem sound_addLinks {links : List Link} (sound : network.Sound)
    (feeding : ∀ link ∈ links, link.kind = .constructionRef ∧ ∃ member ∈ network.members, ∃ site,
      link.source = member.patternNode ∧ network.sites[link.target]? = some site ∧
        site.reference = some member.name) : (network.addLinks links).Sound := by
  have inner : (network.addLinks links).inner = network.inner :=
    inner_addLinks fun link member => (feeding link member).1
  have closures (seeds : List Nat) :
      (network.addLinks links).closureFrom seeds = network.closureFrom seeds := by
    unfold closureFrom
    rw [inner]
    rfl
  exact
    { sound with
      inner := inner ▸ sound.inner
      placed := fun owner member found =>
        have placed := sound.placed owner member found
        { placed with entryNodes := (closures _).symm ▸ placed.entryNodes }
      feeds := fun link member kind => by
        rcases List.mem_append.mp member with old | new
        · exact sound.feeds link old kind
        · exact (feeding link new).2 }

theorem member?_success {name : String} {member : Member}
    (found : network.member? name = some member) : member ∈ network.members ∧ member.name = name :=
  ⟨List.mem_of_find?_eq_some found, by simpa using List.find?_some found⟩

def referenceLink? (network : Network) (automaton : Automaton) (reference : String × String) :
    Option Link :=
  (network.member? reference.2).bind fun member =>
    (network.find? automaton.name reference.1).map fun node =>
      { source := member.patternNode, target := node, kind := .constructionRef }

/-- The links to an automaton's references, as far as the network knows what they name. -/
def referenceLinks (network : Network) (automaton : Automaton) : List Link :=
  automaton.references.filterMap (network.referenceLink? automaton)

/-- A link that leads from completions of a pattern to a reference of the automaton to it. -/
def LinksOne (network : Network) (automaton : Automaton) (references : List (String × String))
    (link : Link) : Prop :=
  link.kind = .constructionRef ∧ ∃ key name, (key, name) ∈ references ∧
    network.find? automaton.name key = some link.target ∧
    ∃ member ∈ network.members, member.name = name ∧ link.source = member.patternNode

theorem has_eq_isSome (network : Network) (name : String) :
    network.has name = (network.member? name).isSome := by
  rw [Bool.eq_iff_iff]
  simp [has, member?]

theorem referenceLink_eq_ok {reference : String × String} {links : List Link} :
    network.referenceLink automaton reference.1 reference.2 = .ok links ↔
      network.has reference.2 = true ∧
        links = (network.referenceLink? automaton reference).toList := by
  unfold referenceLink referenceLink?
  rw [has_eq_isSome]
  cases network.member? reference.2 with
  | none => simp
  | some member => cases network.find? automaton.name reference.1 <;> simp [eq_comm]

theorem mapM_referenceLink_eq_ok {references : List (String × String)} {lists : List (List Link)} :
    references.mapM (fun (key, name) => network.referenceLink automaton key name) = .ok lists ↔
      (∀ reference ∈ references, network.has reference.2 = true) ∧
        lists = references.map fun reference =>
          (network.referenceLink? automaton reference).toList := by
  simp only [mapM_eq_ok, referenceLink_eq_ok, List.forall₂_and_left, eq_map_iff]

theorem flatten_toList {α β : Type} (items : List α) (f : α → Option β) :
    (items.map fun item => (f item).toList).flatten = items.filterMap f := by
  induction items with
  | nil => rfl
  | cons item rest ih =>
    rw [List.map_cons, List.flatten_cons, ih, List.filterMap_cons]
    cases f item <;> rfl

theorem linkReferences_eq_ok {linked : Network} :
    network.linkReferences automaton = .ok linked ↔
      (∀ reference ∈ automaton.references, network.has reference.2 = true) ∧
        linked = network.addLinks (network.referenceLinks automaton) := by
  unfold linkReferences
  constructor
  · intro ok
    obtain ⟨lists, mapped, ok⟩ := bind_success ok
    cases ok
    obtain ⟨known, rfl⟩ := mapM_referenceLink_eq_ok.mp mapped
    exact ⟨known, by rw [flatten_toList]; rfl⟩
  · intro facts
    obtain ⟨known, rfl⟩ := facts
    rw [mapM_referenceLink_eq_ok.mpr ⟨known, rfl⟩]
    change Except.ok _ = Except.ok _
    rw [flatten_toList]
    rfl

theorem linksOne_of_mem {link : Link} (member : link ∈ network.referenceLinks automaton) :
    network.LinksOne automaton automaton.references link := by
  obtain ⟨reference, refers, linked⟩ := List.mem_filterMap.mp member
  obtain ⟨registered, found, linked⟩ := Option.bind_eq_some_iff.mp linked
  obtain ⟨node, target, rfl⟩ := Option.map_eq_some_iff.mp linked
  obtain ⟨present, named⟩ := member?_success found
  exact ⟨rfl, reference.1, reference.2, refers, target, registered, present, named, rfl⟩

theorem targets_referenceLinks
    (known : ∀ reference ∈ automaton.references, network.has reference.2 = true) :
    (network.referenceLinks automaton).map (·.target) = automaton.references.filterMap
      fun reference => network.find? automaton.name reference.1 := by
  rw [referenceLinks, List.map_filterMap]
  apply List.filterMap_congr
  intro reference refers
  have named := known reference refers
  rw [has_eq_isSome] at named
  obtain ⟨registered, found⟩ := Option.isSome_iff_exists.mp named
  simp [referenceLink?, found, Option.map_map, Function.comp_def]

theorem mem_references {key name : String} : (key, name) ∈ automaton.references ↔
    ∃ node, (key, node) ∈ automaton.nodes.entries ∧ node.reference = some name := by
  unfold Automaton.references
  rw [List.mem_filterMap]
  constructor
  · intro facts
    obtain ⟨⟨other, node⟩, member, same⟩ := facts
    obtain ⟨reference, found, equal⟩ := Option.map_eq_some_iff.mp same
    cases equal
    exact ⟨node, member, found⟩
  · intro facts
    obtain ⟨node, member, found⟩ := facts
    exact ⟨(key, node), member, by simp [found]⟩

theorem Hosts.find?_reference (hosts : network.Hosts automaton) (sound : network.Sound)
    {key name : String} (member : (key, name) ∈ automaton.references) : ∃ node site,
    network.find? automaton.name key = some node ∧ network.sites[node]? = some site ∧
      site.reference = some name ∧ network.ownerName site.pattern = automaton.name := by
  obtain ⟨owner, index, nodes⟩ := hosts
  obtain ⟨entry, present, reference⟩ := mem_references.mp member
  obtain ⟨inside, owned, proper⟩ := (nodes _).mpr ⟨(key, entry), present, rfl⟩
  obtain ⟨node, found⟩ := List.mem_iff_getElem?.mp inside
  obtain ⟨registered, at', named⟩ := Sound.member_of_memberIndex? index
  exact ⟨node, _, sound.find?_eq_some.mpr ⟨owner, _, index, found, owned, rfl, proper⟩, found,
    reference, by simp [ownerName, siteOf, at', named]⟩

theorem Hosts.reference_find? (hosts : network.Hosts automaton) (sound : network.Sound) {node : Nat}
    {site : Site} {name : String} (found : network.sites[node]? = some site)
    (reference : site.reference = some name)
    (owned : network.ownerName site.pattern = automaton.name) :
    (site.localId, name) ∈ automaton.references ∧
      network.find? automaton.name site.localId = some node := by
  obtain ⟨owner, index, nodes⟩ := hosts
  have role := sound.references node site found (by simp [reference])
  have proper : site.role ≠ .pattern := by simp [role]
  obtain ⟨mine, pattern⟩ := Option.isSome_iff_exists.mp (sound.elements node site found role).1
  have bound := sound.owned node site mine found pattern
  have same : mine = owner := by
    have named : network.members[mine].name = automaton.name := by
      simpa [ownerName, pattern, List.getElem?_eq_getElem bound] using owned
    have back := sound.memberIndex?_eq (List.getElem?_eq_getElem bound)
    rw [named, index] at back
    exact (Option.some.inj back).symm
  subst same
  obtain ⟨⟨key, entry⟩, present, rfl⟩ :=
    (nodes site).mp ⟨List.mem_of_getElem? found, pattern, proper⟩
  exact ⟨mem_references.mpr ⟨entry, present, reference⟩,
    sound.find?_eq_some.mpr ⟨mine, _, index, found, pattern, rfl, proper⟩⟩

theorem nodup_references : (automaton.references.map (·.1)).Nodup := by
  refine List.Nodup.sublist ?_ automaton.nodes.nodup_keys
  unfold Automaton.references Table.keys
  induction automaton.nodes.entries with
  | nil => exact .slnil
  | cons entry rest ih =>
    obtain ⟨key, node⟩ := entry
    cases reference : node.reference with
    | none => simpa [List.filterMap_cons, reference] using ih.cons key
    | some name => simpa [List.filterMap_cons, reference] using ih.cons_cons key

section Linking

variable {linked : Network} {names : List String}

theorem sound_linkReferences (sound : network.Sound) (hosts : network.Hosts automaton)
    (ok : network.linkReferences automaton = .ok linked) : linked.Sound := by
  obtain ⟨_, rfl⟩ := linkReferences_eq_ok.mp ok
  apply sound_addLinks sound
  intro link member
  obtain ⟨kind, key, name, present, target, source, registered, rfl, from'⟩ := linksOne_of_mem member
  obtain ⟨node, site, found, here, reference, _⟩ := hosts.find?_reference sound present
  cases target.symm.trans found
  exact ⟨kind, source, registered, site, from', here, reference⟩

/-- The references of the automaton are where it was placed. -/
theorem Hosts.mem_targets (hosts : network.Hosts automaton) (sound : network.Sound) (node : Nat) :
    node ∈ automaton.references.filterMap (fun reference =>
        network.find? automaton.name reference.1) ↔
      ∃ site, network.sites[node]? = some site ∧ site.reference.isSome ∧
        network.ownerName site.pattern = automaton.name := by
  rw [List.mem_filterMap]
  constructor
  · intro targeted
    obtain ⟨⟨key, name⟩, member, target⟩ := targeted
    obtain ⟨other, site, found, here, reference, owned⟩ := hosts.find?_reference sound member
    cases target.symm.trans found
    exact ⟨site, here, by simp [reference], owned⟩
  · intro placed
    obtain ⟨site, here, referring, owned⟩ := placed
    obtain ⟨name, reference⟩ := Option.isSome_iff_exists.mp referring
    obtain ⟨member, target⟩ := hosts.reference_find? sound here reference owned
    exact ⟨_, member, target⟩

theorem nodup_targets (sound : network.Sound) (automaton : Automaton) :
    (automaton.references.filterMap fun reference =>
      network.find? automaton.name reference.1).Nodup := by
  refine List.Pairwise.filterMap _ ?_ (List.pairwise_map.mp nodup_references)
  intro a b differ x hx y hy same
  obtain ⟨_, s, _, foundS, _, keyS, _⟩ := sound.find?_eq_some.mp hx
  obtain ⟨_, t, _, foundT, _, keyT, _⟩ := sound.find?_eq_some.mp hy
  rw [same, foundT] at foundS
  cases foundS
  exact differ (keyS.symm.trans keyT)

theorem Linked.linkReferences (before : network.Linked names) (sound : network.Sound)
    (hosts : network.Hosts automaton) (fresh : automaton.name ∉ names)
    (ok : network.linkReferences automaton = .ok linked) :
    linked.Linked (names ++ [automaton.name]) := by
  obtain ⟨known, rfl⟩ := linkReferences_eq_ok.mp ok
  have all : (network.referenceLinks automaton).filter (·.kind = .constructionRef) =
      network.referenceLinks automaton :=
    List.filter_eq_self.mpr fun link member => by simp [(linksOne_of_mem member).1]
  have fed : (network.addLinks (network.referenceLinks automaton)).fed =
      network.fed ++ automaton.references.filterMap fun reference =>
        network.find? automaton.name reference.1 := by
    unfold Network.fed
    rw [← targets_referenceLinks known]
    simp only [addLinks, List.filter_append, List.map_append, all]
  constructor
  case once =>
    rw [fed, List.nodup_append]
    refine ⟨before.once, nodup_targets sound automaton, fun node old other new same => ?_⟩
    subst same
    obtain ⟨s, foundS, _, ownedS⟩ := (before.exactly node).mp old
    obtain ⟨t, foundT, _, ownedT⟩ := (hosts.mem_targets sound node).mp new
    cases foundS.symm.trans foundT
    exact fresh (ownedT ▸ ownedS)
  case exactly =>
    intro node
    rw [fed, List.mem_append, before.exactly, hosts.mem_targets sound]
    simp only [List.mem_append, List.mem_singleton, and_or_left, exists_or]
    rfl

end Linking

theorem has_iff {name : String} : network.has name = true ↔ name ∈ network.members.map (·.name) := by
  simp [has]

theorem ownerName_join (sound : network.Sound) {node : Nat} {site : Site}
    (found : network.sites[node]? = some site) (referring : site.reference.isSome) :
    (network.join hub automaton).ownerName site.pattern = network.ownerName site.pattern := by
  obtain ⟨joined, members, _⟩ := join_members network hub automaton
  have role := sound.references node site found referring
  obtain ⟨mine, pattern⟩ := Option.isSome_iff_exists.mp (sound.elements node site found role).1
  have bound := sound.owned node site mine found pattern
  simp [ownerName, pattern, members, List.getElem?_append_left bound]

theorem filter_newLinks :
    (network.newLinks hub automaton).filter (·.kind = .constructionRef) = [] := by
  rw [List.filter_eq_nil_iff]
  intro link member kind
  exact (mem_newLinks member).1 (of_decide_eq_true kind)

theorem Linked.join {names : List String} (before : network.Linked names) (sound : network.Sound)
    (known : ∀ name ∈ names, network.has name = true)
    (fresh : network.has automaton.name = false) :
    (network.join hub automaton).Linked names := by
  obtain ⟨joined, members, named, _⟩ := join_members network hub automaton
  have fed : (network.join hub automaton).fed = network.fed := by
    unfold Network.fed
    rw [join_links, List.filter_append, filter_newLinks, List.append_nil]
  refine ⟨fed ▸ before.once, fun node => ?_⟩
  rw [fed, before.exactly]
  constructor
  · intro linked
    obtain ⟨site, found, referring, owned⟩ := linked
    exact ⟨site, grows_join.site found, referring, ownerName_join sound found referring ▸ owned⟩
  · intro linked
    obtain ⟨site, found, referring, owned⟩ := linked
    rcases join_site found with old | ⟨_, _, _, _, rfl⟩ | rfl
    · exact ⟨site, old, referring, ownerName_join sound old referring ▸ owned⟩
    · have unknown := known _ owned
      simp only [ownerName, siteOf, members, Option.bind_some, named,
        List.getElem?_concat_length, Option.map_some, Option.getD_some] at unknown
      rw [fresh] at unknown
      cases unknown
    · cases referring

/-- In a composed network a completion feeds every reference to its pattern. -/
theorem Composed.mem_refTargets (composed : network.Composed) (sound : network.Sound)
    {node : Nat} {member : Member} {site : Site} (here : network.sites[node]? = some site)
    (names : site.reference = some member.name) (registered : member ∈ network.members) :
    node ∈ network.refTargets member := by
  have refers : site.reference.isSome := by simp [names]
  have role := sound.references node site here refers
  obtain ⟨owner, owned⟩ := Option.isSome_iff_exists.mp (sound.elements node site here role).1
  have bound := sound.owned node site owner here owned
  have fed : node ∈ network.fed := by
    refine (composed.exactly node).mpr ⟨site, here, refers, List.mem_map.mpr ?_⟩
    exact ⟨network.members[owner], List.getElem_mem bound,
      by simp [ownerName, owned, List.getElem?_eq_getElem bound]⟩
  obtain ⟨link, kept, rfl⟩ := List.mem_map.mp fed
  obtain ⟨present, kind⟩ := List.mem_filter.mp kept
  obtain ⟨other, isMember, _, source, at', reference⟩ :=
    sound.feeds link present (of_decide_eq_true kind)
  rw [here] at at'
  cases at'
  rw [names] at reference
  have same : member = other :=
    sound.member_ext registered isMember (Option.some.inj reference)
  refine List.mem_map.mpr ⟨link, List.mem_filter.mpr ⟨List.mem_filter.mpr ⟨present, ?_⟩, kind⟩, rfl⟩
  simp [source, same]

theorem Composed.nodup_refTargets (composed : network.Composed) (member : Member) :
    (network.refTargets member).Nodup := by
  refine composed.once.sublist (List.Sublist.map _ ?_)
  exact List.filter_sublist.filter _

end Constructicon.Network
