import Constructicon.Network
import Constructicon.Proofs.Closure

/-! Well-formed networks. Names are unique, every pattern owns the nodes around its start, a node
is known by its pattern's name and its key, and a completion only feeds references to its own
pattern. Networks grow at their end: what a node is, what follows it and how it is found never
change when a pattern is added. -/
namespace Constructicon

theorem getElem?_extend {α : Type} {less more : List α} (grown : less <+: more) {i : Nat} {a : α}
    (found : less[i]? = some a) : more[i]? = some a := by
  obtain ⟨extra, rfl⟩ := grown
  rw [List.getElem?_append_left (List.getElem?_eq_some_iff.mp found).1, found]

theorem getElem?_restrict {α : Type} {less more : List α} (grown : less <+: more) {i : Nat}
    (bound : i < less.length) : more[i]? = less[i]? := by
  obtain ⟨extra, rfl⟩ := grown
  exact List.getElem?_append_left bound

theorem getElem?_concat_cases {α : Type} {items : List α} {last a : α} {i : Nat}
    (found : (items ++ [last])[i]? = some a) :
    items[i]? = some a ∨ i = items.length ∧ a = last := by
  by_cases before : i < items.length
  · rw [List.getElem?_append_left before] at found
    exact .inl found
  · have bound := (List.getElem?_eq_some_iff.mp found).1
    rw [List.length_append, List.length_singleton] at bound
    have same : i = items.length := by omega
    rw [same, List.getElem?_concat_length] at found
    exact .inr ⟨same, (Option.some.inj found).symm⟩

namespace Network

/-- The places of a registered pattern. -/
structure Placed (network : Network) (owner : Nat) (member : Member) : Prop where
  start : ∃ site, network.sites[member.start]? = some site ∧ site.pattern = some owner
  finish : ∃ site, network.sites[member.finish]? = some site ∧ site.pattern = some owner ∧
    site.role = .finish
  patternNode : ∃ site, network.sites[member.patternNode]? = some site ∧
    site.pattern = some owner ∧ site.role = .pattern
  entryNodes : member.entryNodes = (network.closureFrom [member.start]).elements

structure Sound (network : Network) : Prop where
  distinct : (network.members.map (·.name)).Nodup
  owned : ∀ (node : Nat) (site : Site) (owner : Nat), network.sites[node]? = some site →
    site.pattern = some owner → owner < network.members.length
  localIds : ∀ (a b : Nat) (s t : Site), network.sites[a]? = some s → network.sites[b]? = some t →
    s.pattern.isSome → s.pattern = t.pattern → s.localId = t.localId →
    s.role ≠ .pattern → t.role ≠ .pattern → a = b
  inner : ∀ edge ∈ network.inner, ∃ s t, network.sites[edge.source]? = some s ∧
    network.sites[edge.target]? = some t ∧ s.pattern = t.pattern
  elements : ∀ (node : Nat) (site : Site), network.sites[node]? = some site →
    site.role = .element → site.pattern.isSome ∧ site.elementType.isSome
  references : ∀ (node : Nat) (site : Site), network.sites[node]? = some site →
    site.reference.isSome → site.role = .element
  placed : ∀ (owner : Nat) (member : Member), network.members[owner]? = some member →
    network.Placed owner member
  feeds : ∀ link ∈ network.links, link.kind = .constructionRef →
    ∃ member ∈ network.members, ∃ site, link.source = member.patternNode ∧
      network.sites[link.target]? = some site ∧ site.reference = some member.name

variable {network : Network}

theorem role_of_kindOf {node : Nat} (element : network.kindOf node = .element) :
    ∃ site, network.sites[node]? = some site ∧ site.role = .element := by
  unfold kindOf at element
  cases found : network.sites[node]? with
  | none => rw [found] at element; cases element
  | some site =>
    rw [found] at element
    refine ⟨site, rfl, ?_⟩
    cases role : site.role with
    | element => rfl
    | _ => simp [role, Role.kind] at element

theorem role_of_matchType {site : Site} {elementType : String}
    (agrees : site.matchType = some elementType) : site.role = .element := by
  unfold Site.matchType at agrees
  split at agrees
  · assumption
  · cases agrees

theorem lt_of_site {node : Nat} {site : Site} (found : network.sites[node]? = some site) :
    node < network.sites.length :=
  (List.getElem?_eq_some_iff.mp found).1

namespace Sound

theorem memberIndex?_eq (sound : network.Sound) {owner : Nat} {member : Member}
    (found : network.members[owner]? = some member) :
    network.memberIndex? member.name = some owner := by
  obtain ⟨bound, rfl⟩ := List.getElem?_eq_some_iff.mp found
  unfold memberIndex?
  rw [List.findIdx?_eq_some_iff_getElem]
  refine ⟨bound, by simp, fun other before => ?_⟩
  have differ := List.pairwise_iff_getElem.mp (List.pairwise_map.mp sound.distinct)
    other owner (by omega) bound before
  simpa using differ

theorem member_of_memberIndex? {name : String} {owner : Nat}
    (found : network.memberIndex? name = some owner) :
    ∃ member, network.members[owner]? = some member ∧ member.name = name := by
  unfold memberIndex? at found
  obtain ⟨bound, same, _⟩ := List.findIdx?_eq_some_iff_getElem.mp found
  exact ⟨network.members[owner], List.getElem?_eq_getElem bound, by simpa using same⟩

theorem memberIndex?_injective {a b : String} {owner : Nat}
    (first : network.memberIndex? a = some owner) (second : network.memberIndex? b = some owner) :
    a = b := by
  obtain ⟨member, here, name⟩ := member_of_memberIndex? first
  obtain ⟨other, there, name'⟩ := member_of_memberIndex? second
  cases here.symm.trans there
  exact name.symm.trans name'

theorem member_ext (sound : network.Sound) {a b : Member} (first : a ∈ network.members)
    (second : b ∈ network.members) (same : a.name = b.name) : a = b := by
  obtain ⟨p, here⟩ := List.mem_iff_getElem?.mp first
  obtain ⟨q, there⟩ := List.mem_iff_getElem?.mp second
  have index := sound.memberIndex?_eq here
  rw [same, sound.memberIndex?_eq there] at index
  rw [Option.some.inj index, here] at there
  exact Option.some.inj there

theorem find?_eq_some (sound : network.Sound) {name localId : String} {node : Nat} :
    network.find? name localId = some node ↔ ∃ owner site,
      network.memberIndex? name = some owner ∧ network.sites[node]? = some site ∧
      site.pattern = some owner ∧ site.localId = localId ∧ site.role ≠ .pattern := by
  unfold find?
  cases index : network.memberIndex? name with
  | none => simp
  | some owner =>
    simp only [Option.bind_eq_bind, Option.bind_some, Option.some.injEq]
    rw [List.findIdx?_eq_some_iff_getElem]
    constructor
    · intro facts
      obtain ⟨bound, same, _⟩ := facts
      simp only [decide_eq_true_eq] at same
      exact ⟨owner, network.sites[node], rfl, List.getElem?_eq_getElem bound, same⟩
    · intro facts
      obtain ⟨_, site, rfl, found, owned, named, proper⟩ := facts
      obtain ⟨bound, rfl⟩ := List.getElem?_eq_some_iff.mp found
      refine ⟨bound, by simp [owned, named, proper], fun other before => ?_⟩
      simp only [decide_eq_true_eq]
      intro facts
      obtain ⟨owned', named', proper'⟩ := facts
      have same := sound.localIds other node _ _ (List.getElem?_eq_getElem (by omega)) found
        (by simp [owned']) (owned'.trans owned.symm) (named'.trans named.symm) proper' proper
      omega

theorem find?_injective (sound : network.Sound) {name name' key key' : String} {node : Nat}
    (first : network.find? name key = some node) (second : network.find? name' key' = some node) :
    name = name' ∧ key = key' := by
  obtain ⟨owner, site, index, found, owned, named, _⟩ := sound.find?_eq_some.mp first
  obtain ⟨owner', site', index', found', owned', named', _⟩ := sound.find?_eq_some.mp second
  rw [found] at found'
  cases found'
  rw [owned] at owned'
  cases owned'
  exact ⟨memberIndex?_injective index index', named.symm.trans named'⟩

theorem member?_eq_some (sound : network.Sound) {name : String} {member : Member} :
    network.member? name = some member ↔ ∃ owner, network.memberIndex? name = some owner ∧
      network.members[owner]? = some member := by
  constructor
  · intro found
    obtain ⟨owner, at'⟩ := List.mem_iff_getElem?.mp (List.mem_of_find?_eq_some found)
    have named : member.name = name := by simpa using List.find?_some found
    exact ⟨owner, named ▸ sound.memberIndex?_eq at', at'⟩
  · intro facts
    obtain ⟨owner, index, at'⟩ := facts
    unfold memberIndex? at index
    unfold member?
    rw [List.findIdx?_eq_some_iff_findIdx_eq] at index
    rw [List.find?_eq_getElem?_findIdx, index.2, at']

theorem patternNode_injective (sound : network.Sound) {p q : Nat} {a b : Member}
    (first : network.members[p]? = some a) (second : network.members[q]? = some b)
    (same : a.patternNode = b.patternNode) : p = q := by
  obtain ⟨s, foundS, ownedS, _⟩ := (sound.placed p a first).patternNode
  obtain ⟨t, foundT, ownedT, _⟩ := (sound.placed q b second).patternNode
  rw [same, foundT] at foundS
  cases foundS
  exact Option.some.inj (ownedS.symm.trans ownedT)

/-- A completion only feeds references to the pattern that completed. -/
theorem reference_of_mem_refTargets (sound : network.Sound) {owner node : Nat} {member : Member}
    (found : network.members[owner]? = some member) (target : node ∈ network.refTargets member) :
    ∃ site, network.sites[node]? = some site ∧ site.reference = some member.name := by
  obtain ⟨link, kept, rfl⟩ := List.mem_map.mp target
  obtain ⟨leaving, kind⟩ := List.mem_filter.mp kept
  obtain ⟨present, source⟩ := List.mem_filter.mp leaving
  simp only [decide_eq_true_eq] at kind source
  obtain ⟨other, isMember, site, from', here, reference⟩ := sound.feeds link present kind
  obtain ⟨q, at'⟩ := List.mem_iff_getElem?.mp isMember
  have same := sound.patternNode_injective found at' (source.symm.trans from')
  rw [← same, found] at at'
  cases at'
  exact ⟨site, here, reference⟩

theorem inner_bounds (sound : network.Sound) {edge : Edge Nat} (member : edge ∈ network.inner) :
    edge.source < network.sites.length ∧ edge.target < network.sites.length := by
  obtain ⟨s, t, source, target, _⟩ := sound.inner edge member
  exact ⟨lt_of_site source, lt_of_site target⟩

theorem closureFrom_owner (sound : network.Sound) {seeds : List Nat} {owner : Option Nat}
    (seeded : ∀ seed ∈ seeds, (network.sites[seed]?).map (·.pattern) = some owner) {node : Nat}
    (member : node ∈ (network.closureFrom seeds).elements) :
    ∃ site, network.sites[node]? = some site ∧ site.role = .element ∧ site.pattern = owner := by
  have stays := closure_stays
    (fun node => (network.sites[node]?).map (·.pattern) = some owner)
    (fun edge present inside => by
      obtain ⟨s, t, source, target, same⟩ := sound.inner edge present
      rw [source] at inside
      rw [target]
      simpa [← same] using inside) seeded member
  obtain ⟨site, found, role⟩ := role_of_kindOf (mem_closure_elements.mp member).1
  rw [found] at stays
  exact ⟨site, found, role, by simpa using stays⟩

theorem closureAfter_owner (sound : network.Sound) {before node : Nat} {site : Site}
    (found : network.sites[before]? = some site)
    (member : node ∈ (network.closureAfter before).elements) :
    ∃ next, network.sites[node]? = some next ∧ next.role = .element ∧
      next.pattern = site.pattern := by
  refine sound.closureFrom_owner (fun seed present => ?_) member
  obtain ⟨edge, leaving, rfl⟩ := List.mem_map.mp (List.mem_eraseDups.mp present)
  obtain ⟨edgeIn, source⟩ := List.mem_filter.mp leaving
  obtain ⟨s, t, foundS, foundT, same⟩ := sound.inner edge edgeIn
  rw [of_decide_eq_true source, found] at foundS
  cases foundS
  rw [foundT, Option.map_some, same]

theorem entryNode_owner (sound : network.Sound) {owner node : Nat} {member : Member}
    (found : network.members[owner]? = some member) (entry : node ∈ member.entryNodes) :
    ∃ site, network.sites[node]? = some site ∧ site.role = .element ∧
      site.pattern = some owner := by
  have placed := sound.placed owner member found
  obtain ⟨site, start, owned⟩ := placed.start
  rw [placed.entryNodes] at entry
  refine sound.closureFrom_owner (fun seed present => ?_) entry
  rw [List.mem_singleton.mp present, start, Option.map_some, owned]

theorem nodup_entryNodes (sound : network.Sound) {owner : Nat} {member : Member}
    (found : network.members[owner]? = some member) : member.entryNodes.Nodup := by
  rw [(sound.placed owner member found).entryNodes]
  exact nodup_closure_elements _ _ _

end Sound

theorem nodup_closureAfter (node : Nat) : (network.closureAfter node).elements.Nodup :=
  nodup_closure_elements _ _ _

/-- What the growth of a network leaves alone: new links lead neither along a pattern that is
there already nor to any of its references. -/
structure Grows (old new : Network) : Prop where
  sites : old.sites <+: new.sites
  members : old.members <+: new.members
  links : ∃ extra, new.links = old.links ++ extra ∧ ∀ link ∈ extra,
    (link.inner?.isSome → old.sites.length ≤ link.source) ∧
      (link.kind = .constructionRef → old.sites.length ≤ link.target)

namespace Grows

variable {old new : Network}

theorem site (grows : old.Grows new) {node : Nat} {site : Site}
    (found : old.sites[node]? = some site) : new.sites[node]? = some site :=
  getElem?_extend grows.sites found

theorem site_eq (grows : old.Grows new) {node : Nat} (bound : node < old.sites.length) :
    new.sites[node]? = old.sites[node]? :=
  getElem?_restrict grows.sites bound

theorem member (grows : old.Grows new) {owner : Nat} {member : Member}
    (found : old.members[owner]? = some member) : new.members[owner]? = some member :=
  getElem?_extend grows.members found

theorem memberIndex? (grows : old.Grows new) (sound : new.Sound) {name : String} {owner : Nat}
    (found : old.memberIndex? name = some owner) : new.memberIndex? name = some owner := by
  obtain ⟨member, at', rfl⟩ := Sound.member_of_memberIndex? found
  exact sound.memberIndex?_eq (grows.member at')

theorem find? (grows : old.Grows new) (soundOld : old.Sound) (sound : new.Sound)
    {name localId : String} {node : Nat} (found : old.find? name localId = some node) :
    new.find? name localId = some node := by
  obtain ⟨owner, site, index, here, rest⟩ := soundOld.find?_eq_some.mp found
  exact sound.find?_eq_some.mpr
    ⟨owner, site, grows.memberIndex? sound index, grows.site here, rest⟩

theorem kindOf (grows : old.Grows new) {node : Nat} (bound : node < old.sites.length) :
    new.kindOf node = old.kindOf node := by
  unfold Network.kindOf
  rw [grows.site_eq bound]

theorem inner (grows : old.Grows new) : ∃ extra, new.inner = old.inner ++ extra ∧
    ∀ edge ∈ extra, ¬ edge.source < old.sites.length := by
  obtain ⟨extra, same, foreign⟩ := grows.links
  refine ⟨extra.filterMap Link.inner?, by simp [Network.inner, same], fun edge member => ?_⟩
  obtain ⟨link, present, inner⟩ := List.mem_filterMap.mp member
  have beyond := (foreign link present).1 (by simp [inner])
  have source : edge.source = link.source := by
    unfold Link.inner? at inner
    split at inner <;> cases inner <;> rfl
  omega

theorem closureFrom (grows : old.Grows new) (sound : old.Sound) {seeds : List Nat}
    (seeded : ∀ seed ∈ seeds, seed < old.sites.length) :
    new.closureFrom seeds = old.closureFrom seeds := by
  obtain ⟨extra, same, foreign⟩ := grows.inner
  unfold Network.closureFrom
  rw [same]
  exact closure_append (· < old.sites.length)
    (fun edge member => sound.inner_bounds member) foreign seeded fun node => grows.kindOf

theorem closureAfter (grows : old.Grows new) (sound : old.Sound) {node : Nat}
    (bound : node < old.sites.length) : new.closureAfter node = old.closureAfter node := by
  obtain ⟨extra, same, foreign⟩ := grows.inner
  have leaving : Edge.leaving extra node = [] := by
    rw [Edge.leaving, List.filter_eq_nil_iff]
    intro edge member equal
    exact foreign edge member (of_decide_eq_true equal ▸ bound)
  have successors : Edge.successors new.inner node = Edge.successors old.inner node := by
    unfold Edge.successors
    rw [same]
    unfold Edge.leaving at leaving ⊢
    rw [List.filter_append, leaving, List.append_nil]
  unfold Network.closureAfter
  rw [successors]
  apply grows.closureFrom sound
  intro seed present
  obtain ⟨edge, kept, rfl⟩ := List.mem_map.mp (List.mem_eraseDups.mp present)
  exact (sound.inner_bounds (List.mem_filter.mp kept).1).2

/-- Who feeds a reference is settled when its pattern is added. -/
theorem refTargets (grows : old.Grows new) (soundOld : old.Sound) (sound : new.Sound)
    {owner node : Nat} {member : Member} (found : new.members[owner]? = some member)
    (target : node ∈ new.refTargets member) (bound : node < old.sites.length) :
    old.members[owner]? = some member ∧ node ∈ old.refTargets member := by
  obtain ⟨extra, same, foreign⟩ := grows.links
  obtain ⟨link, kept, rfl⟩ := List.mem_map.mp target
  obtain ⟨leaving, kind⟩ := List.mem_filter.mp kept
  obtain ⟨present, source⟩ := List.mem_filter.mp leaving
  simp only [decide_eq_true_eq] at kind source
  have before : link ∈ old.links := by
    rw [same] at present
    rcases List.mem_append.mp present with present | present
    · exact present
    · have beyond := (foreign link present).2 kind
      omega
  obtain ⟨other, isMember, _, from', _⟩ := soundOld.feeds link before kind
  obtain ⟨q, at'⟩ := List.mem_iff_getElem?.mp isMember
  have index := sound.patternNode_injective found (grows.member at') (source.symm.trans from')
  have equal : other = member := by
    have later := grows.member at'
    rw [← index, found] at later
    exact (Option.some.inj later).symm
  subst equal
  refine ⟨index ▸ at', List.mem_map.mpr ⟨link, ?_, rfl⟩⟩
  exact List.mem_filter.mpr ⟨List.mem_filter.mpr ⟨before, by simpa using source⟩, by simpa using kind⟩

end Grows

theorem grows_refl (network : Network) : network.Grows network :=
  ⟨List.prefix_refl _, List.prefix_refl _, [], by simp, by simp⟩

theorem Grows.member? {old new : Network} (grows : old.Grows new) (soundOld : old.Sound)
    (sound : new.Sound) {name : String} {member : Member} (found : old.member? name = some member) :
    new.member? name = some member := by
  obtain ⟨owner, index, at'⟩ := soundOld.member?_eq_some.mp found
  exact sound.member?_eq_some.mpr ⟨owner, grows.memberIndex? sound index, grows.member at'⟩

theorem Sound.lt_of_find? (sound : network.Sound) {name localId : String}
    {node : Nat} (found : network.find? name localId = some node) : node < network.sites.length := by
  obtain ⟨_, _, _, here, _⟩ := sound.find?_eq_some.mp found
  exact lt_of_site here

end Network

end Constructicon
