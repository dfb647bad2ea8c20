import Constructicon.Proofs.Network.Assembly

/-! Networks that differ in the order of their links only, the links to references being in one
order and all others too. Nothing that a session asks of a network tells them apart. A network to
which patterns were attached one by one is like the one composed of all patterns at once. -/
namespace Constructicon.Network

/-- The links that do not lead to references. -/
def others (network : Network) : List Link :=
  network.links.filter (·.kind ≠ .constructionRef)

structure Alike (a b : Network) : Prop where
  sites : a.sites = b.sites
  members : a.members = b.members
  feeding : a.feeding = b.feeding
  others : a.others = b.others

theorem inner_eq_others (network : Network) :
    network.inner = network.others.filterMap Link.inner? := by
  rw [inner, others, List.filterMap_filter]
  apply List.filterMap_congr
  intro link _
  cases kind : link.kind <;> simp [Link.inner?, kind]

theorem refTargets_eq_feeding (network : Network) (member : Member) : network.refTargets member =
    (network.feeding.filter (·.source = member.patternNode)).map (·.target) := by
  simp only [refTargets, outgoing, feeding, List.filter_filter, Bool.and_comm]

theorem closureFrom_congr {a b : Network} (sites : a.sites = b.sites) (others : a.others = b.others) :
    a.closureFrom = b.closureFrom := by
  funext seeds
  have kinds : a.kindOf = b.kindOf := by
    funext node
    simp only [kindOf, sites]
  rw [closureFrom, closureFrom, kinds, inner_eq_others, inner_eq_others, others]

namespace Alike

variable {a b : Network}

theorem refl (network : Network) : network.Alike network := ⟨rfl, rfl, rfl, rfl⟩

theorem trans {c : Network} (first : a.Alike b) (second : b.Alike c) : a.Alike c :=
  ⟨first.sites.trans second.sites, first.members.trans second.members,
    first.feeding.trans second.feeding, first.others.trans second.others⟩

theorem perm (alike : a.Alike b) : a.links.Perm b.links := by
  have split (network : Network) : (network.feeding ++ network.others).Perm network.links := by
    simpa [Network.feeding, Network.others] using
      List.filter_append_perm (·.kind = .constructionRef) network.links
  calc a.links.Perm (a.feeding ++ a.others) := (split a).symm
    _ = b.feeding ++ b.others := by rw [alike.feeding, alike.others]
    List.Perm _ b.links := split b

theorem closureFrom (alike : a.Alike b) : a.closureFrom = b.closureFrom :=
  closureFrom_congr alike.sites alike.others

theorem closureAfter (alike : a.Alike b) : a.closureAfter = b.closureAfter := by
  funext node
  rw [Network.closureAfter, Network.closureAfter, inner_eq_others, inner_eq_others, alike.others,
    alike.closureFrom]

theorem refTargets (alike : a.Alike b) : a.refTargets = b.refTargets := by
  funext member
  rw [refTargets_eq_feeding, refTargets_eq_feeding, alike.feeding]

theorem carries (alike : a.Alike b) {automaton : Automaton} {owner base : Nat}
    (carries : b.Carries automaton owner base) : a.Carries automaton owner base where
  compiled := carries.compiled
  member := alike.members ▸ carries.member
  site := alike.sites ▸ carries.site
  after := alike.closureAfter ▸ carries.after

theorem find? (alike : a.Alike b) : a.find? = b.find? := by
  funext name key
  simp only [Network.find?, memberIndex?, alike.sites, alike.members]

theorem has (alike : a.Alike b) : a.has = b.has := by
  funext name
  rw [Network.has, Network.has, alike.members]

theorem globalStart? (alike : a.Alike b) : a.globalStart? = b.globalStart? := by
  rw [Network.globalStart?, Network.globalStart?, alike.sites]

theorem referenceLinks (alike : a.Alike b) : a.referenceLinks = b.referenceLinks := by
  funext automaton
  have one : a.referenceLink? automaton = b.referenceLink? automaton := by
    funext reference
    rw [referenceLink?, referenceLink?, member?, member?, alike.members, alike.find?]
  rw [Network.referenceLinks, Network.referenceLinks, one]

theorem addLinks (alike : a.Alike b) (links : List Link) :
    (a.addLinks links).Alike (b.addLinks links) := by
  obtain ⟨sites, members, feeding, others⟩ := alike
  unfold Network.feeding at feeding
  unfold Network.others at others
  refine ⟨sites, members, ?_, ?_⟩
  · simp only [Network.feeding, Network.addLinks, List.filter_append, feeding]
  · simp only [Network.others, Network.addLinks, List.filter_append, others]

theorem members_join (sites : a.sites = b.sites) (members : a.members = b.members)
    (others : a.others = b.others) (hub : Option Nat) (automaton : Automaton) :
    (a.join hub automaton).members = (b.join hub automaton).members := by
  obtain ⟨sitesA, linksA, membersA⟩ := a
  obtain ⟨sitesB, linksB, membersB⟩ := b
  subst sites members
  have grown (sites : List Site) (members : List Member) (extra : List Link) :
      Network.closureFrom { sites, members, links := linksA ++ extra } =
        Network.closureFrom { sites, members, links := linksB ++ extra } := by
    refine closureFrom_congr rfl ?_
    unfold Network.others at others ⊢
    simp only [List.filter_append, others]
  unfold Network.join
  simp only [List.append_assoc]
  rw [grown]

/-- An automaton is placed alike, whether references were linked before or will be afterwards. -/
theorem join {links : List Link} (alike : a.Alike (b.addLinks links))
    (feeds : ∀ link ∈ links, link.kind = .constructionRef) (hub : Option Nat)
    (automaton : Automaton) :
    (a.join hub automaton).Alike ((b.join hub automaton).addLinks links) := by
  obtain ⟨sites, members, feeding, others⟩ := alike
  change a.sites = b.sites at sites
  change a.members = b.members at members
  have all : links.filter (·.kind = .constructionRef) = links :=
    List.filter_eq_self.mpr fun link member => by simp [feeds link member]
  have none : links.filter (·.kind ≠ .constructionRef) = [] :=
    List.filter_eq_nil_iff.mpr fun link member => by simp [feeds link member]
  have new : a.newLinks hub automaton = b.newLinks hub automaton := by
    simp only [newLinks, placeFor, sites]
  unfold Network.feeding Network.addLinks at feeding
  rw [List.filter_append, all] at feeding
  unfold Network.others Network.addLinks at others
  rw [List.filter_append, none, List.append_nil] at others
  constructor
  case sites =>
    rw [join_sites, sites, members]
    rfl
  case members => exact members_join sites members others hub automaton
  case feeding =>
    simp only [Network.feeding, Network.addLinks, join_links, List.filter_append, filter_newLinks,
      List.append_nil, all, feeding]
  case others =>
    simp only [Network.others, Network.addLinks, join_links, List.filter_append, none,
      List.append_nil, others, new]

end Alike

theorem assembly_append (automata : List Automaton) (automaton : Automaton) :
    assembly (automata ++ [automaton]) = (assembly automata).join (some 0) automaton := by
  rw [assembly, joinAll, List.foldl_append]
  rfl

theorem grows_joinAll {network : Network} {hub : Option Nat} (automata : List Automaton) :
    network.Grows (network.joinAll hub automata) := by
  induction automata generalizing network with
  | nil => exact grows_refl network
  | cons automaton rest ih => exact grows_join.trans ih

theorem globalStart?_assembly (automata : List Automaton) :
    (assembly automata).globalStart? = some 0 := by
  have grows : (withGlobalStart {}).Grows (assembly automata) := grows_joinAll automata
  obtain ⟨rest, sites⟩ := grows.sites
  rw [globalStart?, ← sites]
  rfl

theorem joinHub_eq {network : Network} (composed : network.globalStart? = some 0)
    (automaton : Automaton) : network.joinHub automaton = network.join (some 0) automaton := by
  have same : network.withGlobalStart = network := by
    unfold withGlobalStart
    rw [composed]
  rw [joinHub, same, composed]

theorem kind_of_mem_referenceLinks {network : Network} {automata : List Automaton} {link : Link}
    (member : link ∈ automata.flatMap network.referenceLinks) : link.kind = .constructionRef := by
  obtain ⟨automaton, _, linked⟩ := List.mem_flatMap.mp member
  exact (linksOne_of_mem linked).1

/-- A pattern that is attached to a composed network might as well have been composed with it. -/
theorem Alike.attach {network batch grown : Network} {automata : List Automaton}
    {automaton : Automaton} (compiled : ∀ other ∈ automata ++ [automaton], other.Sound)
    (composed : compose automata = .ok batch) (alike : network.Alike batch)
    (ok : network.attach automaton true = .ok grown) :
    ∃ next, compose (automata ++ [automaton]) = .ok next ∧ grown.Alike next := by
  obtain ⟨distinct, known, rfl⟩ := compose_eq_ok.mp composed
  obtain ⟨fresh, refers, rfl⟩ := attach_eq_ok.mp ok
  obtain ⟨sound, hosts⟩ := sound_assembly distinct fun other member =>
    compiled other (List.mem_append_left _ member)
  have has (name : String) : network.has name = true ↔ name ∈ automata.map (·.name) := by
    rw [alike.has, ← names_assembly, ← has_iff]
    rfl
  have new : automaton.name ∉ automata.map (·.name) := by simp [← has, fresh]
  have distinctAll : ((automata ++ [automaton]).map (·.name)).Nodup := by
    rw [List.map_append, List.map_singleton, ← List.concat_eq_append]
    exact distinct.concat new
  refine ⟨_, compose_eq_ok.mpr ⟨distinctAll, ?_, rfl⟩, ?_⟩
  · intro other member reference refers'
    rw [List.map_append, List.mem_append]
    rcases List.mem_append.mp member with old | last
    · exact .inl (known other old reference refers')
    · cases List.mem_singleton.mp last
      rcases refers reference refers' with own | earlier
      · exact .inr (List.mem_singleton.mpr own)
      · exact .inl ((has _).mp earlier)
  · have before : ∀ other ∈ automata, ((assembly automata).join (some 0) automaton).referenceLinks
        other = (assembly automata).referenceLinks other := by
      intro other member
      have soundAll := (sound_assembly distinctAll compiled).1
      rw [assembly_append] at soundAll
      refine grows_join.referenceLinks sound soundAll (hosts other member) fun reference refers' => ?_
      rw [has_iff, names_assembly]
      exact known other member reference refers'
    have joined := alike.join (fun _ => kind_of_mem_referenceLinks) (some 0) automaton
    rw [joinHub_eq (alike.globalStart?.trans (globalStart?_assembly automata)), assembly_append,
      List.flatMap_append, List.flatMap_congr before, List.flatMap_singleton, ← addLinks_addLinks,
      joined.referenceLinks]
    exact joined.addLinks _

end Constructicon.Network
