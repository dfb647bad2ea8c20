import Constructicon.Proofs.Network.Link

/-! Building keeps networks well-formed: composing, placing side by side and attaching all do.
Attaching makes a network grow, and in a composed network every reference is linked, also once
more patterns have been attached. -/
namespace Constructicon.Network

variable {network : Network} {automaton : Automaton} {hub : Option Nat}

theorem withGlobalStart_cases (network : Network) : network.withGlobalStart = network ∨ ∃ site,
    network.withGlobalStart = { network with sites := network.sites ++ [site] } ∧
      site.pattern = none ∧ site.role = .globalStart ∧ site.reference = none := by
  unfold withGlobalStart
  split
  · exact .inl rfl
  · exact .inr ⟨_, rfl, rfl, rfl, rfl⟩

theorem members_withGlobalStart : network.withGlobalStart.members = network.members := by
  rcases withGlobalStart_cases network with same | ⟨site, same, _⟩ <;> rw [same]

theorem grows_withGlobalStart : network.Grows network.withGlobalStart := by
  rcases withGlobalStart_cases network with same | ⟨site, same, _⟩
  · rw [same]
    exact ⟨List.prefix_refl _, List.prefix_refl _, [], by simp, by simp⟩
  · rw [same]
    exact ⟨List.prefix_append _ _, List.prefix_refl _, [], by simp, by simp⟩

theorem withGlobalStart_site {node : Nat} {site : Site}
    (found : network.withGlobalStart.sites[node]? = some site) :
    network.sites[node]? = some site ∨
      site.pattern = none ∧ site.role = .globalStart ∧ site.reference = none := by
  rcases withGlobalStart_cases network with same | ⟨global, same, facts⟩
  · rw [same] at found
    exact .inl found
  · rw [same] at found
    rcases getElem?_concat_cases found with old | ⟨_, rfl⟩
    · exact .inl old
    · exact .inr facts

theorem links_withGlobalStart : network.withGlobalStart.links = network.links := by
  rcases withGlobalStart_cases network with same | ⟨site, same, _⟩ <;> rw [same]

theorem sound_withGlobalStart (sound : network.Sound) : network.withGlobalStart.Sound := by
  have grows : network.Grows network.withGlobalStart := grows_withGlobalStart
  have old {node : Nat} {site : Site} (found : network.withGlobalStart.sites[node]? = some site)
      (owned : site.pattern.isSome) : network.sites[node]? = some site := by
    rcases withGlobalStart_site found with here | ⟨unowned, _⟩
    · exact here
    · simp [unowned] at owned
  constructor
  case distinct =>
    rw [members_withGlobalStart]
    exact sound.distinct
  case owned =>
    intro node site owner found pattern
    rw [members_withGlobalStart]
    exact sound.owned node site owner (old found (by simp [pattern])) pattern
  case localIds =>
    intro a b s t foundS foundT owned same
    exact sound.localIds a b s t (old foundS owned) (old foundT (same ▸ owned)) owned same
  case inner =>
    intro edge member
    unfold inner at member
    rw [links_withGlobalStart] at member
    obtain ⟨s, t, source, target, same⟩ := sound.inner edge member
    exact ⟨s, t, grows.site source, grows.site target, same⟩
  case elements =>
    intro node site found element
    rcases withGlobalStart_site found with here | ⟨_, role, _⟩
    · exact sound.elements node site here element
    · cases role.symm.trans element
  case references =>
    intro node site found referring
    rcases withGlobalStart_site found with here | ⟨_, _, refers⟩
    · exact sound.references node site here referring
    · simp [refers] at referring
  case placed =>
    intro owner member found
    rw [members_withGlobalStart] at found
    exact grows.placed sound (sound.placed owner member found)
  case feeds =>
    intro link member kind
    rw [links_withGlobalStart] at member
    obtain ⟨source, present, site, from', here, reference⟩ := sound.feeds link member kind
    refine ⟨source, ?_, site, from', grows.site here, reference⟩
    rw [members_withGlobalStart]
    exact present

theorem Linked.withGlobalStart {names : List String} (before : network.Linked names) :
    network.withGlobalStart.Linked names := by
  have fed : network.withGlobalStart.fed = network.fed := by
    unfold Network.fed
    rw [links_withGlobalStart]
  have owner (site : Site) : network.withGlobalStart.ownerName site.pattern =
      network.ownerName site.pattern := by
    unfold ownerName
    rw [members_withGlobalStart]
  refine ⟨fed ▸ before.once, fun node => ?_⟩
  rw [fed, before.exactly]
  simp only [owner]
  refine exists_congr fun site => and_congr_left fun both => ?_
  refine ⟨grows_withGlobalStart.site, fun found => ?_⟩
  rcases withGlobalStart_site found with here | ⟨_, _, refers⟩
  · exact here
  · simp [refers] at both

theorem Grows.trans {old middle new : Network} (first : old.Grows middle) (second : middle.Grows new) :
    old.Grows new where
  sites := first.sites.trans second.sites
  members := first.members.trans second.members
  links := by
    obtain ⟨extra, same, foreign⟩ := first.links
    obtain ⟨extra', same', foreign'⟩ := second.links
    refine ⟨extra ++ extra', by rw [same', same, List.append_assoc], fun link member => ?_⟩
    have size := first.sites.length_le
    rcases List.mem_append.mp member with member | member
    · exact foreign link member
    · obtain ⟨inner, feeding⟩ := foreign' link member
      exact ⟨fun some => Nat.le_trans size (inner some), fun kind => Nat.le_trans size (feeding kind)⟩

theorem grows_addLinks {old : Network} (grows : old.Grows network) {links : List Link}
    (feeding : ∀ link ∈ links, link.kind = .constructionRef ∧ old.sites.length ≤ link.target) :
    old.Grows (network.addLinks links) where
  sites := grows.sites
  members := grows.members
  links := by
    obtain ⟨extra, same, foreign⟩ := grows.links
    refine ⟨extra ++ links, by simp [addLinks, same], fun link member => ?_⟩
    rcases List.mem_append.mp member with member | member
    · exact foreign link member
    · obtain ⟨kind, beyond⟩ := feeding link member
      exact ⟨fun some => by simp [Link.inner?, kind] at some, fun _ => beyond⟩

/-- The network with an automaton placed behind the shared entry, before it is linked. -/
def joinHub (network : Network) (automaton : Automaton) : Network :=
  network.withGlobalStart.join network.withGlobalStart.globalStart? automaton

theorem attach_success {composing : Bool} {grown : Network}
    (ok : network.attach automaton composing = .ok grown) :
    network.has automaton.name = false ∧
      if composing then (network.joinHub automaton).linkReferences automaton = .ok grown
      else grown = network.join none automaton := by
  unfold attach at ok
  split at ok
  · cases ok
  · rename_i fresh
    refine ⟨by simpa using fresh, ?_⟩
    cases composing with
    | false => cases ok; rfl
    | true =>
      obtain ⟨_, _, linked⟩ := bind_success ok
      exact linked

theorem has_withGlobalStart {name : String} :
    network.withGlobalStart.has name = network.has name := by
  unfold has
  rw [members_withGlobalStart]

theorem sound_joinHub (sound : network.Sound) (compiled : automaton.Sound)
    (fresh : network.has automaton.name = false) : (network.joinHub automaton).Sound :=
  sound_join (sound_withGlobalStart sound) compiled (has_withGlobalStart.trans fresh)

theorem hosts_joinHub (sound : network.Sound) (compiled : automaton.Sound)
    (fresh : network.has automaton.name = false) : (network.joinHub automaton).Hosts automaton :=
  hosts_join (sound_withGlobalStart sound) compiled (has_withGlobalStart.trans fresh)

theorem grows_joinHub : network.Grows (network.joinHub automaton) :=
  grows_withGlobalStart.trans grows_join

theorem joinHub_members (network : Network) (automaton : Automaton) : ∃ member,
    (network.joinHub automaton).members = network.members ++ [member] ∧
      member.name = automaton.name := by
  obtain ⟨member, members, name, _⟩ := join_members network.withGlobalStart
    network.withGlobalStart.globalStart? automaton
  exact ⟨member, members.trans (by rw [members_withGlobalStart]), name⟩

/-- Attaching keeps a network well-formed, lets it grow and adds one pattern at the end. -/
theorem attach_grows {composing : Bool} {grown : Network} (sound : network.Sound)
    (compiled : automaton.Sound) (ok : network.attach automaton composing = .ok grown) :
    grown.Sound ∧ network.Grows grown ∧ ∃ member, grown.members = network.members ++ [member] ∧
      member.name = automaton.name := by
  obtain ⟨fresh, ok⟩ := attach_success ok
  cases composing with
  | false =>
    obtain ⟨member, members, name, _⟩ :=
      join_members network none automaton
    simp only [Bool.false_eq_true, if_false] at ok
    subst ok
    exact ⟨sound_join sound compiled fresh, grows_join, member, members, name⟩
  | true =>
    simp only [if_true] at ok
    have joined := sound_joinHub sound compiled fresh
    obtain ⟨member, members, name⟩ := joinHub_members network automaton
    refine ⟨sound_linkReferences joined (hosts_joinHub sound compiled fresh) ok, ?_, member, ?_, name⟩
    · obtain ⟨_, rfl⟩ := linkReferences_eq_ok.mp ok
      apply grows_addLinks grows_joinHub
      intro link present
      obtain ⟨kind, key, _, _, target, _⟩ := linksOne_of_mem present
      refine ⟨kind, Nat.not_lt.mp fun old => ?_⟩
      obtain ⟨owner, site, index, found, owned, _⟩ := joined.find?_eq_some.mp target
      have last : (network.joinHub automaton).members[network.members.length]? = some member := by
        simp [members]
      have own := joined.memberIndex?_eq last
      rw [name, index] at own
      rw [grows_joinHub.site_eq old] at found
      have bound := sound.owned _ site owner found owned
      rw [Option.some.inj own] at bound
      omega
    · obtain ⟨_, rfl⟩ := linkReferences_eq_ok.mp ok
      exact members

/-- A pattern that is attached to a composed network finds all its references linked. -/
theorem attach_composed {grown : Network} (sound : network.Sound) (composed : network.Composed)
    (compiled : automaton.Sound) (ok : network.attach automaton true = .ok grown) :
    grown.Composed := by
  obtain ⟨_, _, member, members, name⟩ := attach_grows sound compiled ok
  obtain ⟨fresh, ok⟩ := attach_success ok
  simp only [if_true] at ok
  have placed : (network.joinHub automaton).Linked (network.members.map (·.name)) :=
    (Linked.withGlobalStart composed).join (sound_withGlobalStart sound)
      (fun name known => has_withGlobalStart.trans (has_iff.mpr known))
      (has_withGlobalStart.trans fresh)
  unfold Composed
  rw [members, List.map_append, List.map_singleton, name]
  refine placed.linkReferences (sound_joinHub sound compiled fresh)
    (hosts_joinHub sound compiled fresh) (fun known => ?_) ok
  rw [has_iff.mpr known] at fresh
  cases fresh

theorem embed_eq_ok {grown : Network} : network.embed hub automaton = .ok grown ↔
    automaton.name ∉ network.members.map (·.name) ∧ grown = network.join hub automaton := by
  rw [← has_iff, embed]
  cases network.has automaton.name <;> simp [eq_comm]

theorem names_join : (network.join hub automaton).members.map (·.name) =
    network.members.map (·.name) ++ [automaton.name] := by
  obtain ⟨member, members, name, _⟩ := join_members network hub automaton
  rw [members, List.map_append, List.map_singleton, name]

theorem embedAll_success {automata : List Automaton} {placed : Network} (sound : network.Sound)
    (compiled : ∀ automaton ∈ automata, automaton.Sound)
    (ok : automata.foldlM (embed hub) network = .ok placed) :
    placed.Sound ∧ placed.members.map (·.name) =
        network.members.map (·.name) ++ automata.map (·.name) ∧
      (∀ other, network.Hosts other ∨ other ∈ automata → placed.Hosts other) ∧
      (network.Linked [] → placed.Linked []) := by
  induction automata generalizing network with
  | nil => cases ok; exact ⟨sound, by simp, fun _ known => by simpa using known, id⟩
  | cons automaton rest ih =>
    rw [List.foldlM_cons] at ok
    obtain ⟨grown, first, ok⟩ := bind_success ok
    obtain ⟨fresh, rfl⟩ := embed_eq_ok.mp first
    have fresh : network.has automaton.name = false := by rwa [← Bool.not_eq_true, has_iff]
    have here := compiled automaton List.mem_cons_self
    obtain ⟨soundAll, names, hosts, linked⟩ := ih (sound_join sound here fresh)
      (fun other later => compiled other (List.mem_cons_of_mem _ later)) ok
    refine ⟨soundAll, ?_, fun other known => hosts other ?_, fun before =>
      linked (before.join sound (by simp) fresh)⟩
    · rw [names, names_join, List.append_assoc, List.singleton_append, List.map_cons]
    · rcases known with old | new
      · exact .inl (old.join sound here fresh)
      · rcases List.mem_cons.mp new with rfl | later
        · exact .inl (hosts_join sound here fresh)
        · exact .inr later

theorem linkAll_success {automata : List Automaton} {linked : Network} {names : List String}
    (sound : network.Sound) (hosts : ∀ automaton ∈ automata, network.Hosts automaton)
    (distinct : (names ++ automata.map (·.name)).Nodup) (before : network.Linked names)
    (ok : automata.foldlM linkReferences network = .ok linked) :
    linked.Sound ∧ linked.members = network.members ∧
      linked.Linked (names ++ automata.map (·.name)) := by
  induction automata generalizing network names with
  | nil => cases ok; exact ⟨sound, rfl, by simpa using before⟩
  | cons automaton rest ih =>
    rw [List.foldlM_cons] at ok
    obtain ⟨grown, first, ok⟩ := bind_success ok
    have here := hosts automaton List.mem_cons_self
    have fresh : automaton.name ∉ names := fun known =>
      (List.nodup_append.mp distinct).2.2 _ known _ List.mem_cons_self rfl
    have next := before.linkReferences sound here fresh first
    have soundNext := sound_linkReferences sound here first
    obtain ⟨_, rfl⟩ := linkReferences_eq_ok.mp first
    obtain ⟨soundAll, members, linkedAll⟩ := ih soundNext
      (fun other later => hosts other (List.mem_cons_of_mem _ later))
      (by simpa using distinct) next ok
    exact ⟨soundAll, members, by simpa using linkedAll⟩

theorem sound_empty : Sound {} := by
  constructor <;> simp [inner]

theorem linked_empty : Linked {} [] := by
  constructor <;> simp [fed]

theorem compose_sound {automata : List Automaton} (compiled : ∀ automaton ∈ automata, automaton.Sound)
    (ok : compose automata = .ok network) : network.Sound ∧ network.Composed := by
  unfold compose at ok
  obtain ⟨placed, embedded, ok⟩ := bind_success ok
  obtain ⟨sound, names, hosts, linked⟩ :=
    embedAll_success (sound_withGlobalStart sound_empty) compiled embedded
  have distinct := sound.distinct
  rw [names, members_withGlobalStart] at distinct
  obtain ⟨soundAll, members, linkedAll⟩ := linkAll_success sound
    (fun automaton present => hosts automaton (.inr present)) distinct
    (linked (linked_empty.withGlobalStart)) ok
  refine ⟨soundAll, ?_⟩
  unfold Composed
  rw [members, names, members_withGlobalStart]
  exact linkedAll

theorem isolated_sound {automata : List Automaton}
    (compiled : ∀ automaton ∈ automata, automaton.Sound) (ok : isolated automata = .ok network) :
    network.Sound :=
  (embedAll_success sound_empty compiled ok).1

end Constructicon.Network
