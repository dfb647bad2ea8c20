import Constructicon.Proofs.Network.Alike

/-! What a composed network looks like, however it came about: the automata lie in it one after
another, and completions feed the references to their pattern automaton by automaton, in the order
in which the automata joined. -/
namespace Constructicon.Network

variable {network batch : Network} {automata : List Automaton} {hub : Option Nat}

structure Laid (network : Network) (automata : List Automaton) : Prop where
  sound : network.Sound
  names : network.members.map (·.name) = automata.map (·.name)
  carried : ∀ (owner : Nat) (automaton : Automaton), automata[owner]? = some automaton →
    ∃ base, network.Carries automaton owner base
  feeding : network.feeding = automata.flatMap network.referenceLinks

theorem Laid.carries (laid : network.Laid automata) {automaton : Automaton}
    (member : automaton ∈ automata) : ∃ owner base, network.Carries automaton owner base :=
  let ⟨owner, found⟩ := List.mem_iff_getElem?.mp member
  ⟨owner, laid.carried owner automaton found⟩

theorem feeding_join (automaton : Automaton) : (network.join hub automaton).feeding = network.feeding := by
  rw [feeding, join_links, List.filter_append, filter_newLinks, List.append_nil]
  rfl

theorem feeding_joinAll (automata : List Automaton) :
    (network.joinAll hub automata).feeding = network.feeding := by
  induction automata generalizing network with
  | nil => rfl
  | cons automaton rest ih => exact ih.trans (feeding_join automaton)

theorem carries_joinAll (sound : network.Sound) (compiled : ∀ automaton ∈ automata, automaton.Sound)
    (distinct : (network.members.map (·.name) ++ automata.map (·.name)).Nodup) {i : Nat}
    {automaton : Automaton} (found : automata[i]? = some automaton) : ∃ base,
      (network.joinAll hub automata).Carries automaton (network.members.length + i) base := by
  induction automata generalizing network i with
  | nil => cases found
  | cons first rest ih =>
    have here := compiled first List.mem_cons_self
    have joined : (network.join hub first).Sound :=
      sound_join sound here (fresh_of_nodup distinct)
    rw [List.map_cons, List.append_cons, ← names_join] at distinct
    cases i with
    | zero =>
      cases found
      exact ⟨_, (carries_join sound here).grow joined (grows_joinAll rest)⟩
    | succ i =>
      obtain ⟨base, carries⟩ :=
        ih joined (fun other later => compiled other (List.mem_cons_of_mem _ later)) distinct found
      obtain ⟨member, members, _⟩ := join_members network hub first
      rw [members, List.length_append, List.length_singleton, Nat.add_assoc, Nat.add_comm 1] at carries
      exact ⟨base, carries⟩

theorem Carries.addLinks {automaton : Automaton} {owner base : Nat} {links : List Link}
    (carries : network.Carries automaton owner base)
    (feeds : ∀ link ∈ links, link.kind = .constructionRef) :
    (network.addLinks links).Carries automaton owner base where
  compiled := carries.compiled
  member := carries.member
  site := carries.site
  after key member := by
    have inner : (network.addLinks links).inner = network.inner := inner_addLinks feeds
    rw [← carries.after key member, closureAfter, closureAfter, closureFrom, closureFrom, inner]
    rfl

theorem Alike.laid (sound : network.Sound) (compiled : ∀ automaton ∈ automata, automaton.Sound)
    (composed : compose automata = .ok batch) (alike : network.Alike batch) :
    network.Laid automata := by
  obtain ⟨distinct, _, rfl⟩ := compose_eq_ok.mp composed
  have feeds : ∀ link ∈ automata.flatMap (assembly automata).referenceLinks,
      link.kind = .constructionRef := fun _ => kind_of_mem_referenceLinks
  refine ⟨sound, ?_, fun owner automaton found => ?_, ?_⟩
  · rw [alike.members]
    exact names_assembly automata
  · have placed : ∃ base, (assembly automata).Carries automaton (0 + owner) base :=
      carries_joinAll (sound_withGlobalStart sound_empty) compiled distinct found
    rw [Nat.zero_add] at placed
    exact placed.imp fun base carries => alike.carries (carries.addLinks feeds)
  · have unlinked : (assembly automata).links.filter (·.kind = .constructionRef) = [] :=
      feeding_joinAll automata
    have all : (automata.flatMap (assembly automata).referenceLinks).filter
        (·.kind = .constructionRef) = automata.flatMap (assembly automata).referenceLinks :=
      List.filter_eq_self.mpr fun link member => by simp [feeds link member]
    rw [alike.feeding, alike.referenceLinks, Network.feeding, Network.addLinks, List.filter_append, unlinked, all]
    rfl

/-- The references that completions of a pattern feed, automaton by automaton. -/
theorem Laid.refTargets_eq (laid : network.Laid automata) {owner : Nat} {member : Member}
    (registered : network.members[owner]? = some member) : network.refTargets member =
      automata.flatMap fun automaton =>
        (automaton.references.filter (·.2 = member.name)).filterMap fun reference =>
          network.find? automaton.name reference.1 := by
  rw [refTargets_eq_feeding, laid.feeding, List.filter_flatMap, List.map_flatMap]
  apply List.flatMap_congr
  intro automaton _
  rw [referenceLinks, List.filter_filterMap, List.map_filterMap, List.filterMap_filter]
  apply List.filterMap_congr
  intro reference _
  have index := laid.sound.memberIndex?_eq registered
  have here : network.member? member.name = some member :=
    laid.sound.member?_eq_some.mpr ⟨owner, index, registered⟩
  rw [referenceLink?]
  cases found : network.member? reference.2 with
  | none =>
    have other : reference.2 ≠ member.name := fun same => by simp [same, here] at found
    simp [other]
  | some named =>
    obtain ⟨other, there, registered'⟩ := laid.sound.member?_eq_some.mp found
    have source : named.patternNode = member.patternNode ↔ reference.2 = member.name := by
      constructor
      · intro same
        have same := laid.sound.patternNode_injective registered' registered same
        exact Sound.memberIndex?_injective there (same ▸ index)
      · intro same
        rw [same, here] at found
        rw [Option.some.inj found]
    cases node : network.find? automaton.name reference.1 with
    | none => simp
    | some node => by_cases same : reference.2 = member.name <;> simp [same, source]

end Constructicon.Network
