import Mathlib.Logic.Relation
import Constructicon.Proofs.Network.Laid
import Constructicon.Proofs.Session.Course

/-! Automata after embedding. Whatever a network was built from is found in it again: the nodes of
an automaton under its name and their keys, as they were, and the places where its listeners come
to wait in the order in which the automaton finds them. Patterns that are attached later are
neither seen from an earlier pattern nor do they change it. -/
namespace Constructicon.Network

variable {network grown : Network} {automaton other : Automaton} {automata : List Automaton}
  {hub : Option Nat}

/-- A network with the automata that were embedded to build it, in the order of registration. -/
inductive BuiltFrom : List Automaton → Network → Prop where
  | composed {automata : List Automaton} {network : Network}
      (compiled : ∀ automaton ∈ automata, automaton.Compiled)
      (ok : compose automata = .ok network) : BuiltFrom automata network
  | sideBySide {automata : List Automaton} {network : Network}
      (compiled : ∀ automaton ∈ automata, automaton.Compiled)
      (ok : isolated automata = .ok network) : BuiltFrom automata network
  | attached {automata : List Automaton} {network grown : Network} {automaton : Automaton}
      {composing : Bool} (before : BuiltFrom automata network) (compiled : automaton.Compiled)
      (ok : network.attach automaton composing = .ok grown) :
      BuiltFrom (automata ++ [automaton]) grown

def Attaches (network grown : Network) : Prop :=
  ∃ automaton composing, automaton.Compiled ∧ network.attach automaton composing = .ok grown

/-- The nodes of an automaton are found by their keys, each as it is in the automaton, and lists
of nodes are those that the automaton lists, under the names they have in the network. -/
structure Embeds (network : Network) (automaton : Automaton) : Prop where
  found : ∀ key, (network.find? automaton.name key).isSome ↔ key ∈ automaton.nodes.keys
  injective : ∀ key other place, network.find? automaton.name key = some place →
    network.find? automaton.name other = some place → key = other
  node : ∀ key place, network.find? automaton.name key = some place → ∃ node site,
    automaton.node? key = some node ∧ network.sites[place]? = some site ∧
      site.role = node.kind.role ∧ site.elementType = node.elementType ∧
      site.elementValue = node.elementValue ∧ site.reference = node.reference ∧
      site.matchType = node.matchType
  opening : ∃ member, network.member? automaton.name = some member ∧
    member.entryNodes.map some =
      automaton.entryClosure.elements.map (network.find? automaton.name) ∧
    member.acceptsEmpty = automaton.entryClosure.reachesEnd
  after : ∀ key place, network.find? automaton.name key = some place →
    (network.closureAfter place).elements.map some =
        (automaton.closureAfter key).elements.map (network.find? automaton.name) ∧
      (network.closureAfter place).reachesEnd = (automaton.closureAfter key).reachesEnd
  inside : ∀ seeds, (∀ seed ∈ seeds, ∃ key, network.find? automaton.name key = some seed) →
    ∀ place ∈ (network.closureFrom seeds).elements,
      ∃ key, network.find? automaton.name key = some place

/-- All that concerns the automaton is in the grown network as it was before. -/
structure Keeps (network grown : Network) (automaton : Automaton) : Prop where
  find? : ∀ key, grown.find? automaton.name key = network.find? automaton.name key
  member? : grown.member? automaton.name = network.member? automaton.name
  site : ∀ key place, network.find? automaton.name key = some place →
    grown.sites[place]? = network.sites[place]?
  closureFrom : ∀ seeds, (∀ seed ∈ seeds, ∃ key, network.find? automaton.name key = some seed) →
    grown.closureFrom seeds = network.closureFrom seeds
  closureAfter : ∀ key place, network.find? automaton.name key = some place →
    grown.closureAfter place = network.closureAfter place

theorem BuiltFrom.built (origin : BuiltFrom automata network) : network.Built := by
  induction origin with
  | composed compiled ok => exact .composed (.compose compiled ok)
  | sideBySide compiled ok => exact .sideBySide compiled ok
  | attached before compiled ok ih => exact .attached ih compiled ok

/-- How an automaton lies in a network. -/
structure Holds (network : Network) (automaton : Automaton) (owner base : Nat) : Prop where
  carries : network.Carries automaton owner base
  hosts : network.Hosts automaton
  empty : ∃ member, network.members[owner]? = some member ∧
    member.acceptsEmpty = automaton.entryClosure.reachesEnd

def Held (network : Network) (automaton : Automaton) : Prop :=
  ∃ owner base, network.Holds automaton owner base

section Holding

variable {owner base : Nat}

theorem holds_join (sound : network.Sound) (compiled : automaton.Sound)
    (fresh : network.has automaton.name = false) :
    (network.join hub automaton).Holds automaton network.members.length network.sites.length where
  carries := carries_join sound compiled
  hosts := hosts_join sound compiled fresh
  empty := by
    obtain ⟨first, start⟩ := compiled.start
    have startKey : automaton.start ∈ automaton.nodes.keys := List.mem_map.mpr ⟨_, start, rfl⟩
    have seeded : ∀ seed ∈ [automaton.start], seed ∈ automaton.nodes.keys := by simpa using startKey
    have opening : ((network.join hub automaton).closureFrom
        ([automaton.start].map (automaton.spot network.sites.length))).reachesEnd =
          automaton.entryClosure.reachesEnd :=
      congrArg Closure.reachesEnd (closureFrom_join sound compiled seeded)
    exact ⟨_, List.getElem?_concat_length, opening⟩

theorem Holds.join (holds : network.Holds other owner base) (sound : network.Sound)
    (compiled : automaton.Sound) (fresh : network.has automaton.name = false) :
    (network.join hub automaton).Holds other owner base where
  carries := holds.carries.grow sound grows_join
  hosts := holds.hosts.join sound compiled fresh
  empty := holds.empty.imp fun _ facts => ⟨grows_join.member facts.1, facts.2⟩

theorem Holds.addLinks {links : List Link} (holds : network.Holds other owner base)
    (feeds : ∀ link ∈ links, link.kind = .constructionRef) :
    (network.addLinks links).Holds other owner base where
  carries := holds.carries.addLinks feeds
  hosts := holds.hosts
  empty := holds.empty

theorem Hosts.withGlobalStart (hosts : network.Hosts automaton) :
    network.withGlobalStart.Hosts automaton := by
  obtain ⟨owner, index, nodes⟩ := hosts
  refine ⟨owner, ?_, fun site => ?_⟩
  · unfold memberIndex?
    rw [members_withGlobalStart]
    exact index
  · rw [← nodes site]
    refine and_congr_left fun both => ⟨fun present => ?_, fun present => ?_⟩
    · obtain ⟨node, here⟩ := List.mem_iff_getElem?.mp present
      rcases withGlobalStart_site here with old | ⟨unowned, _⟩
      · exact List.mem_of_getElem? old
      · cases unowned.symm.trans both.1
    · exact grows_withGlobalStart.sites.subset present

theorem Holds.withGlobalStart (holds : network.Holds other owner base) (sound : network.Sound) :
    network.withGlobalStart.Holds other owner base where
  carries := holds.carries.grow sound grows_withGlobalStart
  hosts := holds.hosts.withGlobalStart
  empty := holds.empty.imp fun _ facts => ⟨grows_withGlobalStart.member facts.1, facts.2⟩

theorem held_joinAll (sound : network.Sound) (compiled : ∀ automaton ∈ automata, automaton.Sound)
    (distinct : (network.members.map (·.name) ++ automata.map (·.name)).Nodup)
    (known : network.Held other ∨ other ∈ automata) :
    (network.joinAll hub automata).Held other := by
  induction automata generalizing network with
  | nil => exact known.resolve_right List.not_mem_nil
  | cons automaton rest ih =>
    have here := compiled automaton List.mem_cons_self
    have fresh : network.has automaton.name = false := fresh_of_nodup distinct
    have names : (network.join hub automaton).members.map (·.name) =
        network.members.map (·.name) ++ [automaton.name] := names_join
    rw [List.map_cons, List.append_cons, ← names] at distinct
    apply ih (sound_join sound here fresh)
      (fun later member => compiled later (List.mem_cons_of_mem _ member)) distinct
    rcases known with ⟨owner, base, holds⟩ | member
    · exact .inl ⟨owner, base, holds.join sound here fresh⟩
    · rcases List.mem_cons.mp member with rfl | later
      · exact .inl ⟨_, _, holds_join sound here fresh⟩
      · exact .inr later

theorem held_joinHub (sound : network.Sound) (compiled : automaton.Sound)
    (fresh : network.has automaton.name = false) (known : network.Held other ∨ other = automaton) :
    (network.joinHub automaton).Held other := by
  have ready : network.withGlobalStart.Sound := sound_withGlobalStart sound
  have free : network.withGlobalStart.has automaton.name = false := has_withGlobalStart.trans fresh
  rcases known with ⟨owner, base, holds⟩ | rfl
  · exact ⟨owner, base, (holds.withGlobalStart sound).join ready compiled free⟩
  · exact ⟨_, _, holds_join ready compiled free⟩

theorem held_attach {composing : Bool} (sound : network.Sound) (compiled : automaton.Sound)
    (ok : network.attach automaton composing = .ok grown)
    (known : network.Held other ∨ other = automaton) : grown.Held other := by
  obtain ⟨fresh, ok⟩ := attach_success ok
  cases composing with
  | false =>
    simp only [Bool.false_eq_true, if_false] at ok
    subst ok
    rcases known with ⟨owner, base, holds⟩ | rfl
    · exact ⟨owner, base, holds.join sound compiled fresh⟩
    · exact ⟨_, _, holds_join sound compiled fresh⟩
  | true =>
    obtain ⟨owner, base, holds⟩ := held_joinHub sound compiled fresh known
    obtain ⟨_, rfl⟩ := linkReferences_eq_ok.mp ok
    exact ⟨owner, base, holds.addLinks fun link member => (linksOne_of_mem member).1⟩

theorem BuiltFrom.held (origin : BuiltFrom automata network) (member : automaton ∈ automata) :
    network.Held automaton := by
  induction origin with
  | composed compiled ok =>
    obtain ⟨distinct, _, rfl⟩ := compose_eq_ok.mp ok
    obtain ⟨owner, base, holds⟩ : (assembly _).Held automaton :=
      held_joinAll (sound_withGlobalStart sound_empty) (fun a member => (compiled a member).sound)
        distinct (.inr member)
    exact ⟨owner, base, holds.addLinks fun _ => kind_of_mem_referenceLinks⟩
  | sideBySide compiled ok =>
    obtain ⟨distinct, rfl⟩ := isolated_eq_ok.mp ok
    exact held_joinAll sound_empty (fun a member => (compiled a member).sound) distinct
      (.inr member)
  | attached before compiled ok ih =>
    refine held_attach before.built.sound compiled.sound ok ?_
    rcases List.mem_append.mp member with old | new
    · exact .inl (ih old)
    · exact .inr (List.mem_singleton.mp new)

end Holding

section Held

variable {owner base : Nat}

theorem Holds.key_of_find? (holds : network.Holds automaton owner base) (sound : network.Sound)
    {key : String} {place : Nat} (found : network.find? automaton.name key = some place) :
    key ∈ automaton.nodes.keys ∧ place = automaton.spot base key := by
  obtain ⟨owner, site, index, here, owned, rfl, proper⟩ := sound.find?_eq_some.mp found
  obtain ⟨mine, index', nodes⟩ := holds.hosts
  cases index.symm.trans index'
  obtain ⟨entry, present, rfl⟩ := (nodes site).mp ⟨List.mem_of_getElem? here, owned, proper⟩
  have member : entry.1 ∈ automaton.nodes.keys := List.mem_map.mpr ⟨entry, present, rfl⟩
  exact ⟨member, Option.some.inj (found.symm.trans (holds.carries.find? sound member))⟩

theorem Holds.map_find? (holds : network.Holds automaton owner base) (sound : network.Sound)
    (seeds : List String) :
    ((automaton.closureFrom seeds).map (automaton.spot base)).elements.map some =
      (automaton.closureFrom seeds).elements.map (network.find? automaton.name) := by
  rw [Closure.map, List.map_map]
  apply List.map_congr_left
  intro key member
  exact (holds.carries.find? sound (Automaton.mem_keys_of_closureFrom member)).symm

/-- A listener that sets out in a pattern comes to wait in that pattern. -/
theorem inside_pattern (sound : network.Sound) {name : String} {seeds : List Nat}
    (seeded : ∀ seed ∈ seeds, ∃ key, network.find? name key = some seed) {place : Nat}
    (member : place ∈ (network.closureFrom seeds).elements) :
    ∃ key, network.find? name key = some place := by
  obtain ⟨_, seed, start, _⟩ := mem_closure_elements.mp member
  obtain ⟨_, found⟩ := seeded seed start
  obtain ⟨owner, _, index, _⟩ := sound.find?_eq_some.mp found
  have owned : ∀ seed ∈ seeds, (network.sites[seed]?).map (·.pattern) = some (some owner) := by
    intro seed present
    obtain ⟨_, found⟩ := seeded seed present
    obtain ⟨mine, site, index', here, pattern, _⟩ := sound.find?_eq_some.mp found
    cases index.symm.trans index'
    rw [here, Option.map_some, pattern]
  obtain ⟨site, here, element, pattern⟩ := sound.closureFrom_owner owned member
  have proper : site.role ≠ .pattern := by simp [element]
  exact ⟨site.localId, sound.find?_eq_some.mpr ⟨owner, site, index, here, pattern, rfl, proper⟩⟩

theorem Holds.embeds (holds : network.Holds automaton owner base) (sound : network.Sound) :
    network.Embeds automaton where
  found key := by
    constructor
    · intro some
      obtain ⟨place, found⟩ := Option.isSome_iff_exists.mp some
      exact (holds.key_of_find? sound found).1
    · intro member
      simp [holds.carries.find? sound member]
  injective key other place first second := (sound.find?_injective first second).2
  node key place found := by
    obtain ⟨member, rfl⟩ := holds.key_of_find? sound found
    obtain ⟨node, present⟩ := entry_of_key member
    exact ⟨node, _, Automaton.node?_eq_some.mpr present, holds.carries.site _ present, rfl, rfl,
      rfl, rfl, matchType_siteOf owner key node⟩
  opening := by
    obtain ⟨member, registered, _, _, entryNodes⟩ := holds.carries.member
    obtain ⟨same, registered', empty⟩ := holds.empty
    cases registered.symm.trans registered'
    refine ⟨member, ?_, ?_, empty⟩
    · exact sound.member?_eq_some.mpr ⟨owner, holds.carries.memberIndex? sound, registered⟩
    · rw [entryNodes]
      exact holds.map_find? sound [automaton.start]
  after key place found := by
    obtain ⟨member, rfl⟩ := holds.key_of_find? sound found
    rw [holds.carries.after key member]
    exact ⟨holds.map_find? sound _, rfl⟩
  inside seeds seeded place member := inside_pattern sound seeded member

end Held

/-- An automaton that is held before and after a network has grown has not been touched. -/
theorem Grows.keeps (grows : network.Grows grown) (soundOld : network.Sound) (sound : grown.Sound)
    (before : network.Embeds automaton) (after : grown.Embeds automaton) :
    network.Keeps grown automaton where
  find? key := by
    cases old : network.find? automaton.name key with
    | some place => exact grows.find? soundOld sound old
    | none =>
      have absent : key ∉ automaton.nodes.keys := by
        rw [← before.found key, old]
        exact Bool.false_ne_true
      rwa [← after.found key, Bool.not_eq_true, Option.isSome_eq_false_iff,
        Option.isNone_iff_eq_none] at absent
  member? := by
    obtain ⟨member, registered, _⟩ := before.opening
    rw [registered]
    exact grows.member? soundOld sound registered
  site key place found := grows.site_eq (soundOld.lt_of_find? found)
  closureFrom seeds seeded := by
    apply grows.closureFrom soundOld
    intro seed present
    obtain ⟨key, found⟩ := seeded seed present
    exact soundOld.lt_of_find? found
  closureAfter key place found := grows.closureAfter soundOld (soundOld.lt_of_find? found)

/-- Embedding preserves every automaton, and what is attached later leaves it alone. -/
theorem BuiltFrom.embedded (origin : BuiltFrom automata network) (member : automaton ∈ automata) :
    network.Embeds automaton ∧
      ∀ grown, Relation.ReflTransGen Attaches network grown → network.Keeps grown automaton := by
  obtain ⟨owner, base, holds⟩ := origin.held member
  have sound : network.Sound := origin.built.sound
  have embeds : network.Embeds automaton := holds.embeds sound
  refine ⟨embeds, fun grown attached => ?_⟩
  have later : grown.Sound ∧ network.Grows grown ∧ grown.Held automaton := by
    induction attached with
    | refl => exact ⟨sound, grows_refl network, owner, base, holds⟩
    | tail _ step ih =>
      obtain ⟨_, _, compiled, ok⟩ := step
      obtain ⟨soundBefore, grows, held⟩ := ih
      obtain ⟨soundAfter, onward, _⟩ := attach_grows soundBefore compiled.sound ok
      exact ⟨soundAfter, grows.trans onward, held_attach soundBefore compiled.sound ok (.inl held)⟩
  obtain ⟨soundLater, grows, _, _, holdsLater⟩ := later
  exact grows.keeps sound soundLater embeds (holdsLater.embeds soundLater)

/-- Two sums in a row, attached to the network of the sums. -/
theorem BuiltFrom.embedded_pairs : ∃ grown, sumsNetwork.attach pairsAutomaton true = .ok grown ∧
    grown.Embeds pairsAutomaton ∧ (∀ automaton ∈ sumsAutomata, sumsNetwork.Keeps grown automaton) ∧
    sumsAutomata.map (·.name) = ["sum"] ∧
    (grown.member? "sum").map (·.entryNodes) = some [3, 2] ∧
    ["number", "left", "right"].map (grown.find? "sum") = [some 3, some 2, some 4] ∧
    ["e0", "e1", "sum"].map (grown.find? "pair") = [some 7, some 8, none] ∧
    grown.closureAfter 7 = { elements := [8], reachesEnd := false } := by
  have joins : (sumsNetwork.attach pairsAutomaton true).isOk = true := by decide +kernel
  cases attached : sumsNetwork.attach pairsAutomaton true with
  | error error =>
    rw [attached] at joins
    cases joins
  | ok grown =>
    have seen : (sumsNetwork.attach pairsAutomaton true).toOption = some grown := by
      rw [attached]
      rfl
    have composed : BuiltFrom sumsAutomata sumsNetwork :=
      .composed (Grammar.compile_compiled sums_compile) sums_compose
    have step : Attaches sumsNetwork grown := ⟨pairsAutomaton, true, pairs_compiled, attached⟩
    refine ⟨grown, rfl, ?_, fun automaton member => ?_, by decide +kernel, ?_⟩
    · exact (embedded (composed.attached pairs_compiled attached) (by simp)).1
    · exact (embedded composed member).2 grown (.single step)
    · have views : ((sumsNetwork.attach pairsAutomaton true).toOption.map fun grown =>
          ((grown.member? "sum").map (·.entryNodes),
            ["number", "left", "right"].map (grown.find? "sum"), ["e0", "e1", "sum"].map (grown.find? "pair"), grown.closureAfter 7)) =
          some (some [3, 2], [some 3, some 2, some 4], [some 7, some 8, none],
            { elements := [8], reachesEnd := false }) := by decide +kernel
      rw [seen] at views
      simpa using views

end Constructicon.Network
