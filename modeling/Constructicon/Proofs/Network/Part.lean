import Constructicon.Proofs.Excerpt
import Constructicon.Proofs.Network.Laid

/-! A network and the part of it that is left when some patterns are taken out, none of which is
referred to from those that stay. What stays is found in the part under other numbers, everything
in its order: the patterns, their nodes and closures, and the references that a pattern feeds. -/
namespace Constructicon.Network

structure Part (inside : String → Bool) (whole part : Network) (automata : List Automaton) : Prop where
  whole : whole.Laid automata
  part : part.Laid (automata.filter (inside ·.name))
  closed : ∀ automaton ∈ automata, inside automaton.name = true →
    ∀ reference ∈ automaton.references, inside reference.2 = true

/-- A pattern that stays, by its numbers in the whole and in the part. -/
def Kept (inside : String → Bool) (whole part : Network) (owner owner' : Nat) : Prop :=
  ∃ automaton base base', inside automaton.name = true ∧ whole.Carries automaton owner base ∧
    part.Carries automaton owner' base'

def Gone (inside : String → Bool) (whole : Network) (owner : Nat) : Prop :=
  ∃ automaton base, inside automaton.name = false ∧ whole.Carries automaton owner base

/-- A node of a pattern that stays; a spot is a pattern and a node. -/
def Twin (inside : String → Bool) (whole part : Network) (spot spot' : Nat × Nat) : Prop :=
  ∃ automaton base base' key, inside automaton.name = true ∧ key ∈ automaton.nodes.keys ∧
    whole.Carries automaton spot.1 base ∧ part.Carries automaton spot'.1 base' ∧
    spot.2 = automaton.spot base key ∧ spot'.2 = automaton.spot base' key

def Foreign (inside : String → Bool) (whole : Network) (spot : Nat × Nat) : Prop :=
  ∃ automaton base key, inside automaton.name = false ∧ key ∈ automaton.nodes.keys ∧
    whole.Carries automaton spot.1 base ∧ spot.2 = automaton.spot base key

section Names

variable {inside : String → Bool} {whole part : Network} {spot spot' : Nat × Nat}

theorem Twin.named (soundWhole : whole.Sound) (soundPart : part.Sound)
    (twin : Twin inside whole part spot spot') : ∃ name key, inside name = true ∧
      whole.memberIndex? name = some spot.1 ∧ whole.find? name key = some spot.2 ∧
      part.memberIndex? name = some spot'.1 ∧ part.find? name key = some spot'.2 := by
  obtain ⟨automaton, base, base', key, kept, member, here, there, node, node'⟩ := twin
  exact ⟨automaton.name, key, kept, here.memberIndex? soundWhole,
    node ▸ here.find? soundWhole member, there.memberIndex? soundPart,
    node' ▸ there.find? soundPart member⟩

theorem Foreign.named (sound : whole.Sound) (foreign : Foreign inside whole spot) : ∃ name key,
    inside name = false ∧ whole.memberIndex? name = some spot.1 ∧
      whole.find? name key = some spot.2 := by
  obtain ⟨automaton, base, key, gone, member, here, node⟩ := foreign
  exact ⟨automaton.name, key, gone, here.memberIndex? sound, node ▸ here.find? sound member⟩

end Names

namespace Part

variable {inside : String → Bool} {whole part : Network} {automata : List Automaton}
  (parted : Part inside whole part automata) {spot spot' other other' : Nat × Nat}
include parted

theorem node_iff (twin : Twin inside whole part spot spot') (more : Twin inside whole part other other') :
    spot.2 = other.2 ↔ spot'.2 = other'.2 := by
  obtain ⟨name, key, _, _, here, _, there⟩ := twin.named parted.whole.sound parted.part.sound
  obtain ⟨name', key', _, _, here', _, there'⟩ := more.named parted.whole.sound parted.part.sound
  constructor
  · intro same
    obtain ⟨rfl, rfl⟩ := parted.whole.sound.find?_injective here (same ▸ here')
    exact Option.some.inj (there.symm.trans there')
  · intro same
    obtain ⟨rfl, rfl⟩ := parted.part.sound.find?_injective there (same ▸ there')
    exact Option.some.inj (here.symm.trans here')

theorem node_ne (twin : Twin inside whole part spot spot') (foreign : Foreign inside whole other) :
    spot.2 ≠ other.2 := by
  obtain ⟨name, key, kept, _, here, _⟩ := twin.named parted.whole.sound parted.part.sound
  obtain ⟨name', key', gone, _, there⟩ := foreign.named parted.whole.sound
  intro same
  obtain ⟨rfl, _⟩ := parted.whole.sound.find?_injective here (same ▸ there)
  simp [kept] at gone

theorem owner_iff (twin : Twin inside whole part spot spot') {owner owner' : Nat}
    (kept : Kept inside whole part owner owner') : spot.1 = owner ↔ spot'.1 = owner' := by
  obtain ⟨name, key, _, here, _, there, _⟩ := twin.named parted.whole.sound parted.part.sound
  obtain ⟨automaton, base, base', _, carries, carries'⟩ := kept
  have index := carries.memberIndex? parted.whole.sound
  have index' := carries'.memberIndex? parted.part.sound
  constructor
  · intro same
    rw [Sound.memberIndex?_injective here (same ▸ index), index'] at there
    exact (Option.some.inj there).symm
  · intro same
    rw [Sound.memberIndex?_injective there (same ▸ index'), index] at here
    exact (Option.some.inj here).symm

theorem owner_ne (twin : Twin inside whole part spot spot') {owner : Nat}
    (gone : Gone inside whole owner) : spot.1 ≠ owner := by
  obtain ⟨name, key, kept, here, _⟩ := twin.named parted.whole.sound parted.part.sound
  obtain ⟨automaton, base, gone, carries⟩ := gone
  intro same
  have index := carries.memberIndex? parted.whole.sound
  rw [Sound.memberIndex?_injective here (same ▸ index), gone] at kept
  cases kept

theorem owners : Excerpt (Gone inside whole) (Kept inside whole part)
    (List.range whole.members.length) (List.range part.members.length) := by
  have sizes {network : Network} {automata : List Automaton} (laid : network.Laid automata) :
      network.members.length = automata.length := by
    simpa using congrArg List.length laid.names
  rw [sizes parted.whole, sizes parted.part]
  refine (Excerpt.of_filter automata (inside ·.name)).range.mono (fun owner _ facts => ?_)
    fun owner _ owner' facts => ?_
  · obtain ⟨automaton, found, gone⟩ := facts
    obtain ⟨base, carries⟩ := parted.whole.carried owner automaton found
    exact ⟨automaton, base, gone, carries⟩
  · obtain ⟨automaton, _, found, found', rfl, kept⟩ := facts
    obtain ⟨base, carries⟩ := parted.whole.carried owner automaton found
    obtain ⟨base', carries'⟩ := parted.part.carried owner' automaton found'
    exact ⟨automaton, base, base', kept, carries, carries'⟩

omit parted in
theorem after (twin : Twin inside whole part spot spot') (dropped : Nat × Nat → Prop) :
    Excerpt dropped (Twin inside whole part)
        ((whole.closureAfter spot.2).elements.map (spot.1, ·))
        ((part.closureAfter spot'.2).elements.map (spot'.1, ·)) ∧
      (whole.closureAfter spot.2).reachesEnd = (part.closureAfter spot'.2).reachesEnd := by
  obtain ⟨automaton, base, base', key, kept, member, here, there, node, node'⟩ := twin
  rw [node, node', here.after key member, there.after key member]
  refine ⟨?_, rfl⟩
  simp only [Closure.map, List.map_map]
  refine Excerpt.of_map _ fun next follows => ?_
  exact ⟨automaton, base, base', next, kept, Automaton.mem_keys_of_closureFrom follows, here, there,
    rfl, rfl⟩

omit parted in
theorem after_foreign (foreign : Foreign inside whole spot) {node : Nat}
    (follows : node ∈ (whole.closureAfter spot.2).elements) : Foreign inside whole (spot.1, node) := by
  obtain ⟨automaton, base, key, gone, member, here, same⟩ := foreign
  rw [same, here.after key member] at follows
  obtain ⟨next, silent, rfl⟩ := List.mem_map.mp follows
  exact ⟨automaton, base, next, gone, Automaton.mem_keys_of_closureFrom silent, here, rfl⟩

omit parted in
theorem site (twin : Twin inside whole part spot spot') : ∃ automaton key node,
    whole.sites[spot.2]? = some (siteOf automaton spot.1 key node) ∧
      part.sites[spot'.2]? = some (siteOf automaton spot'.1 key node) := by
  obtain ⟨automaton, base, base', key, _, member, here, there, same, same'⟩ := twin
  obtain ⟨node, present⟩ := entry_of_key member
  exact ⟨automaton, key, node, same ▸ here.site _ present, same' ▸ there.site _ present⟩

omit parted in
theorem members {owner owner' : Nat} (kept : Kept inside whole part owner owner') : ∃ member member',
    whole.members[owner]? = some member ∧ part.members[owner']? = some member' ∧
      member.name = member'.name ∧ inside member.name = true ∧
      Twin inside whole part (owner, member.finish) (owner', member'.finish) := by
  obtain ⟨automaton, base, base', stays, here, there⟩ := kept
  obtain ⟨member, found, name, finish, _⟩ := here.member
  obtain ⟨member', found', name', finish', _⟩ := there.member
  obtain ⟨node, present, _⟩ := here.compiled.finish
  exact ⟨member, member', found, found', name.trans name'.symm, name ▸ stays, automaton, base, base',
    automaton.finish, stays, List.mem_map.mpr ⟨_, present, rfl⟩, here, there, finish, finish'⟩

omit parted in
theorem member_gone {owner : Nat} (gone : Gone inside whole owner) : ∃ member,
    whole.members[owner]? = some member ∧ inside member.name = false ∧
      Foreign inside whole (owner, member.finish) := by
  obtain ⟨automaton, base, gone, here⟩ := gone
  obtain ⟨member, found, name, finish, _⟩ := here.member
  obtain ⟨node, present, _⟩ := here.compiled.finish
  exact ⟨member, found, name ▸ gone, automaton, base, automaton.finish, gone,
    List.mem_map.mpr ⟨_, present, rfl⟩, here, finish⟩

end Part

/-- The keys of an automaton's references to a pattern. -/
def referring (automaton : Automaton) (name : String) : List String :=
  (automaton.references.filter (·.2 = name)).map (·.1)

theorem mem_keys_of_referring {automaton : Automaton} {name key : String}
    (member : key ∈ referring automaton name) : key ∈ automaton.nodes.keys := by
  obtain ⟨reference, refers, rfl⟩ := List.mem_map.mp member
  obtain ⟨entry, present, _⟩ := mem_references.mp (List.mem_filter.mp refers).1
  exact List.mem_map.mpr ⟨_, present, rfl⟩

theorem Laid.found_referring {network : Network} {automata : List Automaton}
    (laid : network.Laid automata) {automaton : Automaton} {owner base : Nat}
    (carries : network.Carries automaton owner base) (name : String) :
    ((automaton.references.filter (·.2 = name)).filterMap fun reference =>
      network.find? automaton.name reference.1) =
        (referring automaton name).map (automaton.spot base) := by
  rw [referring, List.map_map, ← List.filterMap_eq_map]
  apply List.filterMap_congr
  intro reference refers
  exact carries.find? laid.sound (mem_keys_of_referring (List.mem_map.mpr ⟨reference, refers, rfl⟩))

namespace Part

variable {inside : String → Bool} {whole part : Network} {automata : List Automaton}
  (parted : Part inside whole part automata) {owner owner' : Nat} {member member' : Member}
include parted

/-- A pattern feeds the references that stay in the same order as before. -/
theorem refTargets (registered : whole.members[owner]? = some member)
    (registered' : part.members[owner']? = some member') (same : member.name = member'.name) :
    Excerpt (fun node => ∃ owner, Foreign inside whole (owner, node))
      (fun node node' => ∃ owner owner', Twin inside whole part (owner, node) (owner', node'))
      (whole.refTargets member) (part.refTargets member') := by
  rw [parted.whole.refTargets_eq registered, parted.part.refTargets_eq registered', ← same]
  have inAll : Excerpt (fun automaton => automaton ∈ automata ∧ inside automaton.name = false)
      (fun a b => a ∈ automata ∧ a = b ∧ inside a.name = true) automata
      (automata.filter (inside ·.name)) :=
    (Excerpt.of_filter automata (inside ·.name)).mono (fun a member gone => ⟨member, gone⟩)
      fun a member b both => ⟨member, both⟩
  refine inAll.flatMap (fun a b both => ?_) fun automaton gone => ?_
  · -- the same keys, placed from two bases
    obtain ⟨present, rfl, kept⟩ := both
    obtain ⟨owner, base, carries⟩ := parted.whole.carries present
    obtain ⟨owner', base', carries'⟩ :=
      parted.part.carries (List.mem_filter.mpr ⟨present, by simpa using kept⟩)
    rw [parted.whole.found_referring carries, parted.part.found_referring carries']
    refine Excerpt.of_map _ fun key refers => ?_
    exact ⟨owner, owner', a, base, base', key, kept, mem_keys_of_referring refers, carries, carries',
      rfl, rfl⟩
  · obtain ⟨owner, base, carries⟩ := parted.whole.carries gone.1
    rw [parted.whole.found_referring carries]
    refine Excerpt.nothing fun node target => ?_
    obtain ⟨key, refers, rfl⟩ := List.mem_map.mp target
    exact ⟨owner, automaton, base, key, gone.2, mem_keys_of_referring refers, carries, rfl⟩

/-- A pattern that goes feeds only patterns that go. -/
theorem refTargets_gone (registered : whole.members[owner]? = some member)
    (gone : inside member.name = false) {node : Nat} (target : node ∈ whole.refTargets member) :
    ∃ owner, Foreign inside whole (owner, node) := by
  rw [parted.whole.refTargets_eq registered] at target
  obtain ⟨automaton, present, target⟩ := List.mem_flatMap.mp target
  obtain ⟨owner, base, carries⟩ := parted.whole.carries present
  rw [parted.whole.found_referring carries] at target
  obtain ⟨key, refers, rfl⟩ := List.mem_map.mp target
  refine ⟨owner, automaton, base, key, ?_, mem_keys_of_referring refers, carries, rfl⟩
  obtain ⟨reference, named, _⟩ := List.mem_map.mp refers
  obtain ⟨listed, name⟩ := List.mem_filter.mp named
  cases stays : inside automaton.name with
  | false => rfl
  | true =>
    have named := parted.closed automaton present stays reference listed
    rw [of_decide_eq_true name, gone] at named
    cases named

end Part

section Closed

variable {inside : String → Bool} {whole grown : Network} {automata : List Automaton}

theorem compose_filter (composed : compose automata = .ok whole)
    (closed : ∀ automaton ∈ automata, inside automaton.name = true →
      ∀ reference ∈ automaton.references, inside reference.2 = true) :
    ∃ part, compose (automata.filter (inside ·.name)) = .ok part := by
  obtain ⟨distinct, known, _⟩ := compose_eq_ok.mp composed
  refine ⟨_, compose_eq_ok.mpr ⟨distinct.sublist (List.filter_sublist.map _), ?_, rfl⟩⟩
  intro automaton stays reference refers
  obtain ⟨member, stays⟩ := List.mem_filter.mp stays
  obtain ⟨named, present, name⟩ := List.mem_map.mp (known automaton member reference refers)
  have kept := closed automaton member stays reference refers
  exact List.mem_map.mpr ⟨named, List.mem_filter.mpr ⟨present, name ▸ kept⟩, name⟩

theorem Laid.has_iff {network : Network} (laid : network.Laid automata) {name : String} :
    network.has name = true ↔ name ∈ automata.map (·.name) := by
  rw [Network.has_iff, laid.names]

theorem Part.attach {part : Network} (parted : Part inside whole part automata)
    {automaton : Automaton} (attached : whole.attach automaton true = .ok grown)
    (closed : ∀ reference ∈ automaton.references, inside reference.2 = true) :
    ∃ grown', part.attach automaton true = .ok grown' := by
  obtain ⟨fresh, known, _⟩ := attach_eq_ok.mp attached
  refine ⟨_, attach_eq_ok.mpr ⟨?_, fun reference refers => ?_, rfl⟩⟩
  · rw [Bool.eq_false_iff, ne_eq, parted.whole.has_iff] at fresh
    rw [Bool.eq_false_iff, ne_eq, parted.part.has_iff]
    exact fun present => fresh ((List.filter_sublist.map _).subset present)
  · refine (known reference refers).imp_right fun present => ?_
    obtain ⟨named, member, name⟩ := List.mem_map.mp (parted.whole.has_iff.mp present)
    have kept := closed reference refers
    exact parted.part.has_iff.mpr
      (List.mem_map.mpr ⟨named, List.mem_filter.mpr ⟨member, name ▸ kept⟩, name⟩)

end Closed

end Constructicon.Network
