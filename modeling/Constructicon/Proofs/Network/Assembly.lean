import Constructicon.Proofs.Network.Carries

/-! What building gives, said in one piece. Composition succeeds for automata with distinct names
that refer to one another only; then every automaton is carried, and completions are linked to the
references automaton by automaton, in the order of registration. Attaching goes on from there. -/
namespace Constructicon.Network

variable {network : Network} {automaton : Automaton} {hub : Option Nat}

/-- The references that links lead to. -/
def feeding (network : Network) : List Link :=
  network.links.filter (·.kind = .constructionRef)

theorem addLinks_nil (network : Network) : network.addLinks [] = network := by
  simp [addLinks]

theorem addLinks_addLinks (network : Network) (some more : List Link) :
    (network.addLinks some).addLinks more = network.addLinks (some ++ more) := by
  simp [addLinks]

theorem linkAll_eq_ok {automata : List Automaton} {linked : Network} :
    automata.foldlM linkReferences network = .ok linked ↔
      (∀ automaton ∈ automata, ∀ reference ∈ automaton.references,
        network.has reference.2 = true) ∧
        linked = network.addLinks (automata.flatMap network.referenceLinks) := by
  induction automata generalizing network with
  | nil =>
    rw [List.foldlM_nil, pure_eq_ok, List.flatMap_nil, addLinks_nil]
    simp
  | cons automaton rest ih =>
    rw [List.foldlM_cons, List.forall_mem_cons, List.flatMap_cons, ← addLinks_addLinks]
    constructor
    · intro ok
      obtain ⟨grown, first, ok⟩ := bind_success ok
      obtain ⟨known, rfl⟩ := linkReferences_eq_ok.mp first
      obtain ⟨knownRest, rfl⟩ := ih.mp ok
      exact ⟨⟨known, knownRest⟩, rfl⟩
    · intro facts
      obtain ⟨⟨known, knownRest⟩, rfl⟩ := facts
      rw [linkReferences_eq_ok.mpr ⟨known, rfl⟩]
      exact ih.mpr ⟨knownRest, rfl⟩

/-- The automata one after another, before any reference is linked. -/
def joinAll (network : Network) (hub : Option Nat) (automata : List Automaton) : Network :=
  automata.foldl (·.join hub ·) network

theorem names_joinAll (automata : List Automaton) :
    (network.joinAll hub automata).members.map (·.name) =
      network.members.map (·.name) ++ automata.map (·.name) := by
  induction automata generalizing network with
  | nil => simp [joinAll]
  | cons automaton rest ih =>
    rw [joinAll, List.foldl_cons, List.map_cons, List.append_cons, ← names_join]
    exact ih

theorem fresh_of_nodup {name : String} {rest : List String}
    (distinct : (network.members.map (·.name) ++ name :: rest).Nodup) : network.has name = false := by
  rw [← Bool.not_eq_true, has_iff]
  exact fun old => (List.nodup_append.mp distinct).2.2 _ old _ List.mem_cons_self rfl

theorem embedAll_eq_ok {automata : List Automaton} {placed : Network}
    (distinct : (network.members.map (·.name)).Nodup) :
    automata.foldlM (embed hub) network = .ok placed ↔
      (network.members.map (·.name) ++ automata.map (·.name)).Nodup ∧
        placed = network.joinAll hub automata := by
  induction automata generalizing network with
  | nil =>
    rw [List.foldlM_nil, pure_eq_ok, List.map_nil, List.append_nil]
    simp [distinct, joinAll]
  | cons automaton rest ih =>
    have grown (fresh : automaton.name ∉ network.members.map (·.name)) :
        ((network.join hub automaton).members.map (·.name)).Nodup := by
      rw [names_join, ← List.concat_eq_append]
      exact distinct.concat fresh
    have moved : network.members.map (·.name) ++ automaton.name :: rest.map (·.name) =
        (network.join hub automaton).members.map (·.name) ++ rest.map (·.name) := by
      rw [names_join, List.append_assoc, List.singleton_append]
    rw [List.foldlM_cons, List.map_cons]
    constructor
    · intro ok
      obtain ⟨next, first, ok⟩ := bind_success ok
      obtain ⟨fresh, rfl⟩ := embed_eq_ok.mp first
      rw [moved]
      exact (ih (grown fresh)).mp ok
    · intro facts
      have fresh : automaton.name ∉ network.members.map (·.name) := by
        rw [← has_iff, fresh_of_nodup facts.1]
        exact Bool.false_ne_true
      rw [embed_eq_ok.mpr ⟨fresh, rfl⟩]
      rw [moved] at facts
      exact (ih (grown fresh)).mpr facts

/-- The automata behind the shared entry, before any reference is linked. -/
def assembly (automata : List Automaton) : Network :=
  (withGlobalStart {}).joinAll (some 0) automata

theorem names_assembly (automata : List Automaton) :
    (assembly automata).members.map (·.name) = automata.map (·.name) :=
  names_joinAll automata

theorem compose_eq_ok {automata : List Automaton} : compose automata = .ok network ↔
    (automata.map (·.name)).Nodup ∧
      (∀ automaton ∈ automata, ∀ reference ∈ automaton.references,
        reference.2 ∈ automata.map (·.name)) ∧
      network = (assembly automata).addLinks
        (automata.flatMap (assembly automata).referenceLinks) := by
  have placing {placed : Network} : automata.foldlM (embed (withGlobalStart {}).globalStart?)
      (withGlobalStart {}) = .ok placed ↔
        (automata.map (·.name)).Nodup ∧ placed = assembly automata :=
    embedAll_eq_ok List.nodup_nil
  have known (name : String) : (assembly automata).has name = true ↔ name ∈ automata.map (·.name) := by
    rw [has_iff, names_assembly]
  unfold compose
  constructor
  · intro ok
    obtain ⟨placed, embedded, ok⟩ := bind_success ok
    obtain ⟨distinct, rfl⟩ := placing.mp embedded
    obtain ⟨all, rfl⟩ := linkAll_eq_ok.mp ok
    exact ⟨distinct, fun automaton member reference refers =>
      (known _).mp (all automaton member reference refers), rfl⟩
  · intro facts
    obtain ⟨distinct, all, rfl⟩ := facts
    change automata.foldlM (embed (withGlobalStart {}).globalStart?) (withGlobalStart {}) >>= _ = _
    rw [placing.mpr ⟨distinct, rfl⟩]
    exact linkAll_eq_ok.mpr ⟨fun automaton member reference refers =>
      (known _).mpr (all automaton member reference refers), rfl⟩

theorem sound_assembly {automata : List Automaton} (distinct : (automata.map (·.name)).Nodup)
    (compiled : ∀ automaton ∈ automata, automaton.Sound) :
    (assembly automata).Sound ∧ ∀ automaton ∈ automata, (assembly automata).Hosts automaton := by
  have embedded : automata.foldlM (embed (some 0)) (withGlobalStart {}) = .ok (assembly automata) := by
    apply (embedAll_eq_ok _).mpr
    · exact ⟨distinct, rfl⟩
    · exact List.nodup_nil
  obtain ⟨sound, _, hosts, _⟩ :=
    embedAll_success (sound_withGlobalStart sound_empty) compiled embedded
  exact ⟨sound, fun automaton member => hosts automaton (.inr member)⟩

/-- What an automaton's references are linked to is settled once the network knows their names. -/
theorem Grows.referenceLinks {old new : Network} (grows : old.Grows new) (soundOld : old.Sound)
    (sound : new.Sound) (hosts : old.Hosts automaton)
    (known : ∀ reference ∈ automaton.references, old.has reference.2 = true) :
    new.referenceLinks automaton = old.referenceLinks automaton := by
  unfold Network.referenceLinks
  apply List.filterMap_congr
  intro reference member
  obtain ⟨node, _, found, _⟩ := hosts.find?_reference soundOld member
  have present := known reference member
  rw [has_eq_isSome] at present
  obtain ⟨named, registered⟩ := Option.isSome_iff_exists.mp present
  simp only [referenceLink?, registered, grows.member? soundOld sound registered, found,
    grows.find? soundOld sound found]

theorem isolated_eq_ok {automata : List Automaton} : isolated automata = .ok network ↔
    (automata.map (·.name)).Nodup ∧ network = joinAll {} none automata :=
  embedAll_eq_ok List.nodup_nil

theorem has_joinHub (name : String) : (network.joinHub automaton).has name = true ↔
    name = automaton.name ∨ network.has name = true := by
  obtain ⟨member, members, known⟩ := joinHub_members network automaton
  simp [has_iff, members, known, or_comm]

theorem attach_eq_ok {grown : Network} : network.attach automaton true = .ok grown ↔
    network.has automaton.name = false ∧
      (∀ reference ∈ automaton.references,
        reference.2 = automaton.name ∨ network.has reference.2 = true) ∧
      grown = (network.joinHub automaton).addLinks
        ((network.joinHub automaton).referenceLinks automaton) := by
  have linking : (network.joinHub automaton).linkReferences automaton = .ok grown ↔ _ :=
    linkReferences_eq_ok
  simp only [has_joinHub] at linking
  rw [← linking]
  unfold attach
  cases known : network.has automaton.name with
  | true => simp
  | false =>
    simp only [Bool.false_eq_true, if_false, if_true, true_and]
    constructor
    · intro ok
      obtain ⟨_, _, linked⟩ := bind_success ok
      exact linked
    · intro ok
      have all := (linking.mp ok).1
      rw [List.find?_eq_none.mpr]
      · exact ok
      · intro reference member
        rcases all reference member with own | other <;> simp [*]

end Constructicon.Network
