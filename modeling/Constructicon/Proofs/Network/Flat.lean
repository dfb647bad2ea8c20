import Constructicon.Proofs.Network.Part

/-! Networks without references. Automata that refer to no pattern can be put together whenever
their names are distinct, behind a shared entry as well as side by side. In either network
completions feed nothing, and the two are one up to the numbers of nodes. -/
namespace Constructicon.Network

variable {network : Network} {automaton : Automaton} {automata : List Automaton} {hub : Option Nat}

structure Flat (network : Network) : Prop where
  sites : ∀ site ∈ network.sites, site.reference = none
  feeding : network.feeding = []

theorem Flat.refTargets (flat : network.Flat) (member : Member) :
    network.refTargets member = [] := by
  rw [refTargets_eq_feeding, flat.feeding]
  rfl

theorem flat_empty : Flat {} :=
  ⟨fun _ none => (by cases none), rfl⟩

theorem Flat.withGlobalStart (flat : network.Flat) : network.withGlobalStart.Flat := by
  refine ⟨fun site member => ?_, ?_⟩
  · obtain ⟨node, found⟩ := List.mem_iff_getElem?.mp member
    rcases withGlobalStart_site found with old | ⟨_, _, none⟩
    · exact flat.sites site (List.mem_of_getElem? old)
    · exact none
  · rw [Network.feeding, links_withGlobalStart]
    exact flat.feeding

theorem Flat.join (flat : network.Flat) (plain : automaton.references = []) :
    (network.join hub automaton).Flat := by
  refine ⟨fun site member => ?_, (feeding_join automaton).trans flat.feeding⟩
  obtain ⟨node, found⟩ := List.mem_iff_getElem?.mp member
  rcases join_site found with old | ⟨i, entry, here, _, rfl⟩ | rfl
  · exact flat.sites site (List.mem_of_getElem? old)
  · have none := List.filterMap_eq_nil_iff.mp plain entry (List.mem_of_getElem? here)
    simpa [siteOf] using none
  · rfl

theorem Flat.joinAll (flat : network.Flat)
    (plain : ∀ automaton ∈ automata, automaton.references = []) :
    (network.joinAll hub automata).Flat := by
  induction automata generalizing network with
  | nil => exact flat
  | cons automaton rest ih =>
    exact ih (flat.join (plain automaton List.mem_cons_self)) fun later member =>
      plain later (List.mem_cons_of_mem _ member)

theorem flatMap_referenceLinks (network : Network)
    (plain : ∀ automaton ∈ automata, automaton.references = []) :
    automata.flatMap network.referenceLinks = [] := by
  refine List.flatMap_eq_nil_iff.mpr fun automaton member => ?_
  rw [referenceLinks, plain automaton member]
  rfl

theorem laid_sideBySide (compiled : ∀ automaton ∈ automata, automaton.Sound)
    (plain : ∀ automaton ∈ automata, automaton.references = [])
    (ok : isolated automata = .ok network) : network.Laid automata := by
  obtain ⟨distinct, same⟩ := isolated_eq_ok.mp ok
  refine ⟨isolated_sound compiled ok, ?_, fun owner automaton found => ?_, ?_⟩
  · rw [same]
    exact names_joinAll automata
  · have placed : ∃ base, (joinAll {} none automata).Carries automaton (0 + owner) base :=
      carries_joinAll sound_empty compiled distinct found
    rwa [Nat.zero_add, ← same] at placed
  · rw [flatMap_referenceLinks network plain, same, feeding_joinAll]
    rfl

/-- Networks of the same automata, none of which has references. -/
structure Paired (whole part : Network) : Prop where
  parted : ∃ automata, Part (fun _ => true) whole part automata
  flat : whole.Flat
  flat' : part.Flat

theorem exists_paired (compiled : ∀ automaton ∈ automata, automaton.Sound)
    (distinct : (automata.map (·.name)).Nodup)
    (plain : ∀ automaton ∈ automata, automaton.references = []) : ∃ composed apart,
    compose automata = .ok composed ∧ isolated automata = .ok apart ∧ composed.Paired apart := by
  have known : ∀ automaton ∈ automata, ∀ reference ∈ automaton.references,
      reference.2 ∈ automata.map (·.name) := by
    intro automaton member reference refers
    rw [plain automaton member] at refers
    cases refers
  have composed : compose automata = .ok (assembly automata) := by
    refine compose_eq_ok.mpr ⟨distinct, known, ?_⟩
    rw [flatMap_referenceLinks _ plain, addLinks_nil]
  have apart : isolated automata = .ok (joinAll {} none automata) :=
    isolated_eq_ok.mpr ⟨distinct, rfl⟩
  have all : automata.filter (fun _ => true) = automata := List.filter_eq_self.mpr fun _ _ => rfl
  have parted : Part (fun _ => true) (assembly automata) (joinAll {} none automata) automata := by
    refine ⟨(Alike.refl _).laid (compose_sound compiled composed).1 compiled composed, ?_, ?_⟩
    · rw [all]
      exact laid_sideBySide compiled plain apart
    · exact fun _ _ _ _ _ => rfl
  exact ⟨_, _, composed, apart, ⟨automata, parted⟩, flat_empty.withGlobalStart.joinAll plain,
    flat_empty.joinAll plain⟩

end Constructicon.Network
