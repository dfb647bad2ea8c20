import Constructicon.Proofs.Network.Origin

/-! What the qualified keys of a network identify. A key joins the name of a pattern and the name
of a node by a separator that either may contain, so nodes of two patterns can have one key; only
the last of them is found by it. This happens just if one of the patterns has a name that goes on
from the other's as the other's node does. -/
namespace Constructicon

/-- The name of one pattern goes on with a separator, or with the first half of one, and its node
then has the key of the other pattern's node. -/
inductive Shadows (name key : String) : (other sub : String) → Prop where
  | colon (sub : String) (begins : key = ":" ++ sub) : Shadows name key (name ++ ":") sub
  | nested (rest sub : String) (begins : key = rest ++ "::" ++ sub) :
      Shadows name key (name ++ "::" ++ rest) sub

theorem toList_qualified (name key : String) :
    (qualified name key).toList = name.toList ++ ':' :: ':' :: key.toList := by
  simp [qualified, toString]

theorem Shadows.qualified_eq {name key other sub : String} (shadows : Shadows name key other sub) :
    qualified name key = qualified other sub := by
  rw [← String.toList_inj, toList_qualified, toList_qualified]
  cases shadows with
  | colon _ begins => simp [begins]
  | nested _ _ begins => simp [begins]

theorem Shadows.length_lt {name key other sub : String} (shadows : Shadows name key other sub) :
    name.length < other.length := by
  have colon : ":".length = 1 := by decide
  have separator : "::".length = 2 := by decide
  cases shadows with
  | colon => simp [colon]
  | nested =>
    rw [String.length_append, String.length_append, separator]
    omega

/-- What follows the shorter name in the longer one ends where the separator can be read again. -/
theorem shadows_of_append {name key other sub : String} {between : List Char}
    (longer : other.toList = name.toList ++ between)
    (rest : ':' :: ':' :: key.toList = between ++ ':' :: ':' :: sub.toList) :
    name = other ∧ key = sub ∨ Shadows name key other sub := by
  match between with
  | [] =>
    have names : name = other := String.toList_inj.mp (by simpa using longer.symm)
    have keys : key = sub := String.toList_inj.mp (by simpa using rest)
    exact .inl ⟨names, keys⟩
  | [first] =>
    obtain ⟨rfl, begins⟩ : first = ':' ∧ key.toList = ':' :: sub.toList := by
      simpa [eq_comm] using rest
    have names : other = name ++ ":" := String.toList_inj.mp (by simpa using longer)
    subst names
    exact .inr (.colon sub (String.toList_inj.mp (by simpa using begins)))
  | first :: second :: more =>
    obtain ⟨rfl, rfl, begins⟩ : first = ':' ∧ second = ':' ∧
        key.toList = more ++ ':' :: ':' :: sub.toList := by simpa [eq_comm] using rest
    have names : other = name ++ "::" ++ String.ofList more :=
      String.toList_inj.mp (by simpa using longer)
    subst names
    exact .inr (.nested _ sub (String.toList_inj.mp (by simpa using begins)))

theorem qualified_eq_iff {name key other sub : String} :
    qualified name key = qualified other sub ↔
      name = other ∧ key = sub ∨ Shadows name key other sub ∨ Shadows other sub name key := by
  constructor
  · intro same
    rw [← String.toList_inj, toList_qualified, toList_qualified] at same
    rcases List.append_eq_append_iff.mp same with ⟨between, longer, rest⟩ | ⟨between, longer, rest⟩
    · exact (shadows_of_append longer rest).imp_right .inl
    · rcases shadows_of_append longer rest with ⟨rfl, rfl⟩ | shadows
      · exact .inl ⟨rfl, rfl⟩
      · exact .inr (.inr shadows)
  · rintro (⟨rfl, rfl⟩ | shadows | shadows)
    · rfl
    · exact shadows.qualified_eq
    · exact shadows.qualified_eq.symm

namespace Network

variable {network : Network} {automata : List Automaton}

/-- No two nodes have one key, pattern nodes apart. -/
def KeysDiffer (network : Network) : Prop :=
  ∀ (a b : Nat) (s t : Site), network.sites[a]? = some s → network.sites[b]? = some t →
    s.role ≠ .pattern → t.role ≠ .pattern → s.key = t.key → a = b

/-- Every node is found by its key, pattern nodes apart. -/
def KeysFind (network : Network) : Prop :=
  ∀ (node : Nat) (site : Site), network.sites[node]? = some site → site.role ≠ .pattern →
    network.findKey? site.key = some node

/-- No key of one of the automata can be read as a key of another. -/
def Unshadowed (automata : List Automaton) : Prop :=
  ∀ a ∈ automata, ∀ b ∈ automata, ∀ key ∈ a.nodes.keys, ∀ other ∈ b.nodes.keys,
    ¬ Shadows a.name key b.name other

theorem findKey?_eq_some {key : String} {node : Nat} (found : network.findKey? key = some node) :
    ∃ site, network.sites[node]? = some site ∧ site.key = key ∧ site.role ≠ .pattern := by
  have passed := (List.mem_filter.mp (List.mem_of_getLast? found)).2
  cases here : network.sites[node]? with
  | none => simp [here] at passed
  | some site => exact ⟨site, rfl, by simpa [here] using passed⟩

theorem findKey?_isSome {node : Nat} {site : Site} (found : network.sites[node]? = some site)
    (proper : site.role ≠ .pattern) : ∃ last, network.findKey? site.key = some last := by
  have listed : node ∈ (List.range network.sites.length).filter fun i =>
      (network.sites[i]?).any fun other => other.key = site.key ∧ other.role ≠ .pattern := by
    refine List.mem_filter.mpr ⟨List.mem_range.mpr (lt_of_site found), ?_⟩
    simp [found, proper]
  exact ⟨_, List.getLast?_eq_some_getLast (List.ne_nil_of_mem listed)⟩

theorem keysFind_iff : network.KeysFind ↔ network.KeysDiffer := by
  constructor
  · intro finds a b s t first second proper also same
    have one := finds a s first proper
    rw [same, finds b t second also] at one
    exact (Option.some.inj one).symm
  · intro differ node site found proper
    obtain ⟨last, known⟩ := findKey?_isSome found proper
    obtain ⟨other, there, same, also⟩ := findKey?_eq_some known
    rw [known, differ last node other site there found also proper same]

theorem BuiltFrom.key_cases (origin : BuiltFrom automata network) {node : Nat} {site : Site}
    (found : network.sites[node]? = some site) (proper : site.role ≠ .pattern) :
    (site.role = .globalStart ∧ site.key = "GLOBAL_START") ∨
      ∃ automaton ∈ automata, ∃ key ∈ automaton.nodes.keys,
        site.key = qualified automaton.name key ∧ network.find? automaton.name key = some node := by
  cases owned : site.pattern with
  | none =>
    have entry := origin.entered.unowned node site found owned
    exact .inl ⟨entry, origin.entered.key node site found entry⟩
  | some owner =>
    obtain ⟨automaton, member, base, holds, entry, present, rfl, rfl⟩ :=
      origin.origin_site found owned proper
    have known : entry.1 ∈ automaton.nodes.keys := List.mem_map.mpr ⟨entry, present, rfl⟩
    exact .inr ⟨automaton, member, entry.1, known, rfl,
      holds.carries.find? origin.built.sound known⟩

theorem qualified_ne_globalStart (name key : String) : qualified name key ≠ "GLOBAL_START" := by
  intro same
  have colon : ':' ∈ (qualified name key).toList := by simp [toList_qualified]
  rw [same] at colon
  exact absurd colon (by decide)

theorem BuiltFrom.keysDiffer_iff (origin : BuiltFrom automata network) :
    network.KeysDiffer ↔ Unshadowed automata := by
  have sound : network.Sound := origin.built.sound
  constructor
  · intro differ a memberA b memberB key known other known' shadows
    obtain ⟨owner, base, first⟩ := origin.held memberA
    obtain ⟨owner', base', second⟩ := origin.held memberB
    obtain ⟨node, present⟩ := entry_of_key known
    obtain ⟨node', present'⟩ := entry_of_key known'
    have here := first.carries.site _ present
    have there := second.carries.site _ present'
    have place : a.spot base key = b.spot base' other :=
      differ _ _ _ _ here there role_siteOf role_siteOf shadows.qualified_eq
    have same := first.carries.find? sound known
    rw [place, ← second.carries.find? sound known'] at same
    obtain ⟨_, _, index, _⟩ := sound.find?_eq_some.mp (first.carries.find? sound known)
    have names := (sound.find?_injective (first.carries.find? sound known)
      (place ▸ second.carries.find? sound known')).1
    exact absurd shadows.length_lt (by simp [names])
  · intro clear a b s t first second proper also same
    rcases origin.key_cases first proper with
      ⟨entry, global⟩ | ⟨one, memberA, key, known, keyA, foundA⟩
    · rcases origin.key_cases second also with ⟨entry', _⟩ | ⟨_, _, key, _, keyB, _⟩
      · exact origin.entered.single a b s t first second entry entry'
      · exact absurd (keyB.symm.trans (same.symm.trans global)) (qualified_ne_globalStart _ key)
    · rcases origin.key_cases second also with
        ⟨_, global⟩ | ⟨two, memberB, other, known', keyB, foundB⟩
      · exact absurd (keyA.symm.trans (same.trans global)) (qualified_ne_globalStart _ key)
      · rw [keyA, keyB] at same
        rcases qualified_eq_iff.mp same with ⟨names, rfl⟩ | shadows | shadows
        · rw [names, foundB] at foundA
          exact (Option.some.inj foundA).symm
        · exact absurd shadows (clear one memberA two memberB key known other known')
        · exact absurd shadows (clear two memberB one memberA other known' key known)

/-- Nodes are found by their keys just if no key of one pattern can be read as a key of another,
which no names without a colon allow. -/
theorem BuiltFrom.keys_exact (origin : BuiltFrom automata network) :
    (network.KeysDiffer ↔ Unshadowed automata) ∧ (network.KeysFind ↔ network.KeysDiffer) ∧
      ((∀ automaton ∈ automata, ':' ∉ automaton.name.toList) → network.KeysFind) := by
  refine ⟨origin.keysDiffer_iff, keysFind_iff, fun plain => ?_⟩
  refine keysFind_iff.mpr (origin.keysDiffer_iff.mpr ?_)
  intro a memberA b memberB key _ other _ shadows
  have colon : ':' ∈ b.name.toList := by
    generalize b.name = longer at shadows
    cases shadows <;> simp
  exact plain b memberB colon

end Network

/-- A pattern of one element, under a name of one's choice. -/
def Pattern.lone (name node : String) : Pattern where
  name := name
  nodes := Table.ofList [("s", { kind := .start }), (node, Node.consuming "X"),
    ("e", { kind := .finish })]
  edges := [⟨"s", node, false⟩, ⟨node, "e", false⟩]

namespace Network

/-- The node `b::c` of the pattern `A` and the node `c` of the pattern `A::b`. -/
def namesakes : Grammar :=
  Grammar.ofPatterns [Pattern.lone "A" "b::c", Pattern.lone "A::b" "c"]

theorem builtFrom_composed {grammar : Grammar} (ok : grammar.network.isOk = true) :
    BuiltFrom (grammar.compile.toOption.getD []) grammar.composed := by
  have composed := Grammar.network_composed ok
  obtain ⟨automata, compiled, composed⟩ := bind_success composed
  rw [compiled]
  exact .composed (Grammar.compile_compiled compiled) composed

theorem BuiltFrom.keys_exact_lone :
    (Grammar.ofPatterns [Pattern.lone "A" "c", Pattern.lone "B" "c"]).composed.KeysFind ∧
      ¬ namesakes.composed.KeysFind := by
  let others := Grammar.ofPatterns [Pattern.lone "A" "c", Pattern.lone "B" "c"]
  have apart : BuiltFrom _ others.composed := builtFrom_composed (by decide +kernel)
  have alike : BuiltFrom _ namesakes.composed := builtFrom_composed (by decide +kernel)
  obtain ⟨_, _, plain⟩ := BuiltFrom.keys_exact apart
  obtain ⟨differ, finds, _⟩ := BuiltFrom.keys_exact alike
  refine ⟨plain (by decide +kernel), fun found => ?_⟩
  have clear := differ.mp (finds.mp found)
  have automata : namesakes.compile.toOption.getD [] =
      [(Pattern.lone "A" "b::c").draft "A" "s" "e",
        (Pattern.lone "A::b" "c").draft "A::b" "s" "e"] := by decide +kernel
  have shadows : Shadows "A" "b::c" ("A" ++ "::" ++ "b") "c" := .nested "b" "c" (by decide)
  rw [automata] at clear
  exact clear _ List.mem_cons_self _ (List.mem_cons_of_mem _ List.mem_cons_self) "b::c"
    (by decide +kernel) "c" (by decide +kernel) shadows

/-- A node of one pattern whose key finds the node of another. -/
theorem namesakes_found : namesakes.network = .ok namesakes.composed ∧
    namesakes.composed.members.map (·.name) = ["A", "A::b"] ∧
    ∃ site, namesakes.composed.sites[1]? = some site ∧ site.role = .element ∧
      site.localId = "b::c" ∧ namesakes.composed.findKey? site.key = some 5 := by
  refine ⟨Grammar.network_composed (by decide +kernel), by decide +kernel, ?_⟩
  exact ⟨siteOf ((Pattern.lone "A" "b::c").draft "A" "s" "e") 0 "b::c" (Node.consuming "X"),
    by decide +kernel, by decide +kernel, rfl, by decide +kernel⟩

end Network

end Constructicon
