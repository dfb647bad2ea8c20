import Constructicon.Proofs.Automaton.Checked
import Constructicon.Proofs.Network.Arranged

/-! Why a grammar has no network. Composition can fail in two ways only: a pattern does not compile,
or a reference names no pattern of the grammar. A pattern lists the names that it refers to, and
its automaton lists its references node by node; the two lists agree, so what is wrong can be told
from the patterns alone. Of several faults the one that comes first in key order is reported. -/
namespace Constructicon

section Firsts

variable {α β ε : Type}

/-- Why a result was refused, if it was. -/
def refusal? : Except ε α → Option ε
  | .error error => some error
  | .ok _ => none

@[simp] theorem refusal?_error (error : ε) :
    refusal? (.error error : Except ε α) = some error := rfl

@[simp] theorem refusal?_ok (value : α) : refusal? (.ok value : Except ε α) = none := rfl

theorem refusal?_eq_some {result : Except ε α} {error : ε} :
    refusal? result = some error ↔ result = .error error := by
  cases result <;> simp [refusal?]

theorem refusal?_eq_none {result : Except ε α} : refusal? result = none ↔ result.isOk = true := by
  cases result <;> simp [refusal?, Except.isOk, Except.toBool]

/-- Through what stands in ascending order of keys, the first answer is that of the least key that
has one. -/
theorem findSome?_eq_some_iff_least {key : α → String} {items : List α} {answer : β}
    {answer? : α → Option β} (ascending : items.Pairwise fun a b => key a < key b) :
    items.findSome? answer? = some answer ↔ ∃ item ∈ items, answer? item = some answer ∧
      ∀ other ∈ items, key other < key item → answer? other = none := by
  have least (item : α) : items.find? (fun item => (answer? item).isSome) = some item ↔ _ :=
    find?_eq_some_iff_least ascending
  simp only [Bool.not_eq_true, Option.isSome_eq_false_iff, Option.isNone_iff_eq_none] at least
  rw [List.findSome?_eq_some_iff]
  constructor
  · rintro ⟨before, item, after, rfl, found, failed⟩
    have first := (least item).mp (List.find?_eq_some_iff_append.mpr
      ⟨by simp [found], before, after, rfl, fun other earlier => by simp [failed other earlier]⟩)
    exact ⟨item, first.1, found, first.2.2⟩
  · rintro ⟨item, member, found, first⟩
    obtain ⟨_, before, after, split, failed⟩ := List.find?_eq_some_iff_append.mp
      ((least item).mpr ⟨member, by simp [found], first⟩)
    exact ⟨before, item, after, split, found, fun other earlier => by
      simpa using failed other earlier⟩

theorem mapM_eq_error {f : α → Except ε β} {items : List α} {error : ε} :
    items.mapM f = .error error ↔ items.findSome? (fun item => refusal? (f item)) = some error := by
  induction items with
  | nil => exact iff_of_false (by rintro ⟨⟩) (by rintro ⟨⟩)
  | cons item rest ih =>
    rw [List.mapM_cons, List.findSome?_cons]
    cases f item with
    | error => simp [error_bind]
    | ok result =>
      simp only [ok_bind, refusal?_ok, ← ih]
      cases rest.mapM f <;> simp [ok_bind, error_bind, pure, Except.pure]

theorem map_of_mapM {γ : Type} {f : α → Except ε β} {before : α → γ} {after : β → γ}
    (keeps : ∀ item result, f item = .ok result → after result = before item) {items : List α}
    {results : List β} (ok : items.mapM f = .ok results) : results.map after = items.map before := by
  rw [eq_map_iff, List.forall₂_map_right_iff]
  exact (mapM_eq_ok.mp ok).imp keeps

end Firsts

namespace Network

variable {network : Network} {automaton : Automaton} {automata : List Automaton} {error : Error}

/-- The first of some references whose name is not `known`, as the error that it is. -/
def unknown? (known : String → Bool) (name : String) (references : List (String × String)) :
    Option Error :=
  (references.find? fun reference => known reference.2 = false).map fun reference =>
    .unknownReference name reference.1 reference.2

theorem unknown?_eq_none {known : String → Bool} {name : String}
    {references : List (String × String)} : unknown? known name references = none ↔
      ∀ reference ∈ references, known reference.2 = true := by
  simp [unknown?]

theorem unknown?_eq_some {known : String → Bool} {name : String}
    {references : List (String × String)} (ascending : references.Pairwise fun a b => a.1 < b.1) :
    unknown? known name references = some error ↔
      ∃ key reference, .unknownReference name key reference = error ∧
        (key, reference) ∈ references ∧ known reference = false ∧
        ∀ other ∈ references, other.1 < key → known other.2 = true := by
  simp only [unknown?, Option.map_eq_some_iff, find?_eq_some_iff_least ascending, Prod.exists,
    decide_eq_true_eq, Bool.not_eq_false]
  constructor
  · rintro ⟨key, reference, ⟨member, unknown, first⟩, same⟩
    exact ⟨key, reference, same, member, unknown, first⟩
  · rintro ⟨key, reference, same, member, unknown, first⟩
    exact ⟨key, reference, ⟨member, unknown, first⟩, same⟩

theorem refusal?_referenceLink (reference : String × String) :
    refusal? (network.referenceLink automaton reference.1 reference.2) =
      if network.has reference.2 then none
      else some (.unknownReference automaton.name reference.1 reference.2) := by
  unfold referenceLink
  rw [has_eq_isSome]
  cases network.member? reference.2 <;> rfl

theorem linkReferences_eq_error : network.linkReferences automaton = .error error ↔
    unknown? network.has automaton.name automaton.references = some error := by
  have same : automaton.references.findSome? (fun reference =>
      refusal? (network.referenceLink automaton reference.1 reference.2)) =
        unknown? network.has automaton.name automaton.references := by
    unfold unknown?
    induction automaton.references with
    | nil => rfl
    | cons reference rest ih =>
      rw [List.findSome?_cons, refusal?_referenceLink, List.find?_cons, ih]
      cases network.has reference.2 <;> simp
  unfold linkReferences
  rw [bind_eq_error, ← same]
  constructor
  · rintro (failed | ⟨_, _, failed⟩)
    · exact mapM_eq_error.mp failed
    · cases failed
  · exact fun failed => .inl (mapM_eq_error.mpr failed)

theorem linkAll_eq_error : automata.foldlM linkReferences network = .error error ↔
    automata.findSome? (fun automaton =>
      unknown? network.has automaton.name automaton.references) = some error := by
  induction automata generalizing network with
  | nil => exact iff_of_false (by rintro ⟨⟩) (by rintro ⟨⟩)
  | cons automaton rest ih =>
    rw [List.foldlM_cons, bind_eq_error, List.findSome?_cons]
    cases linking : network.linkReferences automaton with
    | error => simp [linkReferences_eq_error.mp linking]
    | ok linked =>
      have all : unknown? network.has automaton.name automaton.references = none := by
        rw [Option.eq_none_iff_forall_ne_some]
        intro error unknown
        rw [linkReferences_eq_error.mpr unknown] at linking
        cases linking
      obtain ⟨_, rfl⟩ := linkReferences_eq_ok.mp linking
      simp [all, ih]
      rfl

/-- Automata with distinct names are refused only for a reference that names none of them. -/
theorem compose_eq_error (distinct : (automata.map (·.name)).Nodup) :
    compose automata = .error error ↔ automata.findSome? (fun automaton =>
      unknown? (decide <| · ∈ automata.map (·.name)) automaton.name automaton.references) =
        some error := by
  have empty : ((withGlobalStart {}).members.map (·.name)).Nodup := List.nodup_nil
  have placed : automata.foldlM (embed (withGlobalStart {}).globalStart?) (withGlobalStart {}) =
      .ok (assembly automata) :=
    (embedAll_eq_ok empty).mpr ⟨distinct, rfl⟩
  have known : (assembly automata).has = (decide <| · ∈ automata.map (·.name)) := by
    funext name
    rw [Bool.eq_iff_iff, has_iff, names_assembly, decide_eq_true_eq]
  unfold compose
  simp only [placed, ok_bind, linkAll_eq_error, known]

end Network

namespace Pattern

variable {pattern : Pattern} {name : String} {automaton : Automaton}

/-- The node under the key refers to a pattern of that name. -/
def RefersAt (pattern : Pattern) (key reference : String) : Prop :=
  ∃ node, (key, node) ∈ pattern.nodes.entries ∧ node.reference = some reference

/-- What a pattern refers to, node by node in key order. -/
def referring (pattern : Pattern) : List (String × String) :=
  pattern.nodes.entries.filterMap fun (key, node) => node.reference.map (key, ·)

theorem mem_referring {key reference : String} :
    (key, reference) ∈ pattern.referring ↔ pattern.RefersAt key reference := by
  simp [referring, RefersAt]

/-- The names listed for a pattern are those that some node refers to. -/
theorem mem_references_iff {reference : String} :
    reference ∈ pattern.references ↔ ∃ key, pattern.RefersAt key reference := by
  unfold references
  rw [Table.mem_distinct]
  simp [Table.values, RefersAt]

theorem reference_compiled (node : Node) : node.compiled.reference = node.reference := by
  unfold Node.compiled
  split
  · rename_i untyped
    simp [Node.reference, untyped.2]
  · rfl

/-- Compiling keeps the references of a pattern. -/
theorem references_of_compile (compiled : pattern.compile name = .ok automaton) :
    automaton.name = name ∧ automaton.references = pattern.referring := by
  obtain ⟨start, finish, _, rfl⟩ := compile_eq_ok.mp compiled
  refine ⟨rfl, ?_⟩
  simp [Automaton.references, draft, Table.map, referring, List.filterMap_map, reference_compiled]

theorem ascending_referring (compiles : (pattern.compile name).isOk = true) :
    pattern.referring.Pairwise fun a b => a.1 < b.1 := by
  obtain ⟨automaton, compiled⟩ := exists_ok_iff.mp compiles
  rw [← (references_of_compile compiled).2]
  exact Network.ascending_references automaton

end Pattern

namespace Grammar

variable {grammar : Grammar} {error : Error}

/-- Why a grammar has no network: the first pattern in name order that does not compile or, if all
do, the first reference, in name order of patterns and then in key order of nodes, that names no
pattern. -/
inductive Refusal (grammar : Grammar) : Error → Prop where
  | malformed {name : String} {pattern : Pattern} {error : Error}
      (entry : (name, pattern) ∈ grammar.entries) (refused : pattern.compile name = .error error)
      (first : ∀ other earlier, (other, earlier) ∈ grammar.entries → other < name →
        (earlier.compile other).isOk = true) : Refusal grammar error
  | unknownReference {name key reference : String} {pattern : Pattern}
      (compiles : ∀ entry ∈ grammar.entries, (entry.2.compile entry.1).isOk = true)
      (entry : (name, pattern) ∈ grammar.entries) (refers : pattern.RefersAt key reference)
      (unknown : reference ∉ grammar.keys)
      (firstPattern : ∀ other earlier, (other, earlier) ∈ grammar.entries → other < name →
        ∀ known ∈ earlier.references, known ∈ grammar.keys)
      (firstNode : ∀ other known, pattern.RefersAt other known → other < key →
        known ∈ grammar.keys) : Refusal grammar (.unknownReference name key reference)

theorem compile_eq_error : grammar.compile = .error error ↔
    ∃ entry ∈ grammar.entries, entry.2.compile entry.1 = .error error ∧
      ∀ other ∈ grammar.entries, other.1 < entry.1 → (other.2.compile other.1).isOk = true := by
  have least : grammar.entries.findSome? (fun entry => refusal? (entry.2.compile entry.1)) =
      some error ↔ _ := findSome?_eq_some_iff_least grammar.ascending
  simp only [refusal?_eq_some, refusal?_eq_none] at least
  exact mapM_eq_error.trans least

/-- The automata of a grammar have the names and the references of its patterns. -/
theorem compile_success {automata : List Automaton} (ok : grammar.compile = .ok automata) :
    automata.map (fun automaton => (automaton.name, automaton.references)) =
      grammar.entries.map fun entry => (entry.1, entry.2.referring) :=
  map_of_mapM (fun _ _ compiled => Prod.ext_iff.mpr (Pattern.references_of_compile compiled)) ok

theorem names_of_compile {automata : List Automaton} (ok : grammar.compile = .ok automata) :
    automata.map (·.name) = grammar.keys := by
  simpa [Table.keys, Function.comp_def] using congrArg (List.map Prod.fst) (compile_success ok)

theorem unknown?_referring {name : String} {pattern : Pattern} :
    Network.unknown? (decide <| · ∈ grammar.keys) name pattern.referring = none ↔
      ∀ reference ∈ pattern.references, reference ∈ grammar.keys := by
  simp only [Network.unknown?_eq_none, decide_eq_true_eq, Pattern.mem_references_iff, Prod.forall,
    Pattern.mem_referring]
  exact ⟨fun all reference refers => refers.elim (all · reference),
    fun all key reference refers => all reference ⟨key, refers⟩⟩

/-- Once all patterns compile, composition fails for the first reference to no pattern, if any. -/
theorem refusal?_compose {automata : List Automaton} (ok : grammar.compile = .ok automata) :
    refusal? (Network.compose automata) = grammar.entries.findSome? fun entry =>
      Network.unknown? (decide <| · ∈ grammar.keys) entry.1 entry.2.referring := by
  have names := names_of_compile ok
  let fault (item : String × List (String × String)) : Option Error :=
    Network.unknown? (decide <| · ∈ grammar.keys) item.1 item.2
  have moved := congrArg (List.findSome? fault) (compile_success ok)
  rw [List.findSome?_map, List.findSome?_map] at moved
  ext error
  rw [refusal?_eq_some, Network.compose_eq_error (names ▸ grammar.nodup_keys), names]
  exact iff_of_eq (congrArg (· = some error) moved)

theorem compose_eq_error {automata : List Automaton} (ok : grammar.compile = .ok automata) :
    Network.compose automata = .error error ↔
      ∃ entry ∈ grammar.entries, Network.unknown? (decide <| · ∈ grammar.keys) entry.1
          entry.2.referring = some error ∧
        ∀ other ∈ grammar.entries, other.1 < entry.1 → ∀ reference ∈ other.2.references,
          reference ∈ grammar.keys := by
  rw [← refusal?_eq_some, refusal?_compose ok, findSome?_eq_some_iff_least grammar.ascending]
  simp only [unknown?_referring]

theorem network_eq_error : grammar.network = .error error ↔ grammar.Refusal error := by
  have some {name : String} {pattern : Pattern} (compiles : (pattern.compile name).isOk = true) :
      Network.unknown? (decide <| · ∈ grammar.keys) name pattern.referring = some error ↔ _ :=
    Network.unknown?_eq_some (Pattern.ascending_referring compiles)
  simp only [Pattern.mem_referring, Prod.forall, decide_eq_true_eq, decide_eq_false_iff_not] at some
  unfold network
  rw [bind_eq_error]
  constructor
  · rintro (failed | ⟨automata, compiled, failed⟩)
    · obtain ⟨⟨name, pattern⟩, entry, refused, first⟩ := compile_eq_error.mp failed
      exact .malformed entry refused fun other earlier => first (other, earlier)
    · obtain ⟨⟨name, pattern⟩, entry, unknown, firstPattern⟩ := (compose_eq_error compiled).mp failed
      have compiles := grammar.compile_isOk.mp (by rw [compiled]; rfl)
      obtain ⟨key, reference, rfl, refers, missing, firstNode⟩ := (some (compiles _ entry)).mp unknown
      exact .unknownReference compiles entry refers missing
        (fun other earlier => firstPattern (other, earlier)) fun other known refers below =>
          firstNode other known refers below
  · intro refusal
    cases refusal with
    | malformed entry refused first =>
      exact .inl (compile_eq_error.mpr ⟨_, entry, refused, fun other => first other.1 other.2⟩)
    | unknownReference compiles entry refers missing firstPattern firstNode =>
      obtain ⟨automata, compiled⟩ := exists_ok_iff.mp (grammar.compile_isOk.mpr compiles)
      have unknown := (some (compiles _ entry)).mpr ⟨_, _, rfl, refers, missing, firstNode⟩
      exact .inr ⟨automata, compiled, (compose_eq_error compiled).mpr
        ⟨_, entry, unknown, fun other => firstPattern other.1 other.2⟩⟩

theorem network_eq_ok : (∃ network, grammar.network = .ok network) ↔
    ∀ entry ∈ grammar.entries, (entry.2.compile entry.1).isOk = true ∧
      ∀ reference ∈ entry.2.references, reference ∈ grammar.keys := by
  rw [forall₂_and, ← grammar.compile_isOk]
  unfold network
  cases compiled : grammar.compile with
  | error error => simp [error_bind, Except.isOk, Except.toBool]
  | ok automata =>
    have known : refusal? (Network.compose automata) = none ↔ ∀ entry ∈ grammar.entries,
        ∀ reference ∈ entry.2.references, reference ∈ grammar.keys := by
      rw [refusal?_compose compiled, List.findSome?_eq_none_iff]
      simp only [unknown?_referring]
    rw [← known, ok_bind]
    cases Network.compose automata <;> simp [Except.isOk, Except.toBool]

end Grammar

end Constructicon
