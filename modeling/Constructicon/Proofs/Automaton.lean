import Mathlib.Data.List.Forall2
import Constructicon.Automaton

/-! What compilation establishes. A compiled automaton has its start and its end among its nodes,
its edges join its own nodes, and every element has a type. Whether a pattern compiles does not
depend on the name under which it does. -/
namespace Constructicon

namespace Automaton

/-- The token type that the node under a key consumes. -/
def matchType (automaton : Automaton) (key : String) : Option String :=
  (automaton.node? key).bind Node.matchType

def Compiled (automaton : Automaton) : Prop :=
  ∃ (pattern : Pattern) (name : String), pattern.compile name = .ok automaton

/-- The part of being compiled that the networks rely on. -/
structure Sound (automaton : Automaton) : Prop where
  start : ∃ node, (automaton.start, node) ∈ automaton.nodes.entries
  finish : ∃ node, (automaton.finish, node) ∈ automaton.nodes.entries ∧ node.kind = .finish
  edges : ∀ edge ∈ automaton.edges,
    edge.source ∈ automaton.nodes.keys ∧ edge.target ∈ automaton.nodes.keys
  typed : ∀ entry ∈ automaton.nodes.entries,
    entry.2.kind = .element → entry.2.elementType.isSome

variable {automaton : Automaton}

theorem node?_eq_some {key : String} {node : Node} :
    automaton.node? key = some node ↔ (key, node) ∈ automaton.nodes.entries :=
  Table.get?_eq_some_iff

theorem mem_keys_of_node? {key : String} {node : Node} (found : automaton.node? key = some node) :
    key ∈ automaton.nodes.keys :=
  List.mem_map.mpr ⟨_, node?_eq_some.mp found, rfl⟩

theorem mem_keys_of_kindOf {key : String} (element : automaton.kindOf key = .element) :
    key ∈ automaton.nodes.keys := by
  unfold kindOf at element
  cases found : automaton.node? key with
  | none => simp [found] at element
  | some node => exact mem_keys_of_node? found

end Automaton

theorem sole_eq_ok {keys : List String} {missing : Defect} {several : List String → Defect}
    {key : String} : sole keys missing several = .ok key ↔ keys = [key] := by
  match keys with
  | [] => simp [sole]
  | [_] => simp [sole]
  | _ :: _ :: _ => simp [sole]

theorem refuse_eq_ok {α ε : Type} {found : Option α} {why : α → ε} {passed : Unit} :
    refuse found why = .ok passed ↔ found = none := by
  cases found <;> simp [refuse]

theorem exists_ok_iff {α ε : Type} {result : Except ε α} :
    result.isOk = true ↔ ∃ value, result = .ok value := by
  cases result <;> simp [Except.isOk, Except.toBool]

theorem bind_success {α β ε : Type} {first : Except ε α} {next : α → Except ε β} {result : β}
    (ok : first >>= next = .ok result) : ∃ value, first = .ok value ∧ next value = .ok result := by
  cases first with
  | error error => cases ok
  | ok value => exact ⟨value, rfl, ok⟩

theorem pure_eq_ok {α ε : Type} {a b : α} : (pure a : Except ε α) = .ok b ↔ b = a :=
  ⟨fun same => (Except.ok.inj same).symm, fun same => same ▸ rfl⟩

/-- A traversal succeeds item by item. -/
theorem mapM_eq_ok {α β ε : Type} {f : α → Except ε β} {items : List α} {results : List β} :
    items.mapM f = .ok results ↔
      List.Forall₂ (fun item result => f item = .ok result) items results := by
  induction items generalizing results with
  | nil => rw [List.forall₂_nil_left_iff, List.mapM_nil, pure_eq_ok]
  | cons item rest ih =>
    rw [List.mapM_cons]
    constructor
    · intro ok
      obtain ⟨first, here, ok⟩ := bind_success ok
      obtain ⟨others, later, ok⟩ := bind_success ok
      cases ok
      exact .cons here (ih.mp later)
    · intro done
      cases done with
      | cons here later =>
        rw [here, ih.mpr later]
        rfl

theorem eq_map_iff {α β : Type} {f : α → β} {items : List α} {results : List β} :
    results = items.map f ↔ List.Forall₂ (fun item result => result = f item) items results := by
  rw [eq_comm, ← List.forall₂_eq_eq_eq, List.forall₂_map_left_iff]
  simp only [eq_comm]

theorem Node.compiled_typed {node : Node} (element : node.compiled.kind = .element) :
    node.compiled.elementType.isSome := by
  unfold Node.compiled at element ⊢
  split at element
  · cases element
  · rename_i typed
    rw [if_neg typed]
    exact Option.isSome_iff_ne_none.mpr fun none => typed ⟨element, none⟩

theorem Node.compiled_kind {node : Node} (other : node.kind ≠ .element) :
    node.compiled.kind = node.kind := by
  unfold Node.compiled
  rw [if_neg fun both => other both.1]

namespace Pattern

theorem mem_keysOf {pattern : Pattern} {kind : NodeKind} {key : String} :
    key ∈ pattern.keysOf kind ↔ ∃ node, (key, node) ∈ pattern.nodes.entries ∧ node.kind = kind := by
  simp [keysOf]

theorem draft_entry {pattern : Pattern} {name start finish key : String} {node : Node}
    (member : (key, node) ∈ pattern.nodes.entries) :
    (key, node.compiled) ∈ (pattern.draft name start finish).nodes.entries :=
  List.mem_map.mpr ⟨(key, node), member, rfl⟩

theorem check_sound {pattern : Pattern} {name : String} {automaton : Automaton}
    (passed : pattern.check name = .ok automaton) : automaton.Sound := by
  unfold check at passed
  obtain ⟨start, starts, passed⟩ := bind_success passed
  obtain ⟨finish, finishes, passed⟩ := bind_success passed
  obtain ⟨_, _, passed⟩ := bind_success passed
  obtain ⟨_, dangling, passed⟩ := bind_success passed
  obtain ⟨_, _, passed⟩ := bind_success passed
  obtain ⟨_, _, passed⟩ := bind_success passed
  cases passed
  obtain ⟨first, firstIn, firstKind⟩ := mem_keysOf.mp
    (sole_eq_ok.mp starts ▸ List.mem_singleton_self start)
  obtain ⟨last, lastIn, lastKind⟩ := mem_keysOf.mp
    (sole_eq_ok.mp finishes ▸ List.mem_singleton_self finish)
  refine ⟨⟨_, draft_entry firstIn⟩, ⟨_, draft_entry lastIn, ?_⟩, ?_, ?_⟩
  · rw [Node.compiled_kind (by rw [lastKind]; decide), lastKind]
  · intro edge member
    have whole := List.find?_eq_none.mp (refuse_eq_ok.mp dangling) edge member
    simp only [decide_eq_true_eq, not_or, Classical.not_not] at whole
    simpa [draft] using whole
  · intro entry member element
    obtain ⟨source, _, rfl⟩ := List.mem_map.mp member
    exact Node.compiled_typed element

end Pattern

theorem Automaton.Compiled.sound {automaton : Automaton} (compiled : automaton.Compiled) :
    automaton.Sound := by
  obtain ⟨pattern, name, compiled⟩ := compiled
  unfold Pattern.compile at compiled
  cases checked : pattern.check name with
  | error defect => rw [checked] at compiled; cases compiled
  | ok draft =>
    rw [checked] at compiled
    cases compiled
    exact Pattern.check_sound checked

theorem isOk_bind_congr {α β γ ε : Type} {first : Except ε α} {next : α → Except ε β}
    {other : α → Except ε γ} (same : ∀ value, (next value).isOk = (other value).isOk) :
    (first >>= next).isOk = (first >>= other).isOk := by
  cases first with
  | error error => rfl
  | ok value => exact same value

theorem isOk_mapError {α ε ζ : Type} (why : ε → ζ) (result : Except ε α) :
    (result.mapError why).isOk = result.isOk := by
  cases result <;> rfl

theorem Pattern.check_isOk (pattern : Pattern) (name other : String) :
    (pattern.check name).isOk = (pattern.check other).isOk := by
  unfold check
  apply isOk_bind_congr
  intro start
  apply isOk_bind_congr
  intro finish
  -- none of the four refusals looks at the name
  iterate 4
    apply isOk_bind_congr
    intro _
  rfl

theorem Pattern.compile_isOk (pattern : Pattern) (name other : String) :
    (pattern.compile name).isOk = (pattern.compile other).isOk := by
  rw [compile, compile, isOk_mapError, isOk_mapError, check_isOk pattern name other]

theorem Grammar.compile_isOk (grammar : Grammar) : grammar.compile.isOk = true ↔
    ∀ entry ∈ grammar.entries, (entry.2.compile entry.1).isOk = true := by
  change (grammar.entries.mapM fun entry : String × Pattern => entry.2.compile entry.1).isOk = true ↔ _
  induction grammar.entries with
  | nil => exact iff_of_true rfl (List.forall_mem_nil _)
  | cons entry rest ih =>
    rw [List.mapM_cons, List.forall_mem_cons, ← ih]
    cases entry.2.compile entry.1 with
    | error error => exact iff_of_false Bool.false_ne_true fun both => Bool.false_ne_true both.1
    | ok automaton =>
      cases rest.mapM fun entry => entry.2.compile entry.1 with
      | error error => exact iff_of_false Bool.false_ne_true fun both => Bool.false_ne_true both.2
      | ok automata => exact iff_of_true rfl ⟨rfl, rfl⟩

end Constructicon
