import Mathlib.Data.Set.Card
import Constructicon.Proofs.Automaton
import Constructicon.Proofs.Closure

/-! Acceptance, and the number of ways to accept. An automaton accepts token types along elements
that follow one another. The elements at which listeners wait, each as often as the types so far
lead there, tell in how many ways the automaton accepts once the next type is known. -/
namespace Constructicon.Automaton

/-- From where listeners wait, the elements `keys` consume tokens of the given types one by one,
and the end is reached after the last. -/
def Accepts (automaton : Automaton) : Closure String → List String → List String → Prop
  | waiting, [], [] => waiting.reachesEnd = true
  | waiting, type :: types, key :: keys =>
    key ∈ waiting.elements ∧ automaton.matchType key = some type ∧
      automaton.Accepts (automaton.closureAfter key) types keys
  | _, _, _ => False

def matching (automaton : Automaton) (waiting : List String) (type : String) : List String :=
  waiting.filter (automaton.matchType · = some type)

def readings (automaton : Automaton) : Closure String → List String → List (List String)
  | waiting, [] => if waiting.reachesEnd then [[]] else []
  | waiting, type :: types => (automaton.matching waiting.elements type).flatMap fun key =>
      (automaton.readings (automaton.closureAfter key) types).map (key :: ·)

/-- Where listeners wait after a token, each place as often as it is reached. -/
def step (automaton : Automaton) (waiting : List String) (type : String) : List String :=
  (automaton.matching waiting type).flatMap fun key => (automaton.closureAfter key).elements

/-- How often a token leads to the end. -/
def endings (automaton : Automaton) (waiting : List String) (type : String) : Nat :=
  (automaton.matching waiting type).countP fun key => (automaton.closureAfter key).reachesEnd

variable {automaton : Automaton}

theorem mem_matching {waiting : List String} {type key : String} :
    key ∈ automaton.matching waiting type ↔
      key ∈ waiting ∧ automaton.matchType key = some type := by
  simp [matching]

theorem mem_readings {waiting : Closure String} {types keys : List String} :
    keys ∈ automaton.readings waiting types ↔ automaton.Accepts waiting types keys := by
  induction types generalizing waiting keys with
  | nil => cases keys <;> simp [readings, Accepts]
  | cons type types ih =>
    cases keys with
    | nil => simp [readings, Accepts]
    | cons key keys => simp [readings, Accepts, mem_matching, ih, and_assoc]

theorem nodup_readings {waiting : Closure String} (distinct : waiting.elements.Nodup)
    (types : List String) : (automaton.readings waiting types).Nodup := by
  induction types generalizing waiting with
  | nil =>
    unfold readings
    split <;> simp
  | cons type types ih =>
    rw [readings, List.nodup_flatMap]
    constructor
    · intro key _
      exact (ih (nodup_closure_elements _ _ _)).map fun _ _ same => (List.cons.inj same).2
    · refine (distinct.sublist List.filter_sublist).imp fun differ keys first second => differ ?_
      obtain ⟨_, _, rfl⟩ := List.mem_map.mp first
      obtain ⟨_, _, same⟩ := List.mem_map.mp second
      exact (List.cons.inj same).1.symm

theorem encard_accepts {waiting : Closure String} (distinct : waiting.elements.Nodup)
    (types : List String) : {keys | automaton.Accepts waiting types keys}.encard =
      (automaton.readings waiting types).length := by
  have same : {keys | automaton.Accepts waiting types keys} =
      ((automaton.readings waiting types).toFinset : Set (List String)) := by
    ext keys
    simp [mem_readings]
  rw [same, Set.encard_coe_eq_coe_finsetCard, List.toFinset_card_of_nodup (nodup_readings distinct _)]

theorem matching_append (some more : List String) (type : String) :
    automaton.matching (some ++ more) type =
      automaton.matching some type ++ automaton.matching more type :=
  List.filter_append ..

theorem foldl_step_append (types some more : List String) :
    types.foldl automaton.step (some ++ more) =
      types.foldl automaton.step some ++ types.foldl automaton.step more := by
  induction types generalizing some more with
  | nil => rfl
  | cons type types ih =>
    have split : automaton.step (some ++ more) type =
        automaton.step some type ++ automaton.step more type := by
      rw [step, matching_append, List.flatMap_append]
      rfl
    rw [List.foldl_cons, split, ih]
    rfl

theorem foldl_step_nil (types : List String) : types.foldl automaton.step [] = [] := by
  induction types with
  | nil => rfl
  | cons type types ih => exact ih

/-- Every element waited at contributes its endings. -/
theorem endings_flatMap (keys types : List String) (type : String) (after : String → List String) :
    automaton.endings (types.foldl automaton.step (keys.flatMap after)) type =
      (keys.map fun key => automaton.endings (types.foldl automaton.step (after key)) type).sum := by
  induction keys with
  | nil => rw [List.flatMap_nil, foldl_step_nil]; rfl
  | cons key keys ih =>
    rw [List.flatMap_cons, foldl_step_append, endings, matching_append, List.countP_append,
      List.map_cons, List.sum_cons, ← ih]
    rfl

/-- As many ways lead to the end as listeners reach it. -/
theorem length_readings (waiting : Closure String) (types : List String) (type : String) :
    (automaton.readings waiting (types ++ [type])).length =
      automaton.endings (types.foldl automaton.step waiting.elements) type := by
  induction types generalizing waiting with
  | nil =>
    rw [List.nil_append, List.foldl_nil, endings, readings]
    induction automaton.matching waiting.elements type with
    | nil => rfl
    | cons key keys ih =>
      rw [List.flatMap_cons, List.length_append, List.countP_cons, ih, readings, Nat.add_comm]
      split <;> simp
  | cons first types ih =>
    rw [List.cons_append, readings, List.length_flatMap, List.foldl_cons, step, endings_flatMap]
    simp only [List.length_map, ih]

end Constructicon.Automaton
