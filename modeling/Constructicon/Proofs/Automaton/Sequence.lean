import Constructicon.Proofs.Automaton.Accepts
import Constructicon.Proofs.Automaton.Activation

/-! Patterns made of a list of steps. Their keys differ however many there are, so that the nodes
are those of the steps although they stand in the order of the keys; the edges join what follows
one another. Such a pattern is refused for a reference that does not say what it refers to, and for
nothing else. Its automaton waits at one element at a time and reads the types of the steps in one
way, and no other types. -/
namespace Constructicon

namespace Automaton

/-- The elements `keys` are waited at one after another, each alone and for its type, and the end is
found after the last. -/
inductive Chain (automaton : Automaton) : Closure String → List String → List String → Prop where
  | done {waiting : Closure String} (none : waiting.elements = [])
      (ends : waiting.reachesEnd = true) : Chain automaton waiting [] []
  | step {waiting : Closure String} {key type : String} {types keys : List String}
      (sole : waiting.elements = [key]) (before : waiting.reachesEnd = false)
      (typed : automaton.matchType key = some type)
      (rest : Chain automaton (automaton.closureAfter key) types keys) :
      Chain automaton waiting (type :: types) (key :: keys)

/-- From the seeds listeners get to `next` without a token, and else to the start at most. -/
def Gets (automaton : Automaton) (seeds : List String) (next : String) : Prop :=
  (∃ seed ∈ seeds, Path automaton.silent seed next) ∧
    ∀ seed ∈ seeds, ∀ node, Path automaton.silent seed node →
      node = automaton.start ∨ node = next

section Gets

variable {automaton : Automaton} {seeds : List String} {next : String}

theorem Gets.path_iff (gets : automaton.Gets seeds next)
    (start : automaton.kindOf automaton.start = .start) {node : String}
    (other : automaton.kindOf node ≠ .start) :
    (∃ seed ∈ seeds, Path automaton.silent seed node) ↔ node = next := by
  constructor
  · rintro ⟨seed, seeded, path⟩
    rcases gets.2 seed seeded node path with rfl | same
    · exact absurd start other
    · exact same
  · rintro rfl
    exact gets.1

theorem Gets.closureFrom_eq (gets : automaton.Gets seeds next)
    (start : automaton.kindOf automaton.start = .start) :
    automaton.closureFrom seeds =
      ⟨if automaton.kindOf next = .element then [next] else [],
        automaton.kindOf next = .finish⟩ := by
  have member (node : String) : node ∈ (automaton.closureFrom seeds).elements ↔
      automaton.kindOf next = .element ∧ node = next := by
    rw [mem_closureFrom]
    constructor
    · rintro ⟨kind, path⟩
      obtain rfl := (gets.path_iff start (by simp [kind])).mp path
      exact ⟨kind, rfl⟩
    · rintro ⟨kind, rfl⟩
      exact ⟨kind, gets.1⟩
  have ends : (automaton.closureFrom seeds).reachesEnd =
      decide (automaton.kindOf next = .finish) := by
    rw [Bool.eq_iff_iff, closureFrom_reachesEnd, decide_eq_true_iff]
    constructor
    · rintro ⟨seed, seeded, node, kind, path⟩
      obtain rfl := (gets.path_iff start (by simp [kind])).mp ⟨seed, seeded, path⟩
      exact kind
    · intro kind
      obtain ⟨seed, seeded, path⟩ := gets.1
      exact ⟨seed, seeded, next, kind, path⟩
  have distinct : (automaton.closureFrom seeds).elements.Nodup :=
    nodup_closure_elements _ _ _
  have elements : (automaton.closureFrom seeds).elements =
      if automaton.kindOf next = .element then [next] else [] := by
    split
    · rename_i element
      refine List.perm_singleton.mp ?_
      rw [List.perm_ext_iff_of_nodup distinct (List.nodup_singleton _)]
      simp [member, element]
    · rename_i other
      simp [List.eq_nil_iff_forall_not_mem, member, other]
  rw [← elements, ← ends]

end Gets

theorem Chain.readings_eq {automaton : Automaton} {waiting : Closure String}
    {types keys : List String} (chain : automaton.Chain waiting types keys) (given : List String) :
    automaton.readings waiting given = if given = types then [keys] else [] := by
  induction chain generalizing given with
  | done none ends =>
    cases given with
    | nil => simp [readings, ends]
    | cons type given => simp [readings, matching, none]
  | @step waiting key type types keys sole before typed rest ih =>
    cases given with
    | nil => simp [readings, before]
    | cons other given =>
      by_cases same : type = other
      · subst same
        by_cases also : given = types <;> simp [readings, matching, sole, typed, ih, also]
      · simp [readings, matching, sole, typed, same, Ne.symm same]

end Automaton

section Route

variable {α : Type} {route before rest : List α} {a b : α}

theorem mem_zip_tail : (a, b) ∈ route.zip route.tail ↔
    ∃ before after, route = before ++ a :: b :: after := by
  induction route with
  | nil => simp
  | cons first route ih =>
    cases route with
    | nil =>
      simp only [List.tail_cons, List.zip_nil_right, List.not_mem_nil, false_iff]
      rintro ⟨before, after, same⟩
      have length := congrArg List.length same
      simp at length
      omega
    | cons second later =>
      have split : (a, b) ∈ (first :: second :: later).zip (first :: second :: later).tail ↔
          a = first ∧ b = second ∨ (a, b) ∈ (second :: later).zip (second :: later).tail := by
        simp
      rw [split, ih]
      constructor
      · rintro (⟨rfl, rfl⟩ | ⟨before, after, same⟩)
        · exact ⟨[], later, rfl⟩
        · exact ⟨first :: before, after, by rw [same]; rfl⟩
      · rintro ⟨before, after, same⟩
        cases before with
        | nil =>
          obtain ⟨source, target⟩ := List.cons.inj same
          exact .inl ⟨source.symm, (List.cons.inj target).1.symm⟩
        | cons other before => exact .inr ⟨before, after, (List.cons.inj same).2⟩

/-- On a route without repetitions every place leads to the next one only. -/
theorem mem_zip_tail_of_nodup (distinct : route.Nodup) (split : route = before ++ a :: rest) :
    (a, b) ∈ route.zip route.tail ↔ rest.head? = some b := by
  rw [mem_zip_tail]
  constructor
  · rintro ⟨earlier, after, other⟩
    rw [split, List.nodup_append, List.nodup_cons] at distinct
    have fresh : a ∉ before := fun member => distinct.2.2 a member a List.mem_cons_self rfl
    have same := (List.append_cons_inj_of_notMem fresh distinct.2.1.1).mp (split ▸ other)
    rw [same.2.2]
    rfl
  · intro next
    obtain ⟨after, rfl⟩ := List.head?_eq_some_iff.mp next
    exact ⟨before, after, split⟩

theorem path_from_first {first : α} (member : a ∈ first :: rest) :
    Path ((first :: rest).zip rest) first a := by
  induction rest generalizing first with
  | nil =>
    rw [List.mem_singleton.mp member]
    exact .refl first
  | cons second later ih =>
    rcases List.mem_cons.mp member with rfl | behind
    · exact .refl _
    · have arc : (first, second) ∈ (first :: second :: later).zip (second :: later) := by simp
      refine .step arc ((ih behind).mono fun arc member => ?_)
      exact List.mem_cons_of_mem _ member

theorem path_to_last {last : α} (member : a ∈ before ++ [last]) :
    Path ((before ++ [last]).zip (before ++ [last]).tail) a last := by
  induction before generalizing a with
  | nil =>
    rw [List.mem_singleton.mp member]
    exact .refl last
  | cons first before ih =>
    obtain ⟨second, later, whole⟩ : ∃ second later, before ++ [last] = second :: later :=
      List.exists_cons_of_ne_nil (by simp)
    rw [List.cons_append, whole] at member ⊢
    rw [whole] at ih
    have onward {b : α} (behind : b ∈ second :: later) :
        Path ((first :: second :: later).zip (second :: later)) b last :=
      (ih behind).mono fun arc member => List.mem_cons_of_mem _ member
    rcases List.mem_cons.mp member with rfl | behind
    · exact .step List.mem_cons_self (onward List.mem_cons_self)
    · exact onward behind

end Route

namespace Node

/-- A step without the at sign it may begin with. -/
def bare (step : String) : String :=
  if step.toList.head? = some '@' then String.ofList step.toList.tail else step

theorem ofStep_cases (step : String) :
    (∃ name, step.toList = '@' :: name ∧ bare step = String.ofList name ∧
      ofStep step = referring (bare step)) ∨
    step.toList.head? ≠ some '@' ∧ bare step = step ∧ ofStep step = consuming step := by
  unfold ofStep bare
  cases letters : step.toList with
  | nil => simp
  | cons first rest =>
    by_cases sign : first = '@'
    · subst sign
      exact .inl ⟨rest, rfl, by simp, by simp⟩
    · refine .inr ⟨by simp [sign], by simp [sign], ?_⟩
      split
      · simp_all
      · rfl

theorem kind_ofStep (step : String) : (ofStep step).kind = .element := by
  rcases ofStep_cases step with ⟨name, _, _, node⟩ | ⟨_, _, node⟩ <;> rw [node] <;> rfl

theorem matchType_ofStep (step : String) : (ofStep step).matchType = some (bare step) := by
  rcases ofStep_cases step with ⟨name, _, _, node⟩ | ⟨_, same, node⟩
  · rw [node]
    rfl
  · rw [node, same]
    simp [matchType, reference, consuming]

theorem reference_ofStep {step name : String} :
    (ofStep step).reference = some name ↔ step.toList = '@' :: name.toList := by
  rcases ofStep_cases step with ⟨rest, letters, same, node⟩ | ⟨plain, _, node⟩
  · have known : (referring (String.ofList rest)).reference = some (String.ofList rest) := rfl
    rw [node, same, known, letters, Option.some.injEq, ← String.toList_inj, String.toList_ofList]
    simp
  · rw [node]
    have other : step.toList ≠ '@' :: name.toList := fun letters => plain (by rw [letters]; rfl)
    simp [reference, consuming, other]

/-- The one step that makes a reference without a name. -/
theorem isUnnamed_ofStep {step : String} :
    (ofStep step).isUnnamed = true ↔ step = referenceType := by
  rcases ofStep_cases step with ⟨rest, letters, same, node⟩ | ⟨_, _, node⟩
  · have other : step ≠ referenceType := by
      rintro rfl
      have first : 'C' = '@' := (List.cons.inj letters).1
      exact absurd first (by decide)
    simp [node, isUnnamed, referring, other]
  · simp [node, isUnnamed, consuming]

end Node

namespace Pattern

theorem toList_stepKey (position : Nat) :
    (stepKey position).toList = 'e' :: Nat.toDigits 10 position := by
  simp [stepKey, toString]

theorem stepKey_injective : Function.Injective stepKey := by
  intro first second same
  have letters := congrArg String.toList same
  rw [toList_stepKey, toList_stepKey] at letters
  have digits := congrArg (Nat.ofDigitChars 10 · 0) (List.cons.inj letters).2
  simpa using digits

theorem stepKey_ne_start (position : Nat) : stepKey position ≠ "start" := by
  intro same
  have letters := congrArg String.toList same
  rw [toList_stepKey] at letters
  exact absurd (List.cons.inj letters).1 (by decide)

theorem stepKey_ne_end (position : Nat) : stepKey position ≠ "end" := by
  intro same
  have letters := congrArg String.toList same
  rw [toList_stepKey] at letters
  have digits : Nat.toDigits 10 position = ['n', 'd'] := (List.cons.inj letters).2
  have digit := Nat.isDigit_of_mem_toDigits (by decide) (by decide)
    (digits ▸ List.mem_cons_self : 'n' ∈ Nat.toDigits 10 position)
  exact absurd digit (by decide)

/-- The keys of a sequence from its start to its end. -/
def route (count : Nat) : List String :=
  "start" :: (List.range count).map stepKey ++ ["end"]

/-- The steps under their keys. -/
def stops (steps : List String) : List (String × String) :=
  ((List.range steps.length).map stepKey).zip steps

variable {name : String} {steps : List String} {key : String} {node : Node}

theorem nodup_route (count : Nat) : (route count).Nodup := by
  rw [route, List.cons_append, List.nodup_cons, List.nodup_append]
  refine ⟨?_, List.nodup_range.map stepKey_injective, List.nodup_singleton _, ?_⟩
  · simp [stepKey_ne_start]
  · simp [stepKey_ne_end]

theorem keys_stops (steps : List String) :
    (stops steps).map (·.1) = (List.range steps.length).map stepKey := by
  rw [stops]
  exact List.map_fst_zip (by simp)

theorem steps_stops (steps : List String) : (stops steps).map (·.2) = steps := by
  rw [stops]
  exact List.map_snd_zip (by simp)

theorem mem_steps_iff {step : String} : step ∈ steps ↔ ∃ key, (key, step) ∈ stops steps := by
  conv_lhs => rw [← steps_stops steps]
  simp

theorem route_eq (steps : List String) :
    route steps.length = "start" :: (stops steps).map (·.1) ++ ["end"] := by
  rw [keys_stops, route]

theorem get?_sequence : (sequence name steps).nodes.get? key = some node ↔
    key = "start" ∧ node = { kind := .start } ∨ key = "end" ∧ node = { kind := .finish } ∨
      ∃ step, (key, step) ∈ stops steps ∧ node = Node.ofStep step := by
  have nodes : (sequence name steps).nodes = Table.ofList
      (("start", { kind := .start }) :: ("end", { kind := .finish }) ::
        (stops steps).map (Prod.map id Node.ofStep)) := by
    rw [stops, ← List.zip_map_right]
    rfl
  have distinct : (("start" :: "end" :: (stops steps).map (·.1)) : List String).Nodup := by
    have same : (route steps.length).Perm ("start" :: "end" :: (stops steps).map (·.1)) := by
      rw [route_eq, List.cons_append]
      exact (List.perm_append_singleton _ _).cons _
    exact same.nodup_iff.mp (nodup_route _)
  rw [nodes, Table.get?_ofList]
  · simp [eq_comm]
  · simpa [Function.comp_def] using distinct

theorem mem_keys_sequence : key ∈ (sequence name steps).nodes.keys ↔ key ∈ route steps.length := by
  have known : key ∈ (sequence name steps).nodes.keys ↔
      ∃ node, (sequence name steps).nodes.get? key = some node := by
    rw [← Table.contains_iff_mem_keys, Table.contains_eq_isSome, Option.isSome_iff_exists]
  simp only [known, get?_sequence, route_eq, List.cons_append, List.mem_cons, List.mem_append,
    List.mem_map, List.not_mem_nil, or_false, Prod.exists]
  constructor
  · rintro ⟨node, ⟨start, _⟩ | ⟨finish, _⟩ | ⟨step, member, _⟩⟩
    · exact .inl start
    · exact .inr (.inr finish)
    · exact .inr (.inl ⟨key, step, member, rfl⟩)
  · rintro (start | ⟨_, step, member, rfl⟩ | finish)
    · exact ⟨_, .inl ⟨start, rfl⟩⟩
    · exact ⟨_, .inr (.inr ⟨step, member, rfl⟩)⟩
    · exact ⟨_, .inr (.inl ⟨finish, rfl⟩)⟩

theorem arcs_sequence :
    (sequence name steps).arcs = (route steps.length).zip (route steps.length).tail := by
  simp [arcs, sequence, route, Function.comp_def]

theorem has_sequence {kind : NodeKind} : (sequence name steps).Has kind key ↔
    key = "start" ∧ kind = .start ∨ key = "end" ∧ kind = .finish ∨
      kind = .element ∧ ∃ step, (key, step) ∈ stops steps := by
  simp only [Has, get?_sequence]
  constructor
  · rintro ⟨node, ⟨start, rfl⟩ | ⟨finish, rfl⟩ | ⟨step, member, rfl⟩, rfl⟩
    · exact .inl ⟨start, rfl⟩
    · exact .inr (.inl ⟨finish, rfl⟩)
    · exact .inr (.inr ⟨Node.kind_ofStep step, step, member⟩)
  · rintro (⟨start, rfl⟩ | ⟨finish, rfl⟩ | ⟨rfl, step, member⟩)
    · exact ⟨_, .inl ⟨start, rfl⟩, rfl⟩
    · exact ⟨_, .inr (.inl ⟨finish, rfl⟩), rfl⟩
    · exact ⟨_, .inr (.inr ⟨step, member, rfl⟩), Node.kind_ofStep step⟩

theorem exists_nameless_sequence :
    (∃ key, (sequence name steps).Nameless key) ↔ referenceType ∈ steps := by
  simp only [mem_steps_iff, nameless_iff, ← Table.get?_eq_some_iff, get?_sequence]
  constructor
  · rintro ⟨key, node, ⟨_, rfl⟩ | ⟨_, rfl⟩ | ⟨step, member, rfl⟩, unnamed⟩
    · cases unnamed
    · cases unnamed
    · exact ⟨key, Node.isUnnamed_ofStep.mp unnamed ▸ member⟩
  · rintro ⟨key, member⟩
    exact ⟨key, _, .inr (.inr ⟨_, member, rfl⟩), Node.isUnnamed_ofStep.mpr rfl⟩

/-- A list of steps is refused for a reference that does not say what it refers to, and for nothing
else. -/
theorem wellFormed_sequence {start finish : String} :
    (sequence name steps).WellFormed start finish ↔
      start = "start" ∧ finish = "end" ∧ referenceType ∉ steps := by
  have starts : (sequence name steps).Only .start "start" := by
    intro other
    simp [has_sequence]
  have ends : (sequence name steps).Only .finish "end" := by
    intro other
    simp [has_sequence]
  constructor
  · intro formed
    refine ⟨?_, ?_, fun member => ?_⟩
    · exact ((formed.starts "start").mp ((starts "start").mpr rfl)).symm
    · exact ((formed.ends "end").mp ((ends "end").mpr rfl)).symm
    · obtain ⟨key, unnamed⟩ := exists_nameless_sequence.mpr member
      exact formed.named key unnamed
  · rintro ⟨rfl, rfl, absent⟩
    constructor
    case starts => exact starts
    case ends => exact ends
    case named => exact fun key unnamed => absent (exists_nameless_sequence.mp ⟨key, unnamed⟩)
    case joined =>
      intro edge member
      have arc : (edge.source, edge.target) ∈ (sequence name steps).arcs :=
        List.mem_map_of_mem (f := fun edge => (edge.source, edge.target)) member
      rw [arcs_sequence] at arc
      obtain ⟨source, target⟩ := List.of_mem_zip arc
      exact ⟨mem_keys_sequence.mpr source, mem_keys_sequence.mpr (List.mem_of_mem_tail target)⟩
    case reached =>
      intro key member
      rw [arcs_sequence]
      exact path_from_first (mem_keys_sequence.mp member)
    case leads =>
      intro key member
      rw [arcs_sequence]
      exact path_to_last (mem_keys_sequence.mp member)

/-- The names after the at signs, each once and in ascending order. -/
theorem references_sequence : (sequence name steps).references.Pairwise (· < ·) ∧
    ∀ pattern, pattern ∈ (sequence name steps).references ↔
      ∃ step ∈ steps, step.toList = '@' :: pattern.toList := by
  constructor
  · exact List.pairwise_map.mpr (Table.ascending _)
  · intro pattern
    rw [references, Table.mem_distinct, List.mem_filterMap]
    simp only [Table.values, List.mem_map, Prod.exists, exists_eq_right, mem_steps_iff,
      ← Table.get?_eq_some_iff, get?_sequence, ← Node.reference_ofStep]
    constructor
    · rintro ⟨_, ⟨key, ⟨_, rfl⟩ | ⟨_, rfl⟩ | ⟨step, member, rfl⟩⟩, refers⟩
      · cases refers
      · cases refers
      · exact ⟨step, ⟨key, member⟩, refers⟩
    · rintro ⟨step, ⟨key, member⟩, refers⟩
      exact ⟨_, ⟨key, .inr (.inr ⟨step, member, rfl⟩)⟩, refers⟩

/-- The automaton of a list of steps. -/
def strand (steps : List String) (name other : String) : Automaton :=
  (sequence name steps).draft other "start" "end"

variable {other : String}

theorem compile_sequence {automaton : Automaton} :
    (sequence name steps).compile other = .ok automaton ↔
      referenceType ∉ steps ∧ strand steps name other = automaton := by
  rw [compile_eq_ok]
  simp only [wellFormed_sequence]
  constructor
  · rintro ⟨_, _, ⟨rfl, rfl, absent⟩, same⟩
    exact ⟨absent, same⟩
  · rintro ⟨absent, same⟩
    exact ⟨_, _, ⟨rfl, rfl, absent⟩, same⟩

theorem compile_sequence_isOk :
    ((sequence name steps).compile other).isOk = true ↔ referenceType ∉ steps := by
  rw [exists_ok_iff]
  simp only [compile_sequence]
  constructor
  · rintro ⟨_, absent, _⟩
    exact absent
  · intro absent
    exact ⟨_, absent, rfl⟩

theorem compiled_ofStep (step : String) : (Node.ofStep step).compiled = Node.ofStep step := by
  have typed : (Node.ofStep step).elementType ≠ none := by
    rcases Node.ofStep_cases step with ⟨_, _, _, node⟩ | ⟨_, _, node⟩ <;>
      simp [node, Node.referring, Node.consuming]
  rw [Node.compiled, if_neg fun both => typed both.2]

theorem node?_strand {step : String} (member : (key, step) ∈ stops steps) :
    (strand steps name other).node? key = some (Node.ofStep step) := by
  have found : (sequence name steps).nodes.get? key = some (Node.ofStep step) :=
    get?_sequence.mpr (.inr (.inr ⟨step, member, rfl⟩))
  rw [Automaton.node?, strand, draft, Table.get?_map, found, Option.map_some, compiled_ofStep]

theorem kindOf_strand {step : String} (member : (key, step) ∈ stops steps) :
    (strand steps name other).kindOf key = .element := by
  rw [Automaton.kindOf, node?_strand member]
  exact Node.kind_ofStep step

theorem matchType_strand {step : String} (member : (key, step) ∈ stops steps) :
    (strand steps name other).matchType key = some (Node.bare step) := by
  rw [Automaton.matchType, node?_strand member]
  exact Node.matchType_ofStep step

theorem kindOf_strand_start : (strand steps name other).kindOf "start" = .start :=
  (kindOf_draft_iff (by decide) (by decide)).mpr (has_sequence.mpr (.inl ⟨rfl, rfl⟩))

theorem kindOf_strand_end : (strand steps name other).kindOf "end" = .finish :=
  (kindOf_draft_iff (by decide) (by decide)).mpr (has_sequence.mpr (.inr (.inl ⟨rfl, rfl⟩)))

theorem bypass_sequence (name : String) {edge : Edge String}
    (member : edge ∈ (sequence name steps).edges) : edge.bypass = false := by
  obtain ⟨arc, _, rfl⟩ := List.mem_map.mp member
  rfl

/-- What follows a place of the route, given what stands before it. -/
theorem mem_arcs_sequence (name : String) {before rest : List String} {a b : String}
    (split : route steps.length = before ++ a :: rest) :
    (a, b) ∈ (sequence name steps).arcs ↔ rest.head? = some b := by
  rw [arcs_sequence]
  exact mem_zip_tail_of_nodup (nodup_route _) split

/-- Only the start of a list of steps is left without a token. -/
theorem mem_silent_strand {a b : String} : (a, b) ∈ (strand steps name other).silent ↔
    a = "start" ∧ ((stops steps).map (·.1) ++ ["end"]).head? = some b := by
  have first {b : String} : ("start", b) ∈ (sequence name steps).arcs ↔
      ((stops steps).map (·.1) ++ ["end"]).head? = some b := by
    have split : route steps.length = [] ++ "start" :: ((stops steps).map (·.1) ++ ["end"]) :=
      route_eq steps
    exact mem_arcs_sequence name split
  rw [Automaton.mem_silent]
  constructor
  · rintro ⟨edge, member, silent, same⟩
    have arc : (edge.source, edge.target) ∈ (sequence name steps).arcs :=
      List.mem_map_of_mem (f := fun edge => (edge.source, edge.target)) member
    cases same
    have source := (List.of_mem_zip (arcs_sequence ▸ arc)).1
    rw [route_eq, List.cons_append, List.mem_cons, List.mem_append, List.mem_singleton] at source
    rcases source with start | within | finish
    · exact ⟨start, first.mp (start ▸ arc)⟩
    · obtain ⟨stop, known, key⟩ := List.mem_map.mp within
      have element : (strand steps name other).kindOf stop.1 = .element := kindOf_strand known
      rw [Edge.isSilent, ← key, element, bypass_sequence name member] at silent
      cases silent
    · rw [Edge.isSilent, finish, kindOf_strand_end] at silent
      cases silent
  · rintro ⟨rfl, next⟩
    obtain ⟨edge, member, same⟩ := List.mem_map.mp (first.mpr next)
    refine ⟨edge, member, ?_, same⟩
    rw [Edge.isSilent, (Prod.mk.inj same).1, kindOf_strand_start]

theorem path_silent_strand {a b : String} : Path (strand steps name other).silent a b ↔
    b = a ∨ a = "start" ∧ ((stops steps).map (·.1) ++ ["end"]).head? = some b := by
  constructor
  · intro path
    cases path with
    | refl => exact .inl rfl
    | @step _ next _ arc rest =>
      have silent := mem_silent_strand.mp arc
      cases rest with
      | refl => exact .inr silent
      | step again _ =>
        -- The start does not stand on the route a second time.
        have distinct := nodup_route steps.length
        rw [route_eq, List.cons_append, List.nodup_cons] at distinct
        have start : next = "start" := (mem_silent_strand.mp again).1
        exact absurd (start ▸ List.mem_of_mem_head? silent.2) distinct.1
  · rintro (rfl | silent)
    · exact .refl _
    · exact .step (mem_silent_strand.mpr silent) (.refl _)

variable {seeds : List String} {next : String}

/-- After what stands before them, the elements that are left are waited at one by one. -/
theorem chain_strand {before after : List (String × String)} (split : stops steps = before ++ after)
    (first : (after.map (·.1) ++ ["end"]).head? = some next)
    (gets : (strand steps name other).Gets seeds next) :
    (strand steps name other).Chain ((strand steps name other).closureFrom seeds)
      (after.map fun stop => Node.bare stop.2) (after.map (·.1)) := by
  induction after generalizing before seeds next with
  | nil =>
    obtain rfl : "end" = next := by simpa using first
    rw [gets.closureFrom_eq kindOf_strand_start, kindOf_strand_end]
    exact .done rfl rfl
  | cons stop later ih =>
    obtain rfl : stop.1 = next := by simpa using first
    have member : stop ∈ stops steps := by simp [split]
    have place : route steps.length =
        ("start" :: before.map (·.1)) ++ stop.1 :: (later.map (·.1) ++ ["end"]) := by
      simp [route_eq, split]
    have arc {node : String} : node ∈ (strand steps name other).successors stop.1 ↔
        (later.map (·.1) ++ ["end"]).head? = some node := by
      rw [Automaton.mem_successors_iff_arc]
      exact mem_arcs_sequence name place
    obtain ⟨second, follows⟩ : ∃ second, (later.map (·.1) ++ ["end"]).head? = some second := by
      cases later <;> simp
    have onward :
        (strand steps name other).Gets ((strand steps name other).successors stop.1) second := by
      refine ⟨⟨second, arc.mpr follows, .refl _⟩, fun seed left node path => ?_⟩
      obtain rfl : second = seed := Option.some.inj (follows.symm.trans (arc.mp left))
      rcases path_silent_strand.mp path with same | ⟨start, _⟩
      · exact .inr same
      · -- The start does not stand on the route a second time.
        have distinct := nodup_route steps.length
        rw [place, List.cons_append, List.nodup_cons] at distinct
        refine absurd ?_ distinct.1
        exact List.mem_append_right _ (List.mem_cons_of_mem _
          (start ▸ List.mem_of_mem_head? follows))
    rw [gets.closureFrom_eq kindOf_strand_start, kindOf_strand member]
    have earlier : stops steps = (before ++ [stop]) ++ later := by simp [split]
    exact .step rfl rfl (matchType_strand member) (ih earlier follows onward)

/-- The start leads to the first element, so it is there that listeners wait at first. -/
theorem entry_strand : (strand steps name other).Chain
    (strand steps name other).entryClosure (steps.map Node.bare) ((stops steps).map (·.1)) := by
  obtain ⟨next, first⟩ : ∃ next, ((stops steps).map (·.1) ++ ["end"]).head? = some next := by
    cases stops steps <;> simp
  have gets : (strand steps name other).Gets ["start"] next := by
    refine ⟨⟨"start", List.mem_singleton_self _, path_silent_strand.mpr (.inr ⟨rfl, first⟩)⟩, ?_⟩
    intro seed seeded node path
    rw [List.mem_singleton.mp seeded] at path
    rcases path_silent_strand.mp path with same | ⟨_, also⟩
    · exact .inl same
    · exact .inr (Option.some.inj (also.symm.trans first))
  have chain := chain_strand (List.nil_append (stops steps)).symm first gets
  have types : (stops steps).map (fun stop => Node.bare stop.2) = steps.map Node.bare := by
    conv_rhs => rw [← steps_stops steps, List.map_map]
    rfl
  rwa [types] at chain

/-- The types of the steps are read in one way, whatever the keys, and no others are read. -/
theorem readings_strand (types : List String) :
    (strand steps name other).readings (strand steps name other).entryClosure types =
      if types = steps.map Node.bare then [(stops steps).map (·.1)] else [] :=
  entry_strand.readings_eq types

end Pattern

end Constructicon
