import Mathlib.Data.Finset.Card
import Mathlib.Data.Nat.Find
import Mathlib.Logic.Function.Iterate
import Mathlib.Logic.Relation
import Constructicon.Proofs.Tree.Roots

/-! Walks along causes, in any log whatever: ids may repeat, causes may be unknown or run in a
circle, and the walk itself takes no heed of where it has been. It comes to an end just if it never
looks up an id twice, and then it has met no more events than the log has ids. In the log of a
session every cause is older than what it caused, so there each walk ends. -/
namespace Constructicon

namespace Log
open Relation (ReflTransGen)

/-- What has been met on the way, the latest last, and the id to be looked up next. -/
structure Walk where
  met : List Event
  cursor : Option Nat

/-- One turn: the event stored under the id is met, and its cause is next. No turn is left when
there is no id or nothing is stored under it. -/
inductive Walk.Meets (log : List Event) : Walk → Walk → Prop where
  | next {met : List Event} {id : Nat} {event : Event} (stored : lookup log id = some event) :
      Meets log ⟨met, some id⟩ ⟨met ++ [event], event.cause⟩

/-- The walk that begins with `cause` comes to an end. -/
def Ends (log : List Event) (cause : Option Nat) : Prop :=
  Acc (Function.swap (Walk.Meets log)) ⟨[], cause⟩

/-- What has been met when no turn is left. -/
def EndsWith (log : List Event) (cause : Option Nat) (met : List Event) : Prop :=
  ∃ cursor, ReflTransGen (Walk.Meets log) ⟨[], cause⟩ ⟨met, cursor⟩ ∧
    ∀ next, ¬ Walk.Meets log ⟨met, cursor⟩ next

/-- The cause of the event stored under an id. -/
def causeOf (log : List Event) (cursor : Option Nat) : Option Nat :=
  (cursor.bind (lookup log)).bind (·.cause)

/-- The ids looked up one after another: the one to begin with, then the cause of the event stored
under it, and so on. -/
def lookedUp (log : List Event) (cause : Option Nat) (turn : Nat) : Option Nat :=
  (causeOf log)^[turn] cause

def NeverRepeats (log : List Event) (cause : Option Nat) : Prop :=
  ∀ first second id, lookedUp log cause first = some id → lookedUp log cause second = some id →
    first = second

/-- The number of different ids in a log. -/
def idCount (log : List Event) : Nat :=
  (log.map (·.id)).toFinset.card

/-- Every cause is older than what it caused. -/
def PointsBack (log : List Event) : Prop :=
  ∀ event ∈ log, ∀ cause, event.cause = some cause → cause < event.id

section Walk

variable {log : List Event} {cause : Option Nat} {bound : Nat} {met fires : List Event}
  {walk last : Walk}

theorem Walk.meets_iff {next : Walk} : Walk.Meets log walk next ↔ ∃ event,
    walk.cursor.bind (lookup log) = some event ∧ next = ⟨walk.met ++ [event], event.cause⟩ := by
  constructor
  · rintro ⟨stored⟩
    exact ⟨_, stored, rfl⟩
  · rintro ⟨event, found, rfl⟩
    obtain ⟨met, cursor⟩ := walk
    obtain ⟨id, rfl, stored⟩ := Option.bind_eq_some_iff.mp found
    exact .next stored

theorem Walk.stuck_iff :
    (∀ next, ¬ Walk.Meets log walk next) ↔ walk.cursor.bind (lookup log) = none := by
  constructor
  · intro stuck
    refine Option.eq_none_iff_forall_ne_some.mpr fun event found => ?_
    exact stuck _ (Walk.meets_iff.mpr ⟨event, found, rfl⟩)
  · intro none next turn
    obtain ⟨event, found, _⟩ := Walk.meets_iff.mp turn
    cases none.symm.trans found

theorem length_chain_le (chained : chain log bound cause = some fires) : fires.length ≤ bound := by
  fun_induction chain log bound cause generalizing fires with
  | case1 =>
    cases chained
    exact Nat.zero_le _
  | case2 => cases chained
  | case3 cause fire bound found ih =>
    obtain ⟨rest, before, rfl⟩ := Option.map_eq_some_iff.mp chained
    simpa using ih before

/-- A chain within bounds is what a walk meets, turned round. -/
theorem run_of_chain (met : List Event) (chained : chain log bound cause = some fires) :
    ∃ cursor, ReflTransGen (Walk.Meets log) ⟨met, cause⟩ ⟨met ++ fires.reverse, cursor⟩ ∧
      ∀ next, ¬ Walk.Meets log ⟨met ++ fires.reverse, cursor⟩ next := by
  fun_induction chain log bound cause generalizing met fires with
  | case1 bound cause stop =>
    cases chained
    simpa using ⟨cause, ReflTransGen.refl, Walk.stuck_iff.mpr stop⟩
  | case2 => cases chained
  | case3 cause fire bound found ih =>
    obtain ⟨rest, before, rfl⟩ := Option.map_eq_some_iff.mp chained
    obtain ⟨cursor, run, stuck⟩ := ih (met ++ [fire]) before
    have turn : Walk.Meets log ⟨met, cause⟩ ⟨met ++ [fire], fire.cause⟩ :=
      Walk.meets_iff.mpr ⟨fire, found, rfl⟩
    rw [List.append_assoc, List.singleton_append, ← List.reverse_concat'] at run stuck
    exact ⟨cursor, .head turn run, stuck⟩

theorem acc_of_chain (met : List Event) (chained : chain log bound cause = some fires) :
    Acc (Function.swap (Walk.Meets log)) ⟨met, cause⟩ := by
  fun_induction chain log bound cause generalizing met fires with
  | case1 bound cause stop =>
    exact .intro _ fun next turn => absurd turn (Walk.stuck_iff.mpr stop next)
  | case2 => cases chained
  | case3 cause fire bound found ih =>
    obtain ⟨rest, before, _⟩ := Option.map_eq_some_iff.mp chained
    refine .intro _ fun next turn => ?_
    obtain ⟨event, same, rfl⟩ := Walk.meets_iff.mp turn
    cases found.symm.trans same
    exact ih _ before

/-- What a walk meets until it is stuck is the chain, within any bounds that are wide enough. -/
theorem chain_of_run (run : ReflTransGen (Walk.Meets log) walk last)
    (stuck : ∀ next, ¬ Walk.Meets log last next) :
    ∃ fires, last.met = walk.met ++ fires.reverse ∧
      ∀ bound, fires.length ≤ bound → chain log bound walk.cursor = some fires := by
  induction run using ReflTransGen.head_induction_on with
  | refl =>
    refine ⟨[], by simp, fun bound _ => ?_⟩
    rw [chain.eq_def, Walk.stuck_iff.mp stuck]
  | head turn _ ih =>
    obtain ⟨fires, rest, chained⟩ := ih
    obtain @⟨met, id, event, stored⟩ := turn
    refine ⟨fires ++ [event], by simp [rest], fun bound wide => ?_⟩
    obtain ⟨bound, rfl⟩ : ∃ less, bound = less + 1 := ⟨bound - 1, by simp at wide; omega⟩
    rw [chain_step stored, chained bound (by simpa using wide)]
    rfl

theorem chain_eq_some_iff : chain log bound cause = some fires ↔
    fires.length ≤ bound ∧ EndsWith log cause fires.reverse := by
  constructor
  · intro chained
    obtain ⟨cursor, run, stuck⟩ := run_of_chain [] chained
    exact ⟨length_chain_le chained, cursor, run, stuck⟩
  · rintro ⟨wide, cursor, run, stuck⟩
    obtain ⟨others, same, chained⟩ := chain_of_run run stuck
    cases List.reverse_inj.mp (show fires.reverse = others.reverse by simpa using same)
    exact chained bound wide

theorem EndsWith.unique {other : List Event} (first : EndsWith log cause met)
    (second : EndsWith log cause other) : met = other := by
  have chained {items : List Event} (ends : EndsWith log cause items)
      (wide : items.length ≤ met.length + other.length) :
      chain log (met.length + other.length) cause = some items.reverse :=
    chain_eq_some_iff.mpr ⟨by simpa using wide, by simpa using ends⟩
  have same := (chained first (Nat.le_add_right _ _)).symm.trans
    (chained second (Nat.le_add_left _ _))
  exact List.reverse_inj.mp (Option.some.inj same)

theorem Walk.exists_stuck (ends : Acc (Function.swap (Walk.Meets log)) walk) :
    ∃ last, ReflTransGen (Walk.Meets log) walk last ∧ ∀ next, ¬ Walk.Meets log last next := by
  induction ends with
  | intro walk _ ih =>
    by_cases stuck : ∀ next, ¬ Walk.Meets log walk next
    · exact ⟨walk, .refl, stuck⟩
    · obtain ⟨next, turn⟩ := not_forall_not.mp stuck
      obtain ⟨last, run, stuck⟩ := ih next turn
      exact ⟨last, .head turn run, stuck⟩

end Walk

section Ids

variable {log : List Event} {cause : Option Nat} {bound : Nat} {met : List Event} {walk : Walk}

theorem lookedUp_succ (turn : Nat) :
    lookedUp log cause (turn + 1) = lookedUp log (causeOf log cause) turn := rfl

theorem lookedUp_succ' (turn : Nat) :
    lookedUp log cause (turn + 1) = causeOf log (lookedUp log cause turn) :=
  Function.iterate_succ_apply' _ _ _

theorem lookedUp_add (turn more : Nat) :
    lookedUp log cause (turn + more) = lookedUp log (lookedUp log cause turn) more := by
  rw [Nat.add_comm]
  exact Function.iterate_add_apply _ _ _ _

/-- The next id of a walk is the one whose turn it is. -/
theorem cursor_eq (run : ReflTransGen (Walk.Meets log) ⟨[], cause⟩ walk) :
    walk.cursor = lookedUp log cause walk.met.length := by
  induction run with
  | refl => rfl
  | tail _ turn ih =>
    obtain ⟨stored⟩ := turn
    rw [List.length_append, List.length_singleton, lookedUp_succ', ← ih, causeOf, Option.bind_some,
      stored, Option.bind_some]

/-- After the last id nothing is looked up any more. -/
theorem vanished {turn later : Nat} (ended : lookedUp log cause turn = none)
    (after : turn ≤ later) : lookedUp log cause later = none := by
  obtain ⟨more, rfl⟩ := Nat.exists_eq_add_of_le after
  rw [lookedUp_add, ended]
  induction more with
  | zero => rfl
  | succ more ih => exact ih (Nat.le_add_right _ _)

theorem neverRepeats_of_lt
    (fresh : ∀ first second id, first < second → lookedUp log cause first = some id →
      lookedUp log cause second ≠ some id) : NeverRepeats log cause := by
  intro first second id here again
  rcases Nat.lt_trichotomy first second with before | same | after
  · exact absurd again (fresh first second id before here)
  · exact same
  · exact absurd here (fresh second first id after again)

/-- What is looked up twice is looked up again and again, so the ids never run out. -/
theorem neverRepeats_of_vanished {turn : Nat} (ended : lookedUp log cause turn = none) :
    NeverRepeats log cause := by
  have exhausted : ∃ turn, lookedUp log cause turn = none := ⟨turn, ended⟩
  refine neverRepeats_of_lt fun first second id before here again => ?_
  have inside : second < Nat.find exhausted := by
    by_contra beyond
    cases (vanished (Nat.find_spec exhausted) (Nat.not_lt.mp beyond)).symm.trans again
  -- what is left after the second time is what was left after the first, so the end came sooner
  obtain ⟨more, last⟩ := Nat.exists_eq_add_of_lt inside
  have sooner : lookedUp log cause (first + (more + 1)) = none := by
    rw [lookedUp_add, here, ← again, ← lookedUp_add, ← Nat.add_assoc, ← last]
    exact Nat.find_spec exhausted
  exact Nat.find_min exhausted (by omega) sooner

theorem EndsWith.neverRepeats (ends : EndsWith log cause met) : NeverRepeats log cause := by
  obtain ⟨cursor, run, stuck⟩ := ends
  have next : lookedUp log cause (met.length + 1) = none := by
    rw [lookedUp_succ', ← cursor_eq run, causeOf, Walk.stuck_iff.mp stuck, Option.bind_none]
  exact neverRepeats_of_vanished next

/-- When a chain exceeds its bounds, every turn within them has looked up an id of the log. -/
theorem looksUp_of_chain_none (exceeded : chain log bound cause = none) (turn : Nat)
    (within : turn ≤ bound) : ∃ event ∈ log, lookedUp log cause turn = some event.id := by
  have here {cause : Option Nat} {event : Event} (found : cause.bind (lookup log) = some event) :
      ∃ event ∈ log, lookedUp log cause 0 = some event.id := by
    obtain ⟨id, rfl, stored⟩ := Option.bind_eq_some_iff.mp found
    obtain ⟨present, rfl⟩ := mem_of_lookup stored
    exact ⟨event, present, rfl⟩
  fun_induction chain log bound cause generalizing turn with
  | case1 => cases exceeded
  | case2 cause event found =>
    cases Nat.le_zero.mp within
    exact here found
  | case3 cause event bound found ih =>
    cases turn with
    | zero => exact here found
    | succ turn =>
      have next : causeOf log cause = event.cause := by rw [causeOf, found, Option.bind_some]
      rw [lookedUp_succ, next]
      exact ih (Option.map_eq_none_iff.mp exceeded) turn (Nat.le_of_succ_le_succ within)

/-- A walk that looks up no id twice needs no more turns than there are ids. -/
theorem NeverRepeats.exists_chain (fresh : NeverRepeats log cause) :
    ∃ fires, chain log (idCount log) cause = some fires := by
  refine Option.ne_none_iff_exists'.mp fun exceeded => ?_
  have known := looksUp_of_chain_none exceeded
  have fits : (Finset.range (idCount log + 1)).card ≤
      ((log.map (·.id)).toFinset.map Function.Embedding.some).card := by
    apply Finset.card_le_card_of_injOn (lookedUp log cause)
    · intro turn within
      obtain ⟨event, present, same⟩ := known turn (by simpa [Nat.lt_succ_iff] using within)
      simpa [same] using ⟨event, present, rfl⟩
    · intro first within second _ same
      obtain ⟨event, _, here⟩ := known first (by simpa [Nat.lt_succ_iff] using within)
      exact fresh first second event.id here (same ▸ here)
  rw [Finset.card_range, Finset.card_map] at fits
  exact absurd fits (Nat.not_succ_le_self _)

theorem ends_iff : Ends log cause ↔ NeverRepeats log cause := by
  constructor
  · intro ends
    obtain ⟨last, run, stuck⟩ := Walk.exists_stuck ends
    exact EndsWith.neverRepeats ⟨last.cursor, run, stuck⟩
  · intro fresh
    obtain ⟨fires, chained⟩ := fresh.exists_chain
    exact acc_of_chain [] chained

theorem EndsWith.length_le (ends : EndsWith log cause met) : met.length ≤ idCount log := by
  obtain ⟨fires, chained⟩ := ends.neverRepeats.exists_chain
  obtain ⟨within, same⟩ := chain_eq_some_iff.mp chained
  rw [ends.unique same, List.length_reverse]
  exact within

theorem idCount_le_length (log : List Event) : idCount log ≤ log.length :=
  (List.toFinset_card_le _).trans (Nat.le_of_eq (List.length_map _))

/-- The bounds put on the chain when trees are read back are never exceeded by a walk that ends. -/
theorem chain_length_eq_some_iff {fires : List Event} :
    chain log log.length cause = some fires ↔ EndsWith log cause fires.reverse := by
  rw [chain_eq_some_iff, and_iff_right_iff_imp]
  intro ends
  simpa using ends.length_le.trans (idCount_le_length log)

theorem PointsBack.causeOf_lt (back : PointsBack log) {id earlier : Nat}
    (caused : causeOf log (some id) = some earlier) : earlier < id := by
  rw [causeOf, Option.bind_some] at caused
  obtain ⟨event, stored, link⟩ := Option.bind_eq_some_iff.mp caused
  obtain ⟨present, rfl⟩ := mem_of_lookup stored
  exact back event present earlier link

theorem PointsBack.lookedUp_lt (back : PointsBack log) {turn id more earlier : Nat}
    (here : lookedUp log cause turn = some id)
    (later : lookedUp log cause (turn + more + 1) = some earlier) : earlier < id := by
  induction more generalizing earlier with
  | zero =>
    rw [Nat.add_zero, lookedUp_succ', here] at later
    exact back.causeOf_lt later
  | succ more ih =>
    cases between : lookedUp log cause (turn + more + 1) with
    | none => cases (vanished between (Nat.le_succ _)).symm.trans later
    | some middle =>
      rw [← Nat.add_assoc, lookedUp_succ', between] at later
      exact (back.causeOf_lt later).trans (ih between)

/-- Where everything points back, no walk goes in a circle. -/
theorem PointsBack.neverRepeats (back : PointsBack log) (cause : Option Nat) :
    NeverRepeats log cause := by
  refine neverRepeats_of_lt fun first second id before here again => ?_
  obtain ⟨more, rfl⟩ := Nat.exists_eq_add_of_lt before
  exact Nat.lt_irrefl id (back.lookedUp_lt here again)

end Ids

end Log

namespace Recognition
open Constructicon.Log

/-- The trees of the completions among the first `count` events, each assembled from those before
it. There are none when the walk of one of these completions does not end. -/
def upTo (log : List Event) (count : Nat) : Option (List Recognition) :=
  ((log.take count).filter (·.kind = .complete)).foldlM (fun earlier completion =>
    (assemble log earlier completion).map fun tree => earlier ++ [tree]) []

/-- The tree of the completion that stands at a position of the log. -/
inductive TreeAt (log : List Event) (position : Nat) (recognition : Recognition) : Prop where
  | assembled {completion : Event} {earlier : List Recognition}
      (recorded : log[position]? = some completion) (completed : completion.kind = .complete)
      (before : upTo log position = some earlier)
      (assembled : assemble log earlier completion = some recognition)

/-- What is known of the completion at a position of any log: when its walk ends, what is assembled
for it then, how many children that tree has at most, and which constructions are among them. -/
structure Walked (log : List Event) (position : Nat) (completion : Event) : Prop where
  looksUp : ∀ walk, Relation.ReflTransGen (Walk.Meets log) ⟨[], completion.cause⟩ walk →
    walk.cursor = lookedUp log completion.cause walk.met.length
  ends : Ends log completion.cause ↔ NeverRepeats log completion.cause
  assembled : ∀ earlier recognition, assemble log earlier completion = some recognition ↔
    ∃ met, EndsWith log completion.cause met ∧
      recognition = ⟨completion.span, met.reverse.map (child earlier)⟩
  few : ∀ earlier recognition, assemble log earlier completion = some recognition →
    recognition.children.length ≤ idCount log
  built : ∀ earlier, upTo log position = some earlier →
    ((∃ recognition, TreeAt log position recognition) ↔ Ends log completion.cause)
  older : ∀ recognition, TreeAt log position recognition → ∀ tree ∈ recognition.children,
    ∀ span, tree.span? = some span → ∃ before < position, ∃ inner,
      TreeAt log before inner ∧ inner.tree = tree

section Building

variable {log : List Event} {position count : Nat} {completion : Event}
  {earlier recognitions : List Recognition} {recognition : Recognition}

theorem assemble_eq_some_iff : assemble log earlier completion = some recognition ↔
    ∃ met, EndsWith log completion.cause met ∧
      recognition = ⟨completion.span, met.reverse.map (child earlier)⟩ := by
  rw [assemble, Option.map_eq_some_iff]
  constructor
  · rintro ⟨fires, chained, rfl⟩
    exact ⟨fires.reverse, chain_length_eq_some_iff.mp chained, by rw [List.reverse_reverse]; rfl⟩
  · rintro ⟨met, ends, rfl⟩
    exact ⟨met.reverse, chain_length_eq_some_iff.mpr (by rwa [List.reverse_reverse]), rfl⟩

theorem exists_assemble_iff (earlier : List Recognition) :
    (∃ recognition, assemble log earlier completion = some recognition) ↔
      NeverRepeats log completion.cause := by
  constructor
  · rintro ⟨recognition, assembled⟩
    obtain ⟨met, ends, _⟩ := assemble_eq_some_iff.mp assembled
    exact ends.neverRepeats
  · intro fresh
    obtain ⟨fires, chained⟩ := fresh.exists_chain
    exact ⟨_, assemble_eq_some_iff.mpr ⟨_, (chain_eq_some_iff.mp chained).2, rfl⟩⟩

/-- The trees of some completions, built one after another, are there just if all walks end. -/
theorem exists_foldlM_iff (completions : List Event) (earlier : List Recognition) :
    (∃ recognitions, completions.foldlM (fun earlier completion =>
      (assemble log earlier completion).map fun tree => earlier ++ [tree]) earlier =
        some recognitions) ↔ ∀ completion ∈ completions, NeverRepeats log completion.cause := by
  induction completions generalizing earlier with
  | nil => simp
  | cons completion rest ih =>
    rw [List.forall_mem_cons, ← exists_assemble_iff earlier]
    constructor
    · rintro ⟨recognitions, folded⟩
      rw [List.foldlM_cons] at folded
      obtain ⟨next, first, folded⟩ := Option.bind_eq_some_iff.mp folded
      obtain ⟨recognition, assembled, _⟩ := Option.map_eq_some_iff.mp first
      exact ⟨⟨recognition, assembled⟩, (ih next).mp ⟨recognitions, folded⟩⟩
    · rintro ⟨⟨recognition, assembled⟩, fresh⟩
      obtain ⟨recognitions, folded⟩ := (ih (earlier ++ [recognition])).mpr fresh
      refine ⟨recognitions, ?_⟩
      rw [List.foldlM_cons, assembled]
      exact folded

theorem exists_ofLog_iff : (∃ recognitions, ofLog log = some recognitions) ↔
    ∀ completion ∈ log, completion.kind = .complete → NeverRepeats log completion.cause := by
  simp only [ofLog, exists_foldlM_iff, List.mem_filter, decide_eq_true_eq, and_imp]

theorem upTo_length (log : List Event) : upTo log log.length = ofLog log := by
  rw [upTo, List.take_length]
  rfl

theorem upTo_same (others : ∀ event, log[count]? = some event → event.kind ≠ .complete) :
    upTo log (count + 1) = upTo log count := by
  have none : log[count]?.toList.filter (·.kind = .complete) = [] := by
    simpa [List.filter_eq_nil_iff] using others
  rw [upTo, List.take_add_one, List.filter_append, none, List.append_nil, upTo]

theorem upTo_succ_eq_some_iff (here : log[count]? = some completion)
    (completed : completion.kind = .complete) :
    upTo log (count + 1) = some recognitions ↔ ∃ earlier, upTo log count = some earlier ∧
      ∃ recognition, assemble log earlier completion = some recognition ∧
        earlier ++ [recognition] = recognitions := by
  have next : upTo log (count + 1) = (upTo log count).bind fun earlier =>
      (assemble log earlier completion).map fun tree => earlier ++ [tree] := by
    rw [upTo, List.take_add_one, List.filter_append, here, List.foldlM_append, upTo]
    simp [completed]
  rw [next]
  simp only [Option.bind_eq_some_iff, Option.map_eq_some_iff]

theorem exists_treeAt (built : upTo log count = some recognitions)
    (present : recognition ∈ recognitions) :
    ∃ position < count, TreeAt log position recognition := by
  induction count generalizing recognitions with
  | zero =>
    cases built
    cases present
  | succ count ih =>
    by_cases last : ∃ completion, log[count]? = some completion ∧ completion.kind = .complete
    · obtain ⟨completion, here, completed⟩ := last
      obtain ⟨earlier, before, newest, assembled, rfl⟩ :=
        (upTo_succ_eq_some_iff here completed).mp built
      rcases List.mem_append.mp present with old | new
      · obtain ⟨position, older, treeAt⟩ := ih before old
        exact ⟨position, Nat.lt_succ_of_lt older, treeAt⟩
      · rw [List.mem_singleton.mp new]
        exact ⟨count, Nat.lt_succ_self _, .assembled here completed before assembled⟩
    · rw [upTo_same fun event here completed => last ⟨event, here, completed⟩] at built
      obtain ⟨position, older, treeAt⟩ := ih built present
      exact ⟨position, Nat.lt_succ_of_lt older, treeAt⟩

theorem walked (recorded : log[position]? = some completion)
    (completed : completion.kind = .complete) : Walked log position completion where
  looksUp _ := cursor_eq
  ends := ends_iff
  assembled earlier recognition := assemble_eq_some_iff
  few earlier recognition assembled := by
    obtain ⟨met, ends, rfl⟩ := assemble_eq_some_iff.mp assembled
    simpa using ends.length_le
  built earlier before := by
    rw [ends_iff, ← exists_assemble_iff earlier]
    constructor
    · rintro ⟨recognition, recorded', _, before', assembled⟩
      cases recorded.symm.trans recorded'
      cases before.symm.trans before'
      exact ⟨recognition, assembled⟩
    · rintro ⟨recognition, assembled⟩
      exact ⟨recognition, .assembled recorded completed before assembled⟩
  older := by
    rintro recognition ⟨_, _, before, assembled⟩ tree present span spans
    obtain ⟨met, _, rfl⟩ := assemble_eq_some_iff.mp assembled
    obtain ⟨fire, _, rfl⟩ := List.mem_map.mp present
    obtain ⟨inner, known, same⟩ := child_of_span? spans
    obtain ⟨position, earlier, treeAt⟩ := exists_treeAt before known
    exact ⟨position, earlier, inner, treeAt, same⟩

end Building

end Recognition

/-- In any log whatever the walk of a completion ends just if it looks up no id twice; then the
completion has a tree, with at most as many children as there are different ids in the log, and
each child that is a construction is the tree of a completion that stands earlier. At every point
of every course, in both modes, the causes in the log are older than what they caused, so no walk
looks up an id twice. -/
theorem Course.walks_exact {course : Course}
    (reached : course.Reached Opening Session.sweepUnified) (log : List Event) :
    (∀ position completion, log[position]? = some completion → completion.kind = .complete →
      Recognition.Walked log position completion) ∧
    ((∃ recognitions, Recognition.ofLog log = some recognitions) ↔
      ∀ completion ∈ log, completion.kind = .complete → Log.NeverRepeats log completion.cause) ∧
    (∀ recognitions, Recognition.ofLog log = some recognitions → ∀ recognition ∈ recognitions,
      ∃ position, Recognition.TreeAt log position recognition) ∧
    Log.PointsBack course.session.events ∧
    ∀ completion ∈ course.session.events, completion.kind = .complete →
      Log.NeverRepeats course.session.events completion.cause := by
  obtain ⟨sound, _⟩ := reached.sound (fun _ opening => opening.starts) Session.dropping_sweepUnified
  have back : Log.PointsBack course.session.events := by
    intro event present cause caused
    obtain ⟨position, here⟩ := List.mem_iff_getElem?.mp present
    have recorded := sound.log position event here
    exact recorded.id ▸ recorded.cause_lt caused
  refine ⟨fun _ _ recorded completed => Recognition.walked recorded completed,
    Recognition.exists_ofLog_iff, ?_, back, fun completion _ _ => back.neverRepeats _⟩
  intro recognitions read recognition present
  rw [← Recognition.upTo_length] at read
  obtain ⟨position, _, treeAt⟩ := Recognition.exists_treeAt read present
  exact ⟨position, treeAt⟩

/-- Two numbers in a row, and a pattern around them that was left without its beginning. -/
def linkedLog : List Event :=
  [{ id := 0, time := 1, start := 1, pattern := "pair", node := "left", kind := .fire },
    { id := 1, time := 2, start := 1, pattern := "pair", node := "right", kind := .fire,
      cause := some 0 },
    { id := 2, time := 2, start := 1, pattern := "pair", node := "end", kind := .complete,
      cause := some 1 },
    { id := 3, time := 2, start := 1, pattern := "outer", node := "inner", kind := .fire,
      cause := some 9, subEvent := some 2 },
    { id := 4, time := 2, start := 1, pattern := "outer", node := "end", kind := .complete,
      cause := some 3 }]

/-- An event that takes the place of the first one and has the second one as its cause. -/
def overwritingEvent : Event :=
  { id := 0, time := 3, start := 1, pattern := "pair", node := "left", kind := .fire,
    cause := some 1 }

/-- The second completion has the tree of the first among its children. Once the first event has
been overwritten, the walk of the first completion goes in a circle, and there are no trees. -/
theorem Course.walks_exact_overwritten :
    let overwritten := linkedLog ++ [overwritingEvent]
    Log.Ends linkedLog (some 1) ∧
      (∃ outer tree span, Recognition.TreeAt linkedLog 4 outer ∧ outer.children.length ≤ 5 ∧
        tree ∈ outer.children ∧ tree.span? = some span ∧ span.event = 2 ∧
        ∃ before < 4, ∃ inner, Recognition.TreeAt linkedLog before inner ∧ inner.tree = tree) ∧
      ¬ Log.Ends overwritten (some 1) ∧
      (¬ ∃ recognitions, Recognition.ofLog overwritten = some recognitions) ∧
      Log.PointsBack (sumsCourse {} numbers).session.events := by
  have reached : (sumsCourse {} numbers).Reached Opening Session.sweepUnified :=
    sumsCourse_reached _ numbers (.unified (.composed (.grammar sums_network)))
  obtain ⟨walked, all, _, back, _⟩ := Course.walks_exact reached linkedLog
  obtain ⟨circling, none, _⟩ := Course.walks_exact reached (linkedLog ++ [overwritingEvent])
  have read : ∃ recognitions, Recognition.ofLog linkedLog = some recognitions :=
    Option.isSome_iff_exists.mp (by decide +kernel)
  have circle : ¬ Log.NeverRepeats (linkedLog ++ [overwritingEvent]) (some 1) :=
    fun fresh => absurd (fresh 0 2 1 (by decide +kernel) (by decide +kernel)) (by decide)
  have first : linkedLog[2] ∈ linkedLog ++ [overwritingEvent] := by decide
  refine ⟨(walked 2 linkedLog[2] rfl rfl).ends.mpr (all.mp read linkedLog[2] (by decide) rfl), ?_,
    fun ends => circle ((circling 2 linkedLog[2] rfl rfl).ends.mp ends),
    fun read => circle (none.mp read linkedLog[2] first rfl), back⟩
  have nested : ((Recognition.upTo linkedLog 4).bind fun earlier =>
      (Recognition.assemble linkedLog earlier linkedLog[4]).map fun outer =>
        Tree.eventsOf outer.children) = some [2] := by decide +kernel
  obtain ⟨earlier, before, nested⟩ := Option.bind_eq_some_iff.mp nested
  obtain ⟨outer, assembled, nested⟩ := Option.map_eq_some_iff.mp nested
  have listed : 2 ∈ Tree.eventsOf outer.children := nested ▸ List.mem_singleton_self 2
  obtain ⟨tree, present, named⟩ := List.mem_filterMap.mp listed
  obtain ⟨span, spans, named⟩ := Option.map_eq_some_iff.mp named
  have treeAt : Recognition.TreeAt linkedLog 4 outer := .assembled rfl rfl before assembled
  have outermost := walked 4 linkedLog[4] rfl rfl
  exact ⟨outer, tree, span, treeAt, outermost.few earlier outer assembled, present, spans, named,
    outermost.older outer treeAt tree present span spans⟩

end Constructicon
