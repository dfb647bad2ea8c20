import Constructicon.Proofs.Excerpt
import Constructicon.Proofs.Network.Sound
import Constructicon.Event

/-! Selections from logs. Some events of a log are kept, numbered anew and timed from some tick on.
As long as nothing that is kept points to what is not, and since events only point back, the new
numbers of what has been logged do not change when the log grows. A cut is the selection of the
instances of some patterns that began after some tick. -/
namespace Constructicon

structure Selection where
  keeps : Event → Bool
  since : Nat

/-- What began at the tick `start`, timed as if this had been the first. -/
def Selection.beginning (start : Nat) : Selection where
  keeps event := event.start = start
  since := start - 1

theorem getD_shifted {start start' : Option Nat} {position position' since : Nat}
    (same : start = start'.map (· + since)) (shifted : position = position' + since) :
    start.getD position = start'.getD position' + since := by
  subst same
  cases start' with
  | none => exact shifted
  | some start => rfl

namespace Selection

variable (selection : Selection)

/-- The new number of the event with this id. -/
def number (log : List Event) (id : Nat) : Nat :=
  (log.take id).countP selection.keeps

def renumber (log : List Event) (event : Event) : Event :=
  { event with
    id := selection.number log event.id
    time := event.time - selection.since
    start := event.start - selection.since
    cause := event.cause.map (selection.number log)
    subEvent := event.subEvent.map (selection.number log) }

def excerpt (log : List Event) : List Event :=
  (log.filter selection.keeps).map (selection.renumber log)

/-- Whether what an event points to, if anything, is kept. -/
def Points (log : List Event) (id : Option Nat) : Prop :=
  ∀ i, id = some i → ∃ event, log[i]? = some event ∧ selection.keeps event = true

/-- Nothing that is kept points to anything that is not. -/
def Closed (log : List Event) : Prop :=
  ∀ event ∈ log, selection.keeps event = true →
    selection.Points log event.cause ∧ selection.Points log event.subEvent

def Cites (log : List Event) (id id' : Option Nat) : Prop :=
  selection.Points log id ∧ id' = id.map (selection.number log)

structure Same (log : List Event) (event event' : Event) : Prop where
  keeps : selection.keeps event = true
  bound : event.id < log.length
  cause : selection.Points log event.cause
  sub : selection.Points log event.subEvent
  renumbered : event' = selection.renumber log event

def Logs (log log' : List Event) : Prop :=
  Excerpt (fun event => selection.keeps event = false) (selection.Same log) log log'

variable {selection} {log log' : List Event}

theorem number_append {id : Nat} (bound : id ≤ log.length) (more : List Event) :
    selection.number (log ++ more) id = selection.number log id := by
  rw [number, number, List.take_append_of_le_length bound]

theorem Points.lt {i : Nat} (points : selection.Points log (some i)) : i < log.length :=
  let ⟨_, found, _⟩ := points i rfl
  (List.getElem?_eq_some_iff.mp found).1

theorem Points.append {id : Option Nat} (points : selection.Points log id) (more : List Event) :
    selection.Points (log ++ more) id := by
  intro i same
  obtain ⟨event, found, keeps⟩ := points i same
  exact ⟨event, getElem?_extend (List.prefix_append _ _) found, keeps⟩

theorem Points.map_number {id : Option Nat} (points : selection.Points log id)
    (more : List Event) :
    id.map (selection.number (log ++ more)) = id.map (selection.number log) := by
  cases id with
  | none => rfl
  | some i => exact congrArg some (number_append (Nat.le_of_lt points.lt) more)

theorem Cites.none (log : List Event) : selection.Cites log none none :=
  ⟨fun _ none => (by cases none), rfl⟩

theorem Cites.append {id id' : Option Nat} (cites : selection.Cites log id id')
    (more : List Event) : selection.Cites (log ++ more) id id' :=
  ⟨cites.1.append more, cites.2.trans (cites.1.map_number more).symm⟩

theorem Same.append {event event' : Event} (same : selection.Same log event event')
    (more : List Event) : selection.Same (log ++ more) event event' := by
  obtain ⟨keeps, bound, cause, sub, rfl⟩ := same
  refine ⟨keeps, by simp; omega, cause.append more, sub.append more, ?_⟩
  rw [renumber, renumber, number_append (Nat.le_of_lt bound), cause.map_number, sub.map_number]

namespace Logs

variable (logs : selection.Logs log log')
include logs

theorem eq_excerpt : log' = selection.excerpt log :=
  logs.eq_filter_map (fun _ _ same => ⟨same.keeps, same.renumbered⟩) fun _ gone => gone

theorem length : log'.length = selection.number log log.length := by
  rw [logs.eq_excerpt, excerpt, List.length_map, number, List.take_length, List.countP_eq_length_filter]

theorem skip {event : Event} (gone : selection.keeps event = false) :
    selection.Logs (log ++ [event]) log' := by
  refine Excerpt.append_nothing (logs.imp fun _ _ same => same.append _) fun other member => ?_
  rwa [List.mem_singleton.mp member]

theorem take {event event' : Event} (same : selection.Same (log ++ [event]) event event') :
    selection.Logs (log ++ [event]) (log' ++ [event']) :=
  Excerpt.append (logs.imp fun _ _ same => same.append _) (.take same .nil)

theorem record {event event' : Event} (keeps : selection.keeps event = true)
    (shape : event = { event' with
      id := log.length, time := event'.time + selection.since
      start := event'.start + selection.since, cause := event.cause, subEvent := event.subEvent })
    (id : event'.id = log'.length) (cause : selection.Cites log event.cause event'.cause)
    (sub : selection.Cites log event.subEvent event'.subEvent) :
    selection.Logs (log ++ [event]) (log' ++ [event']) := by
  have own : event.id = log.length := congrArg Event.id shape
  refine logs.take ⟨keeps, by simp [own], cause.1.append _, sub.1.append _, ?_⟩
  rw [renumber, own, number_append (Nat.le_refl _), ← logs.length, ← id, cause.1.map_number,
    sub.1.map_number, ← cause.2, ← sub.2, shape]
  simp

theorem cites {event : Event} (keeps : selection.keeps event = true) :
    selection.Cites (log ++ [event]) (some log.length) (some log'.length) := by
  refine ⟨fun i same => ?_, ?_⟩
  · cases same
    exact ⟨event, List.getElem?_concat_length, keeps⟩
  · rw [Option.map_some, number_append (Nat.le_refl _), ← logs.length]

theorem closed : selection.Closed log := by
  intro event member keeps
  rcases logs.split member with gone | ⟨_, _, same⟩
  · rw [gone] at keeps
    cases keeps
  · exact ⟨same.cause, same.sub⟩

end Logs

end Selection

structure Cut where
  inside : String → Bool
  since : Nat

namespace Cut

variable (cut : Cut)

def keeps (event : Event) : Bool :=
  cut.inside event.pattern ∧ cut.since < event.start

def selection : Selection where
  keeps := cut.keeps
  since := cut.since

@[simp] theorem selection_keeps (event : Event) : cut.selection.keeps event = cut.keeps event := rfl

@[simp] theorem selection_since : cut.selection.since = cut.since := rfl

def excerpt (log : List Event) : List Event :=
  cut.selection.excerpt log

def Closed (log : List Event) : Prop :=
  cut.selection.Closed log

end Cut

end Constructicon
