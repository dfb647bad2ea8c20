import Constructicon.Proofs.Session.Cascade
import Constructicon.Proofs.Session.Course

/-! Where events come from. Every firing is of an element that awaited it, either as a first
element of its pattern or after the firing that caused it, and it begins exactly where that firing
ended; a firing of a reference consumed a completion recorded before it in the same tick, and a
completion follows a firing from which the end is reached. One invariant links the log, the
listeners and the completions still to be settled; it holds at every point of every course. -/
namespace Constructicon

/-- How an instance came to wait at `node` for what begins at `position`. -/
inductive Event.Awaited (network : Network) (log : List Event) (event : Event)
    (node position : Nat) : Prop where
  | entry {member : Member} (cause : event.cause = none) (start : event.start = position)
      (registered : network.member? event.pattern = some member) (opens : node ∈ member.entryNodes)
  | after {cause last : Nat} {before : Event} (caused : event.cause = some cause)
      (found : log[cause]? = some before) (earlier : cause < event.id) (fired : before.kind = .fire)
      (pattern : before.pattern = event.pattern) (start : before.start = event.start)
      (adjacent : before.time + 1 = position) (later : before.time < event.time)
      (place : network.find? before.pattern before.node = some last)
      (follows : node ∈ (network.closureAfter last).elements)

/-- What each event of a log rests on: a token, a completion consumed, or a firing that reached
the end of its pattern. -/
inductive Event.Grounded (network : Network) (mode : Mode) (tokens : List Token) (log : List Event)
    (event : Event) : Prop where
  | token {node : Nat} {site : Site} {token : Token} (kind : event.kind = .fire)
      (sub : event.subEvent = none)
      (place : network.find? event.pattern event.node = some node)
      (found : network.sites[node]? = some site)
      (awaited : event.Awaited network log node event.time)
      (current : tokens[event.time - 1]? = some token)
      (elementType : event.elementType = some token.elementType)
      (value : event.elementValue = some token.value)
      (agrees : site.matchType = some token.elementType)
      (consumes : mode = .unified → site.reference = none)
  | reference {node consumed : Nat} {site : Site} {sub : Event} (kind : event.kind = .fire)
      (consumes : event.subEvent = some consumed)
      (place : network.find? event.pattern event.node = some node)
      (found : network.sites[node]? = some site)
      (recorded : log[consumed]? = some sub) (earlier : consumed < event.id)
      (completed : sub.kind = .complete) (together : sub.time = event.time)
      (awaited : event.Awaited network log node sub.start)
      (names : site.reference = some sub.pattern)
      (elementType : event.elementType = some referenceType)
      (value : event.elementValue = some sub.pattern)
  | completion {cause final : Nat} {before : Event} {member : Member}
      (kind : event.kind = .complete) (sub : event.subEvent = none)
      (elementType : event.elementType = none) (value : event.elementValue = none)
      (registered : network.member? event.pattern = some member)
      (place : network.find? event.pattern event.node = some member.finish)
      (caused : event.cause = some cause) (found : log[cause]? = some before)
      (earlier : cause < event.id) (fired : before.kind = .fire)
      (pattern : before.pattern = event.pattern) (start : before.start = event.start)
      (together : before.time = event.time)
      (last : network.find? before.pattern before.node = some final)
      (reachesEnd : (network.closureAfter final).reachesEnd = true)

structure Event.Sound (network : Network) (mode : Mode) (tokens : List Token) (log : List Event)
    (position : Nat) (event : Event) : Prop where
  id : event.id = position
  begins : 1 ≤ event.start
  spans : event.start ≤ event.time
  past : event.time ≤ tokens.length
  grounded : event.Grounded network mode tokens log

/-- The log is grounded in the tokens consumed. -/
def SoundLog (network : Network) (mode : Mode) (tokens : List Token) (log : List Event) : Prop :=
  ∀ (position : Nat) (event : Event), log[position]? = some event →
    event.Sound network mode tokens log position

theorem ids_eq_range {network : Network} {mode : Mode} {tokens : List Token} {log : List Event}
    (sound : SoundLog network mode tokens log) : log.map (·.id) = List.range log.length := by
  apply List.ext_getElem
  · simp
  · intro position first second
    simpa using (sound position _ (List.getElem?_eq_getElem (by simpa using second))).id

theorem Event.Sound.place {network : Network} {mode : Mode} {tokens : List Token} {log : List Event}
    {position : Nat} {event : Event} (sound : event.Sound network mode tokens log position) :
    ∃ node, network.find? event.pattern event.node = some node := by
  cases sound.grounded with
  | token _ _ place => exact ⟨_, place⟩
  | reference _ _ place => exact ⟨_, place⟩
  | completion _ _ _ _ _ place => exact ⟨_, place⟩

theorem Event.Awaited.cause_lt {network : Network} {log : List Event} {event : Event}
    {node position cause : Nat} (awaited : event.Awaited network log node position)
    (caused : event.cause = some cause) : cause < event.id := by
  cases awaited with
  | entry none => cases none.symm.trans caused
  | after some _ earlier => cases some.symm.trans caused; exact earlier

theorem Event.Sound.cause_lt {network : Network} {mode : Mode} {tokens : List Token}
    {log : List Event} {position cause : Nat} {event : Event}
    (sound : event.Sound network mode tokens log position) (caused : event.cause = some cause) :
    cause < position := by
  rw [← sound.id]
  cases sound.grounded with
  | token _ _ _ _ awaited => exact awaited.cause_lt caused
  | reference _ _ _ _ _ _ _ _ awaited => exact awaited.cause_lt caused
  | completion _ _ _ _ _ _ some _ earlier => cases some.symm.trans caused; exact earlier

theorem Event.Sound.sub_lt {network : Network} {mode : Mode} {tokens : List Token}
    {log : List Event} {position consumed : Nat} {event : Event}
    (sound : event.Sound network mode tokens log position)
    (consumes : event.subEvent = some consumed) : consumed < position := by
  rw [← sound.id]
  cases sound.grounded with
  | token _ none => cases none.symm.trans consumes
  | reference _ some _ _ _ earlier => cases some.symm.trans consumes; exact earlier
  | completion _ none => cases none.symm.trans consumes

/-- How a listener came to wait where it does. -/
inductive Listener.Grounded (network : Network) (log : List Event) (listener : Listener) : Prop where
  | entry {member : Member} (origin : listener.origin = none) (start : listener.start = none)
      (registered : network.members[listener.pattern]? = some member)
      (opens : listener.node ∈ member.entryNodes)
  | after {cause last : Nat} {before : Event} (origin : listener.origin = some cause)
      (found : log[cause]? = some before) (fired : before.kind = .fire)
      (start : listener.start = some before.start) (adjacent : listener.readyAt = before.time + 1)
      (place : network.find? before.pattern before.node = some last)
      (pattern : network.memberIndex? before.pattern = some listener.pattern)
      (follows : listener.node ∈ (network.closureAfter last).elements)

structure Listener.Sound (network : Network) (log : List Event) (position : Nat)
    (listener : Listener) : Prop where
  id : listener.id = position
  ready : 1 ≤ listener.readyAt
  born : listener.bornAt = listener.readyAt - 1
  grounded : listener.Grounded network log

/-- A completion to be settled in the tick `time` follows a firing of that tick. -/
def Completion.Grounded (network : Network) (log : List Event) (time : Nat) (done : Completion) :
    Prop :=
  ∃ before, log[done.cause]? = some before ∧ before.kind = .fire ∧ before.time = time ∧
    before.start = done.start ∧ network.find? before.pattern before.node = some done.node ∧
    network.memberIndex? before.pattern = some done.pattern ∧
    (network.closureAfter done.node).reachesEnd = true

section Extension

variable {old new : Network} {tokens moreTokens : List Token} {log moreLog : List Event} {mode : Mode}

theorem Event.Awaited.extend {event : Event} {node position : Nat} (soundOld : old.Sound)
    (sound : new.Sound) (grows : old.Grows new) (logged : log <+: moreLog)
    (awaited : event.Awaited old log node position) : event.Awaited new moreLog node position := by
  cases awaited with
  | entry cause start registered opens =>
    exact .entry cause start (grows.member? soundOld sound registered) opens
  | after caused found earlier fired pattern start adjacent later place follows =>
    exact .after caused (getElem?_extend logged found) earlier fired pattern start adjacent later
      (grows.find? soundOld sound place)
      (grows.closureAfter soundOld (soundOld.lt_of_find? place) ▸ follows)

theorem Event.Sound.extend {event : Event} {position : Nat} (soundOld : old.Sound)
    (sound : new.Sound) (grows : old.Grows new) (fed : tokens <+: moreTokens)
    (logged : log <+: moreLog) (event' : event.Sound old mode tokens log position) :
    event.Sound new mode moreTokens moreLog position := by
  obtain ⟨id, begins, spans, past, grounded⟩ := event'
  refine ⟨id, begins, spans, Nat.le_trans past fed.length_le, ?_⟩
  cases grounded with
  | token kind sub place found awaited current elementType value agrees consumes =>
    exact .token kind sub (grows.find? soundOld sound place) (grows.site found)
      (awaited.extend soundOld sound grows logged) (getElem?_extend fed current) elementType value
      agrees consumes
  | reference kind consumes place found recorded earlier completed together awaited names
      elementType value =>
    exact .reference kind consumes (grows.find? soundOld sound place) (grows.site found)
      (getElem?_extend logged recorded) earlier completed together
      (awaited.extend soundOld sound grows logged) names elementType value
  | completion kind sub elementType value registered place caused found earlier fired pattern start
      together last reachesEnd =>
    exact .completion kind sub elementType value (grows.member? soundOld sound registered)
      (grows.find? soundOld sound place) caused (getElem?_extend logged found) earlier fired
      pattern start together (grows.find? soundOld sound last)
      (grows.closureAfter soundOld (soundOld.lt_of_find? last) ▸ reachesEnd)

theorem Listener.Sound.extend {listener : Listener} {position : Nat} (soundOld : old.Sound)
    (sound : new.Sound) (grows : old.Grows new) (logged : log <+: moreLog)
    (listener' : listener.Sound old log position) : listener.Sound new moreLog position := by
  obtain ⟨id, ready, born, grounded⟩ := listener'
  refine ⟨id, ready, born, ?_⟩
  cases grounded with
  | entry origin start registered opens => exact .entry origin start (grows.member registered) opens
  | after origin found fired start adjacent place pattern follows =>
    exact .after origin (getElem?_extend logged found) fired start adjacent
      (grows.find? soundOld sound place) (grows.memberIndex? sound pattern)
      (grows.closureAfter soundOld (soundOld.lt_of_find? place) ▸ follows)

theorem Completion.Grounded.member {network : Network} {log : List Event} {time : Nat}
    {done : Completion} (grounded : done.Grounded network log time) :
    ∃ member, network.members[done.pattern]? = some member := by
  obtain ⟨_, _, _, _, _, _, index, _⟩ := grounded
  obtain ⟨member, found, _⟩ := Network.Sound.member_of_memberIndex? index
  exact ⟨member, found⟩

theorem Completion.Grounded.extend {network : Network} {time : Nat} {done : Completion}
    (logged : log <+: moreLog) (grounded : done.Grounded network log time) :
    done.Grounded network moreLog time := by
  obtain ⟨before, found, rest⟩ := grounded
  exact ⟨before, getElem?_extend logged found, rest⟩

end Extension

end Constructicon
