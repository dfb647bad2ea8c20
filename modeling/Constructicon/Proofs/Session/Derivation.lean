import Constructicon.Network
import Constructicon.Event

/-! What a grammar says of a row of tokens, apart from how it is recognised. A pattern derives a
span when some of its elements, each following the one before, consume it from end to end: an
element takes one token, a reference takes a span together with a derivation of its pattern over
it. The log is read back by following its links: what a firing says is what its cause says, then
its node, then what the completion it consumed says. -/
namespace Constructicon

/-- The elements consumed, the last one outermost; `nothing` precedes the first. -/
inductive Derivation where
  | nothing
  | token (before : Derivation) (node : Nat)
  | construction (before : Derivation) (node : Nat) (inner : Derivation)
  deriving DecidableEq

namespace Network

variable (network : Network) (tokens : List Token) (joined : List Nat)

/-- An instance of `pattern` may begin with `node` at `tick`, after the pattern joined. -/
def Opens (pattern node tick : Nat) : Prop :=
  (∃ member, network.members[pattern]? = some member ∧ node ∈ member.entryNodes) ∧
    ∃ since, joined[pattern]? = some since ∧ since < tick

/-- An element that is no reference, and takes the token of `tick`. -/
def Takes (node tick : Nat) : Prop :=
  ∃ site token, network.sites[node]? = some site ∧ site.reference = none ∧
    tokens[tick - 1]? = some token ∧ site.matchType = some token.elementType

/-- A reference to `pattern`. -/
def Refers (node pattern : Nat) : Prop :=
  ∃ site member, network.sites[node]? = some site ∧ network.members[pattern]? = some member ∧
    site.reference = some member.name

/-- A derivation begun: elements of `pattern` up to `node` consume the ticks `first` to `last`. -/
inductive Begun : (pattern first last node : Nat) → Derivation → Prop where
  | token {pattern node tick : Nat} (opens : network.Opens joined pattern node tick)
      (takes : network.Takes tokens node tick) :
      Begun pattern tick tick node (.token .nothing node)
  | construction {pattern node sub first last final : Nat} {inner : Derivation}
      (opens : network.Opens joined pattern node first) (refers : network.Refers node sub)
      (part : Begun sub first last final inner)
      (ends : (network.closureAfter final).reachesEnd = true) :
      Begun pattern first last node (.construction .nothing node inner)
  | nextToken {pattern first last previous node : Nat} {before : Derivation}
      (begun : Begun pattern first last previous before)
      (follows : node ∈ (network.closureAfter previous).elements)
      (takes : network.Takes tokens node (last + 1)) :
      Begun pattern first (last + 1) node (.token before node)
  | nextConstruction {pattern first middle last previous node sub final : Nat}
      {before inner : Derivation} (begun : Begun pattern first middle previous before)
      (follows : node ∈ (network.closureAfter previous).elements)
      (refers : network.Refers node sub) (part : Begun sub (middle + 1) last final inner)
      (ends : (network.closureAfter final).reachesEnd = true) :
      Begun pattern first last node (.construction before node inner)

/-- A whole derivation of `pattern` over the ticks `first` to `last`. -/
def Derives (pattern first last : Nat) (derivation : Derivation) : Prop :=
  ∃ final, network.Begun tokens joined pattern first last final derivation ∧
    (network.closureAfter final).reachesEnd = true

/-- What the event `id` of a log says, by the links of the log. Links that do not point back
cannot be read. -/
def reading (log : List Event) (id : Nat) : Option Derivation :=
  let linked (link : Option Nat) (read : (other : Nat) → other < id → Option Derivation) :
      Option Derivation :=
    link.bind fun other => if earlier : other < id then read other earlier else none
  match log[id]? with
  | none => none
  | some event =>
    match event.kind with
    | .complete => linked event.cause fun other _ => reading log other
    | .fire => do
      let node ← network.find? event.pattern event.node
      let before ←
        if event.cause = none then some .nothing
        else linked event.cause fun other _ => reading log other
      match event.subEvent with
      | none => some (.token before node)
      | some _ =>
        (linked event.subEvent fun other _ => reading log other).map (.construction before node)
termination_by id

/-- What has been said before an event of an instance. -/
inductive ReadsBefore (log : List Event) (id : Nat) (event : Event) : Derivation → Prop where
  | first (cause : event.cause = none) : ReadsBefore log id event .nothing
  | next {cause : Nat} {before : Derivation} (caused : event.cause = some cause)
      (earlier : cause < id) (reads : network.reading log cause = some before) :
      ReadsBefore log id event before

variable {network} {log : List Event} {id : Nat} {event : Event} {node : Nat} {before : Derivation}

theorem reading_token (found : log[id]? = some event) (fired : event.kind = .fire)
    (place : network.find? event.pattern event.node = some node)
    (consumed : event.subEvent = none) (preceding : network.ReadsBefore log id event before) :
    network.reading log id = some (.token before node) := by
  rw [reading.eq_def]
  cases preceding with
  | first cause => simp [found, fired, place, consumed, cause]
  | next caused earlier reads => simp [found, fired, place, consumed, caused, earlier, reads]

theorem reading_construction {sub : Nat} {inner : Derivation} (found : log[id]? = some event)
    (fired : event.kind = .fire) (place : network.find? event.pattern event.node = some node)
    (consumed : event.subEvent = some sub) (older : sub < id)
    (inside : network.reading log sub = some inner)
    (preceding : network.ReadsBefore log id event before) :
    network.reading log id = some (.construction before node inner) := by
  rw [reading.eq_def]
  cases preceding with
  | first cause => simp [found, fired, place, consumed, cause, older, inside]
  | next caused earlier reads =>
    simp [found, fired, place, consumed, caused, earlier, reads, older, inside]

theorem reading_complete {cause : Nat} (found : log[id]? = some event)
    (completed : event.kind = .complete) (caused : event.cause = some cause) (earlier : cause < id) :
    network.reading log id = network.reading log cause := by
  rw [reading.eq_def]
  simp [found, completed, caused, earlier]

end Network

end Constructicon
