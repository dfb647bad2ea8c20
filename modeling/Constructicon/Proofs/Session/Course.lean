import Constructicon.Session.Sweep
import Constructicon.Proofs.Network.Compose

/-! Sessions over time. A session is opened over a network that was built from compiled automata;
from then on it consumes tokens, takes in patterns and starts anew, in any order. Its course keeps
what the session itself forgets: the tokens consumed since it last began, and the time at which
each pattern joined. -/
namespace Constructicon

namespace Network

inductive Composition : Network → Prop where
  | compose {automata : List Automaton} {network : Network}
      (compiled : ∀ automaton ∈ automata, automaton.Compiled)
      (ok : compose automata = .ok network) : Composition network
  | grammar {grammar : Grammar} {network : Network} (ok : grammar.network = .ok network) :
      Composition network

inductive Built : Network → Prop where
  | composed {network : Network} (composition : Composition network) : Built network
  | sideBySide {automata : List Automaton} {network : Network}
      (compiled : ∀ automaton ∈ automata, automaton.Compiled)
      (ok : isolated automata = .ok network) : Built network
  | attached {network grown : Network} {automaton : Automaton} {composing : Bool}
      (before : Built network) (compiled : automaton.Compiled)
      (ok : network.attach automaton composing = .ok grown) : Built grown

end Network

theorem Grammar.compile_compiled {grammar : Grammar} {automata : List Automaton}
    (ok : grammar.compile = .ok automata) : ∀ automaton ∈ automata, automaton.Compiled := by
  have each := mapM_eq_ok.mp ok
  intro automaton member
  obtain ⟨position, bound, rfl⟩ := List.getElem_of_mem member
  exact ⟨_, _, each.get (each.length_eq ▸ bound) bound⟩

namespace Network

theorem Composition.sound {network : Network} (composition : network.Composition) :
    network.Sound ∧ network.Composed := by
  cases composition with
  | compose compiled ok => exact compose_sound (fun a member => (compiled a member).sound) ok
  | grammar ok =>
    obtain ⟨automata, compiled, ok⟩ := bind_success ok
    exact compose_sound (fun a member => (Grammar.compile_compiled compiled a member).sound) ok

theorem Built.sound {network : Network} (built : network.Built) : network.Sound := by
  induction built with
  | composed composition => exact composition.sound.1
  | sideBySide compiled ok => exact isolated_sound (fun a member => (compiled a member).sound) ok
  | attached before compiled ok ih => exact (attach_grows ih compiled.sound ok).1

end Network

/-- Sessions at their opening: an isolated one, or a unified one over any network that was built.
The network of a grammar is a composition. -/
inductive Opening : Session → Prop where
  | isolated {automata : List Automaton} {limits : Limits} {session : Session}
      (compiled : ∀ automaton ∈ automata, automaton.Compiled)
      (ok : Session.isolated automata limits = .ok session) : Opening session
  | unified {network : Network} {limits : Limits} (built : network.Built) :
      Opening (Session.unified network limits)

theorem Opening.starts {session : Session} (opening : Opening session) :
    ∃ network mode limits, session = Session.start network mode limits ∧ network.Sound := by
  cases opening with
  | isolated compiled ok =>
    obtain ⟨network, built, ok⟩ := bind_success ok
    cases ok
    exact ⟨network, _, _, rfl, (Network.Built.sideBySide compiled built).sound⟩
  | unified built => exact ⟨_, _, _, rfl, built.sound⟩

/-- What may be asked of a session. -/
inductive Call where
  | feed (token : Token)
  | register (automaton : Automaton)
  | reset
  deriving DecidableEq

def Call.Compiled : Call → Prop
  | .register automaton => automaton.Compiled
  | _ => True

/-- What a session answers; a registered pattern is told by its place. -/
inductive Answer where
  | fed (result : Except Error Report)
  | registered (result : Except Error Nat)
  | reset

def Answer.accepted : Answer → Bool
  | .fed result => result.isOk
  | .registered result => result.isOk
  | .reset => true

namespace Session

def call (sweep : Session → Session) (session : Session) : Call → Answer × Session
  | .feed token =>
    let (result, after) := session.feedWith sweep token
    (.fed result, after)
  | .register automaton =>
    match session.register automaton with
    | .error error => (.registered (.error error), session)
    | .ok after => (.registered (.ok (after.network.members.length - 1)), after)
  | .reset => (.reset, session.reset)

def run (sweep : Session → Session) (session : Session) : List Call → List Answer × Session
  | [] => ([], session)
  | call :: rest =>
    let (answer, after) := session.call sweep call
    let (answers, final) := after.run sweep rest
    (answer :: answers, final)

/-- A sweep may drop active listeners and do nothing else. -/
def Dropping (sweep : Session → Session) : Prop :=
  ∀ session, ∃ kept, kept.Sublist session.active ∧ sweep session = { session with active := kept }

theorem dropping_sweepUnified : Dropping sweepUnified := by
  intro session
  unfold sweepUnified
  split
  · exact ⟨session.active, .refl _, rfl⟩
  · exact ⟨_, List.filter_sublist, rfl⟩

theorem dropping_id : Dropping id :=
  fun session => ⟨session.active, .refl _, rfl⟩

theorem run_append (sweep : Session → Session) (first second : List Call) (session : Session) :
    session.run sweep (first ++ second) =
      ((session.run sweep first).1 ++ ((session.run sweep first).2.run sweep second).1,
        ((session.run sweep first).2.run sweep second).2) := by
  induction first generalizing session with
  | nil => rfl
  | cons call rest ih => simp only [List.cons_append, run, ih]

end Session

/-- `tokens` are those consumed since the session last began, the one that aborted it included;
`joined` holds, for each pattern, the time after which its instances may begin. -/
structure Course where
  session : Session
  tokens : List Token
  joined : List Nat

namespace Course

def start (session : Session) : Course :=
  { session, tokens := [], joined := session.network.members.map fun _ => 0 }

def call (sweep : Session → Session) (course : Course) (call : Call) : Course :=
  { session := (course.session.call sweep call).2
    tokens := match call with
      | .feed token => if course.session.aborted then course.tokens else course.tokens ++ [token]
      | .register _ => course.tokens
      | .reset => []
    joined := match call with
      | .feed _ => course.joined
      | .register automaton =>
        match course.session.register automaton with
        | .error _ => course.joined
        | .ok _ => course.joined ++ [course.session.time]
      | .reset => course.joined.map fun _ => 0 }

/-- The courses that any calls lead to from the sessions opened. -/
inductive Reached (opened : Session → Prop) (sweep : Session → Session) : Course → Prop where
  | start {session : Session} (opening : opened session) : Reached opened sweep (start session)
  | call {course : Course} (reached : Reached opened sweep course) (call : Call)
      (compiled : call.Compiled) : Reached opened sweep (course.call sweep call)

theorem Reached.run {opened : Session → Prop} {sweep : Session → Session} {course : Course}
    (reached : course.Reached opened sweep) (calls : List Call)
    (compiled : ∀ call ∈ calls, call.Compiled) : ∃ after : Course, after.Reached opened sweep ∧
      after.session = (course.session.run sweep calls).2 := by
  induction calls generalizing course with
  | nil => exact ⟨course, reached, rfl⟩
  | cons call rest ih =>
    exact ih (reached.call call (compiled call List.mem_cons_self)) fun later member =>
      compiled later (List.mem_cons_of_mem _ member)

end Course

theorem eq_ok_of_isOk {ε α : Type} {result : Except ε α} (ok : result.isOk = true) (other : α) :
    result = .ok (result.toOption.getD other) := by
  cases result with
  | ok value => rfl
  | error error => cases ok

/-- The network of a grammar that composes. -/
def Grammar.composed (grammar : Grammar) : Network :=
  grammar.network.toOption.getD {}

theorem Grammar.network_composed {grammar : Grammar} (ok : grammar.network.isOk = true) :
    grammar.network = .ok grammar.composed :=
  eq_ok_of_isOk ok {}

theorem Session.ofGrammar_composed {grammar : Grammar} (ok : grammar.network.isOk = true)
    (limits : Limits) :
    Session.ofGrammar grammar limits = .ok (Session.unified grammar.composed limits) := by
  rw [ofGrammar, Grammar.network_composed ok]
  rfl

/-- A sum is a number or two sums in a row, so three numbers are a sum in two ways. -/
def sums : Grammar :=
  Grammar.ofPatterns [
    { name := "sum"
      nodes := Table.ofList [("start", { kind := .start }), ("number", Node.consuming "N"),
        ("left", Node.referring "sum"), ("right", Node.referring "sum"), ("end", { kind := .finish })]
      edges := [{ source := "start", target := "number" }, { source := "start", target := "left" },
        { source := "left", target := "right" }, { source := "number", target := "end" },
        { source := "right", target := "end" }] }]

def sumsNetwork : Network :=
  match sums.network with
  | .ok network => network
  | .error _ => {}

theorem sums_network : sums.network = .ok sumsNetwork := by
  have ok : sums.network.isOk = true := by decide +kernel
  unfold sumsNetwork
  cases built : sums.network with
  | ok network => rfl
  | error error =>
    rw [built] at ok
    cases ok

def sumsAutomata : List Automaton :=
  match sums.compile with
  | .ok automata => automata
  | .error _ => []

theorem sums_compile : sums.compile = .ok sumsAutomata := by
  have ok : sums.compile.isOk = true := by decide +kernel
  unfold sumsAutomata
  cases compiled : sums.compile with
  | ok automata => rfl
  | error error =>
    rw [compiled] at ok
    cases ok

theorem sums_compose : Network.compose sumsAutomata = .ok sumsNetwork := by
  have built := sums_network
  rw [Grammar.network, sums_compile] at built
  exact built

/-- Two sums, one after the other. -/
def pairs : Pattern := Pattern.sequence "pair" ["@sum", "@sum"]

def pairsAutomaton : Automaton :=
  { name := "pair", nodes := pairs.nodes.map Node.compiled, edges := pairs.edges, start := "start"
    finish := "end" }

theorem pairs_compiled : pairsAutomaton.Compiled := by
  have ok : (pairs.compile "pair").toOption = some pairsAutomaton := by decide +kernel
  refine ⟨pairs, "pair", ?_⟩
  cases compiled : pairs.compile "pair" with
  | ok automaton =>
    rw [compiled] at ok
    exact congrArg Except.ok (Option.some.inj ok)
  | error error =>
    rw [compiled] at ok
    cases ok

def numbers : List Token :=
  [⟨"N", "1"⟩, ⟨"N", "2"⟩, ⟨"N", "3"⟩]

def sumsCourse (limits : Limits) (tokens : List Token) : Course :=
  tokens.foldl (fun course token => course.call Session.sweepUnified (.feed token))
    (Course.start (Session.unified sumsNetwork limits))

theorem sumsCourse_reached {opened : Session → Prop} (limits : Limits) (tokens : List Token)
    (opening : opened (Session.unified sumsNetwork limits)) :
    (sumsCourse limits tokens).Reached opened Session.sweepUnified := by
  have feeds (course : Course) (reached : course.Reached opened Session.sweepUnified) :
      (tokens.foldl (fun course token => course.call Session.sweepUnified (.feed token))
        course).Reached opened Session.sweepUnified := by
    induction tokens generalizing course with
    | nil => exact reached
    | cons token rest ih => exact ih _ (reached.call (.feed token) trivial)
  exact feeds _ (.start opening)

end Constructicon
