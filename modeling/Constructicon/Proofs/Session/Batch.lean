import Constructicon.Proofs.Session.Alike

/-! Registering patterns one by one and starting anew is opening a session with all of them at
once: the network that has grown is alike the one built in one go, whatever the session went
through meanwhile, and a session that starts anew keeps nothing but its network. -/
namespace Constructicon

def Network.build (mode : Mode) (automata : List Automaton) : Except Error Network :=
  match mode with
  | .isolated => Network.isolated automata
  | .unified => Network.compose automata

namespace Session

def ofAutomata (mode : Mode) (automata : List Automaton) (limits : Limits) :
    Except Error Session := do
  return start (← Network.build mode automata) mode limits

def admits (session : Session) : Call → List Automaton
  | .register automaton =>
    match session.register automaton with
    | .ok _ => [automaton]
    | .error _ => []
  | .feed _ => []
  | .reset => []

/-- The automata that a session takes in while it answers calls, in the order of registration. -/
def admitted (session : Session) : List Call → List Automaton
  | [] => []
  | call :: rest => session.admits call ++ (session.call sweepUnified call).2.admitted rest

end Session

namespace Network

variable {network batch grown : Network} {automata : List Automaton} {automaton : Automaton}

theorem Alike.attach_isolated (built : isolated automata = .ok batch) (alike : network.Alike batch)
    (ok : network.attach automaton false = .ok grown) :
    ∃ next, isolated (automata ++ [automaton]) = .ok next ∧ grown.Alike next := by
  obtain ⟨fresh, same⟩ := attach_success ok
  rw [alike.has] at fresh
  have embedded : batch.embed none automaton = .ok (batch.join none automaton) := by
    rw [embed, fresh, if_neg Bool.false_ne_true]
  refine ⟨batch.join none automaton, ?_, ?_⟩
  · unfold isolated at built ⊢
    rw [List.foldlM_append, built]
    change [automaton].foldlM (embed none) batch = _
    rw [List.foldlM_cons, embedded]
    rfl
  · have bare : network.Alike (batch.addLinks []) := by rwa [addLinks_nil]
    have joined := bare.join (by simp) none automaton
    rw [addLinks_nil] at joined
    exact same ▸ joined

theorem Alike.grow {mode : Mode} (compiled : ∀ other ∈ automata ++ [automaton], other.Compiled)
    (built : build mode automata = .ok batch) (alike : network.Alike batch)
    (ok : network.attach automaton (mode = .unified) = .ok grown) :
    ∃ next, build mode (automata ++ [automaton]) = .ok next ∧ grown.Alike next := by
  cases mode with
  | isolated => exact alike.attach_isolated built ok
  | unified => exact alike.attach (fun other member => (compiled other member).sound) built ok

end Network

namespace Session

/-- What a session keeps when it starts anew: its network is alike the one that is built of the
automata in one go. -/
structure Holds (mode : Mode) (limits : Limits) (automata : List Automaton) (session : Session) :
    Prop where
  sameMode : session.mode = mode
  sameLimits : session.limits = limits
  compiled : ∀ automaton ∈ automata, automaton.Compiled
  built : ∃ batch, Network.build mode automata = .ok batch ∧ session.network.Alike batch

namespace Holds

variable {session after : Session} {mode : Mode} {limits : Limits} {automata : List Automaton}
  {automaton : Automaton}

theorem of_basis (holds : session.Holds mode limits automata)
    (same : after.basis = session.basis) : after.Holds mode limits automata where
  sameMode := (mode_of_basis same).trans holds.sameMode
  sameLimits := (congrArg (·.2.2) same).trans holds.sameLimits
  compiled := holds.compiled
  built := network_of_basis same ▸ holds.built

theorem register (holds : session.Holds mode limits automata) (compiled : automaton.Compiled)
    (ok : session.register automaton = .ok after) :
    after.Holds mode limits (automata ++ [automaton]) := by
  obtain ⟨sameMode, sameLimits, all, batch, built, alike⟩ := holds
  obtain ⟨network, attached, isolated, unified⟩ := register_success ok
  have settled : after.basis = (network, session.mode, session.limits) := by
    cases mode : session.mode with
    | isolated => rw [isolated mode, seed_eq, ← mode]; rfl
    | unified => rw [unified mode, ← mode]; rfl
  have compiledAll : ∀ other ∈ automata ++ [automaton], other.Compiled := by
    simpa [or_imp, forall_and] using ⟨all, compiled⟩
  refine ⟨(congrArg (·.2.1) settled).trans sameMode, (congrArg (·.2.2) settled).trans sameLimits,
    compiledAll, ?_⟩
  rw [sameMode] at attached
  have grown : after.network = network := congrArg Prod.fst settled
  rw [grown]
  exact alike.grow compiledAll built attached

theorem call (holds : session.Holds mode limits automata) (call : Call) (compiled : call.Compiled) :
    (session.call sweepUnified call).2.Holds mode limits (automata ++ session.admits call) := by
  cases call with
  | feed token =>
    rw [admits, List.append_nil]
    exact holds.of_basis (feedWith_basis dropping_sweepUnified session token)
  | reset =>
    rw [admits, List.append_nil]
    exact holds.of_basis (start_basis ..)
  | register automaton =>
    unfold Session.call admits
    cases ok : session.register automaton with
    | error error => simpa only [ok, List.append_nil] using holds
    | ok after => simpa only [ok] using holds.register compiled ok

theorem run (calls : List Call) (compiled : ∀ call ∈ calls, call.Compiled)
    (holds : session.Holds mode limits automata) :
    (session.run sweepUnified calls).2.Holds mode limits (automata ++ session.admitted calls) := by
  induction calls generalizing session automata with
  | nil =>
    rw [admitted, List.append_nil]
    exact holds
  | cons first rest ih =>
    rw [admitted, ← List.append_assoc]
    exact ih (fun other member => compiled other (List.mem_cons_of_mem _ member))
      (holds.call first (compiled _ List.mem_cons_self))

/-- Once reset, the session is the one opened with all its automata, but for the network. -/
theorem reset (holds : session.Holds mode limits automata) : ∃ batch,
    ofAutomata mode automata limits = .ok (session.reset.over batch) ∧
      session.reset.network.Alike batch := by
  obtain ⟨sameMode, sameLimits, _, batch, built, alike⟩ := holds
  have kept : session.reset.network = session.network := network_of_basis (start_basis ..)
  refine ⟨batch, ?_, kept ▸ alike⟩
  unfold Session.reset
  rw [sameMode, sameLimits, over_start alike, ofAutomata, built]
  rfl

end Holds

theorem run_basis (tokens : List Token) (session : Session) :
    (session.run sweepUnified (tokens.map Call.feed)).2.basis = session.basis := by
  induction tokens generalizing session with
  | nil => rfl
  | cons token rest ih =>
    exact (ih _).trans (feedWith_basis dropping_sweepUnified session token)

theorem over_run {network : Network} {session : Session} (alike : session.network.Alike network)
    (tokens : List Token) : (session.over network).run sweepUnified (tokens.map Call.feed) =
      ((session.run sweepUnified (tokens.map Call.feed)).1,
        (session.run sweepUnified (tokens.map Call.feed)).2.over network) := by
  induction tokens generalizing session with
  | nil => rfl
  | cons token rest ih =>
    have fed := over_feed alike token
    have same := network_of_basis (feedWith_basis dropping_sweepUnified session token)
    have kept : (session.feed token).2.network.Alike network := same ▸ alike
    simp only [List.map_cons, Session.run, Session.call]
    unfold feed at fed kept
    simp only [fed, ih kept]

/-- Registration followed by a reset is batch construction: whatever calls a session has answered,
once reset it goes on as the session does that is opened with all the automata at once. Their
networks differ at most in the order of the links. -/
theorem reset_batch {mode : Mode} {automata : List Automaton} {limits : Limits} {session : Session}
    (compiled : ∀ automaton ∈ automata, automaton.Compiled)
    (opened : ofAutomata mode automata limits = .ok session) (calls : List Call)
    (compiledCalls : ∀ call ∈ calls, call.Compiled) :
    let used := (session.run sweepUnified calls).2.reset
    ∃ fresh, ofAutomata mode (automata ++ session.admitted calls) limits = .ok fresh ∧
      (used.network.sites = fresh.network.sites ∧ used.network.members = fresh.network.members ∧
        used.network.refTargets = fresh.network.refTargets ∧
        used.network.closureFrom = fresh.network.closureFrom ∧
        used.network.closureAfter = fresh.network.closureAfter ∧
        used.network.links.Perm fresh.network.links) ∧
      ∀ tokens : List Token,
        let (answers, after) := used.run sweepUnified (tokens.map .feed)
        let (expected, batched) := fresh.run sweepUnified (tokens.map .feed)
        answers = expected ∧ after = { batched with network := after.network } ∧
          after.snapshot = batched.snapshot ∧ after.firingsOf = batched.firingsOf := by
  intro used
  have begins : session.Holds mode limits automata := by
    obtain ⟨network, built, ok⟩ := bind_success opened
    cases ok
    have basis := start_basis network mode limits
    refine ⟨congrArg (·.2.1) basis, congrArg (·.2.2) basis, compiled, network, built, ?_⟩
    rw [show (start network mode limits).network = network from congrArg Prod.fst basis]
    exact .refl network
  obtain ⟨batch, batched, alike⟩ := (begins.run calls compiledCalls).reset
  refine ⟨used.over batch, batched, ?_, fun tokens => ?_⟩
  · exact ⟨alike.sites, alike.members, alike.refTargets, alike.closureFrom, alike.closureAfter,
      alike.perm⟩
  · have after := network_of_basis (run_basis tokens used)
    rw [over_run alike]
    refine ⟨rfl, rfl, ?_, ?_⟩
    · exact (over_snapshot (after ▸ alike)).symm
    · exact (over_firingsOf (after ▸ alike)).symm

/-- A session of sums takes in pairs of sums, refuses a second pattern of that name, has consumed
some numbers when it is reset, and then finds the pairs that it would have found from the start. -/
theorem reset_batch_pairs :
    let calls : List Call := [.feed ⟨"N", "1"⟩, .register pairsAutomaton, .feed ⟨"N", "2"⟩,
      .register pairsAutomaton]
    let used := ((unified sumsNetwork {}).run sweepUnified calls).2.reset
    ∃ fresh, ofAutomata .unified (sumsAutomata ++ [pairsAutomaton]) {} = .ok fresh ∧
      let (answers, after) := used.run sweepUnified (numbers.map .feed)
      let (expected, batched) := fresh.run sweepUnified (numbers.map .feed)
      answers = expected ∧ after = { batched with network := after.network } ∧
        (after.events.filter fun event => event.kind = .complete ∧ event.pattern = "pair").length = 4 := by
  intro calls used
  have opened : ofAutomata .unified sumsAutomata {} = .ok (unified sumsNetwork {}) := by
    unfold ofAutomata Network.build
    rw [sums_compose]
    rfl
  have admitted : (unified sumsNetwork {}).admitted calls = [pairsAutomaton] := by decide +kernel
  obtain ⟨fresh, batched, _, same⟩ := reset_batch (Grammar.compile_compiled sums_compile) opened calls
    (by simp [calls, Call.Compiled, pairs_compiled])
  rw [admitted] at batched
  exact ⟨fresh, batched, (same numbers).1, (same numbers).2.1, by decide +kernel⟩

end Session

end Constructicon
