import Constructicon.Proofs.Network.Refusals

/-! Why a pattern is not registered, and what a refusal leaves behind. A network in use is edited in
place, in several steps of which some can fail, and a step that fails does not undo the steps before
it. Registration looks at the names first, without changing anything; once this has passed none of
the later steps fails, so a refused pattern leaves the session as it was. -/
namespace Constructicon

/-- An edit of a network in place. What it has changed stays changed if it fails. -/
abbrev Edit := EStateM Error Network Unit

/-- What is said against a pattern before anything is changed. -/
def Network.objection? (network : Network) (automaton : Automaton) (composing : Bool) :
    Option Error :=
  if network.has automaton.name then some (.duplicatePattern automaton.name)
  else if composing then
    unknown? (fun name => name = automaton.name || network.has name) automaton.name
      automaton.references
  else none

namespace Edit

/-- Looks at the names first. -/
def vet (automaton : Automaton) (composing : Bool) : Edit := do
  match (← get).objection? automaton composing with
  | some error => throw error
  | none => pure ()

/-- Places an automaton, unless its name is taken. -/
def embed (hub : Option Nat) (automaton : Automaton) : Edit := do
  if (← get).has automaton.name then throw (.duplicatePattern automaton.name)
  modify (·.join hub automaton)

/-- Links references one after another, each to the pattern found at that moment. -/
def link (automaton : Automaton) : List (String × String) → Edit
  | [] => pure ()
  | (key, reference) :: rest => do
    let network ← get
    let some member := network.member? reference
      | throw (.unknownReference automaton.name key reference)
    if let some node := network.find? automaton.name key then
      set (network.addLinks
        [{ source := member.patternNode, target := node, kind := .constructionRef }])
    link automaton rest

/-- The steps that change the network; the embedding and each link may fail. -/
def place (automaton : Automaton) (composing : Bool) : Edit := do
  if composing then
    modify (·.withGlobalStart)
    embed (← get).globalStart? automaton
    link automaton automaton.references
  else embed none automaton

def attach (automaton : Automaton) (composing : Bool) : Edit := do
  vet automaton composing
  place automaton composing

variable {network : Network} {automaton : Automaton} {composing : Bool}

theorem run_vet : (vet automaton composing).run network =
    match network.objection? automaton composing with
    | some error => .error error network
    | none => .ok () network := by
  unfold vet
  cases said : network.objection? automaton composing <;> simp [said]

theorem run_embed {hub : Option Nat} (fresh : network.has automaton.name = false) :
    (embed hub automaton).run network = .ok () (network.join hub automaton) := by
  simp [embed, fresh]

theorem referenceLink?_addLinks (links : List Link) :
    (network.addLinks links).referenceLink? automaton = network.referenceLink? automaton := rfl

theorem run_link {references : List (String × String)}
    (known : ∀ reference ∈ references, network.has reference.2 = true) :
    (link automaton references).run network =
      .ok () (network.addLinks (references.filterMap (network.referenceLink? automaton))) := by
  induction references generalizing network with
  | nil => simp [link, Network.addLinks_nil]
  | cons reference rest ih =>
    obtain ⟨here, later⟩ := List.forall_mem_cons.mp known
    rw [Network.has_eq_isSome] at here
    obtain ⟨member, found⟩ := Option.isSome_iff_exists.mp here
    rw [List.filterMap_cons]
    cases target : network.find? automaton.name reference.1 with
    | none => simp [link, found, target, Network.referenceLink?, ih later]
    | some node =>
      -- one more link changes nothing of what the later references are looked up in
      have linked : (link automaton rest).run (network.addLinks
          [{ source := member.patternNode, target := node, kind := .constructionRef }]) = _ :=
        ih later
      rw [Network.addLinks_addLinks, referenceLink?_addLinks] at linked
      simpa [link, found, target, Network.referenceLink?] using linked

theorem objection?_eq_none (composing : Bool) : network.objection? automaton composing = none ↔
    network.has automaton.name = false ∧ (composing = true → ∀ reference ∈ automaton.references,
      reference.2 = automaton.name ∨ network.has reference.2 = true) := by
  unfold Network.objection?
  cases network.has automaton.name <;> cases composing <;> simp [Network.unknown?_eq_none]

theorem run_place (passed : network.objection? automaton composing = none) :
    ∃ grown, network.attach automaton composing = .ok grown ∧
      (place automaton composing).run network = .ok () grown := by
  obtain ⟨fresh, known⟩ := (objection?_eq_none composing).mp passed
  cases composing with
  | false =>
    refine ⟨network.join none automaton, ?_, ?_⟩
    · simp [Network.attach, fresh]
    · simp [place, run_embed fresh]
  | true =>
    have known := known rfl
    refine ⟨_, Network.attach_eq_ok.mpr ⟨fresh, known, rfl⟩, ?_⟩
    have embedded : (embed network.withGlobalStart.globalStart? automaton).run
        network.withGlobalStart = _ := run_embed (Network.has_withGlobalStart.trans fresh)
    have linked : (link automaton automaton.references).run (network.joinHub automaton) = _ :=
      run_link fun reference member => (Network.has_joinHub _).mpr (known reference member)
    simpa [place, embedded, Network.joinHub, Network.referenceLinks] using linked

theorem attach_of_objection {error : Error}
    (said : network.objection? automaton composing = some error) :
    network.attach automaton composing = .error error := by
  have test : (fun reference : String × String =>
      decide (reference.2 ≠ automaton.name ∧ network.has reference.2 = false)) = fun reference =>
        decide ((decide (reference.2 = automaton.name) || network.has reference.2) = false) := by
    funext reference
    simp
  unfold Network.objection? at said
  unfold Network.attach
  split at said
  · rename_i taken
    rw [if_pos taken, Option.some.inj said]
  · rename_i fresh
    cases composing with
    | false => cases said
    | true =>
      obtain ⟨reference, found, rfl⟩ := Option.map_eq_some_iff.mp said
      rw [if_neg fresh, if_pos rfl, test, found]
      rfl

/-- Editing in place does what attaching does, and a refused edit leaves the network as it was. -/
theorem run_attach : (attach automaton composing).run network =
    match network.attach automaton composing with
    | .error error => .error error network
    | .ok grown => .ok () grown := by
  unfold attach
  rw [EStateM.run_bind, run_vet]
  cases said : network.objection? automaton composing with
  | some error => rw [attach_of_objection said]
  | none =>
    obtain ⟨grown, attached, placed⟩ := run_place said
    rw [attached]
    exact placed

end Edit

namespace Session

/-- Registration in place: an edit of the network and, in isolated mode, the first listeners. -/
def registering (automaton : Automaton) : EStateM Error Session Unit := fun session =>
  match (Edit.attach automaton (session.mode = .unified)).run session.network with
  | .error error network => .error error { session with network }
  | .ok _ network =>
    let grown := { session with network }
    match session.mode with
    | .isolated => .ok () (grown.seed (session.time + 1) (network.members.length - 1))
    | .unified => .ok () grown

/-- Why a pattern is not registered: its name is taken or, if references are fed by completions, the
first of them in key order that names neither a registered pattern nor the pattern itself. -/
inductive Refusal (session : Session) (automaton : Automaton) : Error → Prop where
  | duplicate (taken : automaton.name ∈ session.network.members.map (·.name)) :
      Refusal session automaton (.duplicatePattern automaton.name)
  | unknownReference {key reference : String}
      (fresh : automaton.name ∉ session.network.members.map (·.name))
      (unified : session.mode = .unified) (refers : (key, reference) ∈ automaton.references)
      (foreign : reference ≠ automaton.name)
      (unknown : reference ∉ session.network.members.map (·.name))
      (first : ∀ other known, (other, known) ∈ automaton.references → other < key →
        known = automaton.name ∨ known ∈ session.network.members.map (·.name)) :
      Refusal session automaton (.unknownReference automaton.name key reference)

variable {session : Session} {automaton : Automaton} {error : Error}

theorem objection?_eq_some : session.network.objection? automaton (session.mode = .unified) =
    some error ↔ session.Refusal automaton error := by
  have unknown : Network.unknown? (fun name => name = automaton.name || session.network.has name)
      automaton.name automaton.references = some error ↔ _ :=
    Network.unknown?_eq_some (Network.ascending_references automaton)
  simp only [← Bool.not_eq_true, Bool.or_eq_true, not_or, decide_eq_true_eq, Network.has_iff,
    Prod.forall] at unknown
  unfold Network.objection?
  by_cases taken : session.network.has automaton.name = true
  · rw [if_pos taken]
    have taken := Network.has_iff.mp taken
    constructor
    · rintro ⟨⟩
      exact .duplicate taken
    · intro refusal
      cases refusal with
      | duplicate => rfl
      | unknownReference fresh => exact absurd taken fresh
  · rw [if_neg taken]
    have fresh := mt Network.has_iff.mpr taken
    by_cases unified : session.mode = .unified
    · simp only [unified, decide_true, if_true, unknown]
      constructor
      · rintro ⟨key, reference, rfl, refers, ⟨foreign, missing⟩, first⟩
        exact .unknownReference fresh unified refers foreign missing first
      · intro refusal
        cases refusal with
        | duplicate taken => exact absurd taken fresh
        | unknownReference _ _ refers foreign missing first =>
          exact ⟨_, _, rfl, refers, ⟨foreign, missing⟩, first⟩
    · simp only [unified, decide_false, Bool.false_eq_true, if_false]
      refine iff_of_false (by rintro ⟨⟩) fun refusal => ?_
      cases refusal with
      | duplicate taken => exact fresh taken
      | unknownReference _ composing => exact unified composing

theorem register_eq_error : session.register automaton = .error error ↔
    session.Refusal automaton error := by
  rw [← objection?_eq_some]
  unfold register
  cases said : session.network.objection? automaton (session.mode = .unified) with
  | some why =>
    rw [Edit.attach_of_objection said, error_bind]
    simp
  | none =>
    obtain ⟨grown, attached, _⟩ := Edit.run_place said
    rw [attached, ok_bind]
    cases session.mode <;> simp [pure, Except.pure]

theorem run_registering : (registering automaton).run session =
    match session.register automaton with
    | .error error => .error error session
    | .ok grown => .ok () grown := by
  change registering automaton session = _
  unfold registering register
  rw [Edit.run_attach]
  cases session.network.attach automaton (session.mode = .unified) with
  | error => rfl
  | ok network => cases session.mode <;> rfl

end Session

/-- A grammar has a network just if all its patterns compile and refer to its own patterns, and
otherwise the first fault is told. A pattern is registered unless its name is taken or, in unified
mode, it refers to a pattern that is neither there nor itself. A refused registration in place
leaves the session as it was, and once nothing is said against a pattern its placing succeeds. -/
theorem refused_exactly :
    (∀ grammar : Grammar,
      ((∃ network, grammar.network = .ok network) ↔
        ∀ entry ∈ grammar.entries, (entry.2.compile entry.1).isOk = true ∧
          ∀ reference ∈ entry.2.references, reference ∈ grammar.keys) ∧
      ∀ error, grammar.network = .error error ↔ grammar.Refusal error) ∧
    ∀ (session : Session) (automaton : Automaton),
      (∀ error, session.register automaton = .error error ↔ session.Refusal automaton error) ∧
      ((Session.registering automaton).run session = match session.register automaton with
        | .error error => .error error session
        | .ok grown => .ok () grown) ∧
      let composing : Bool := session.mode = .unified
      ((Edit.vet automaton composing).run session.network = .ok () session.network →
        ∃ network, (Edit.place automaton composing).run session.network = .ok () network) := by
  refine ⟨fun grammar => ⟨Grammar.network_eq_ok, fun _ => Grammar.network_eq_error⟩,
    fun session automaton => ⟨fun _ => Session.register_eq_error, Session.run_registering, ?_⟩⟩
  intro composing vetted
  rw [Edit.run_vet] at vetted
  cases said : session.network.objection? automaton composing with
  | some error => rw [said] at vetted; cases vetted
  | none =>
    obtain ⟨network, _, placed⟩ := Edit.run_place said
    exact ⟨network, placed⟩

/-- Two sums in a row cannot be registered where there are no sums: the first of the two references
is told, and nothing has changed. -/
theorem refused_exactly_pairs :
    let session := Session.unified {} {}
    let error : Error := .unknownReference "pair" "e0" "sum"
    session.Refusal pairsAutomaton error ∧
      (Session.registering pairsAutomaton).run session = .error error session := by
  intro session error
  obtain ⟨refused, atomic, _⟩ := refused_exactly.2 session pairsAutomaton
  have register : session.register pairsAutomaton = .error error := by decide +kernel
  rw [register] at atomic
  exact ⟨(refused error).mp register, atomic⟩

end Constructicon
